import Mathlib
import ProtoScribe.Text.Utf8

/-!
# Decoding is the inverse of encoding

Bytes decode to a text exactly if they are its encoding (`decode_eq_ok_iff`), so bytes that spell no
text are refused.

A character's bytes are a first one and six bits in each of the rest. A pending sequence stands for
the code points that it may still become (`Pending.Begins`): those whose leading bits are read and
whose next six bits lie in the range. The bytes of such a code point are read to their end
(`decodeFrom_tail`), and nothing else is (`exists_tail_of_decodeFrom`). What is left are the
boundaries of the ranges: `exists_opens` and `Opens.encodeChar` say that the first byte promises just
the scalar values whose encodings begin with it.
-/

namespace ProtoScribe.Utf8

/-! ## The rest of a sequence -/

/-- The last `n` bytes of a code point's sequence, six bits in each. -/
def tail : (n v : Nat) → List UInt8
  | 0, _ => []
  | n + 1, v => UInt8.ofNat (v / 64 ^ n % 64 + 0x80) :: tail n v

@[simp] theorem length_tail : ∀ n v : Nat, (tail n v).length = n
  | 0, _ => rfl
  | n + 1, v => congrArg (· + 1) (length_tail n v)

/-- A byte that continues a sequence holds six bits. -/
theorem toNat_tail (x : Nat) : (UInt8.ofNat (x % 64 + 0x80)).toNat = x % 64 + 0x80 := by
  rw [UInt8.toNat_ofNat']
  omega

namespace Pending

/-- A code point that the sequence may become. -/
structure Begins (p : Pending) (v : Nat) : Prop where
  /-- The bits that are read are its leading ones. -/
  value : v / 64 ^ p.owed = p.value
  /-- The next six bits lie in the range. -/
  range : ∀ n, p.owed = n + 1 →
    p.low.toNat ≤ v / 64 ^ n % 64 + 0x80 ∧ v / 64 ^ n % 64 + 0x80 ≤ p.high.toNat

/-- The next byte gives the next six bits. -/
theorem Begins.next {p : Pending} {n v : Nat} (h : p.Begins v) (hn : p.owed = n + 1) :
    p.value * 64 + ((UInt8.ofNat (v / 64 ^ n % 64 + 0x80)).toNat - 0x80) = v / 64 ^ n := by
  rw [toNat_tail, ← h.value, hn, pow_succ, ← Nat.div_div_eq_div_mul, Nat.add_sub_cancel]
  exact Nat.div_add_mod' _ _

/-- The next byte is one that continues a sequence. -/
structure Continues (p : Pending) : Prop where
  low : 0x80 ≤ p.low.toNat
  high : p.high.toNat ≤ 0xBF

theorem continues {seen owed value : Nat} : Continues { seen, owed, value } where
  low := by show (0x80 : Nat) ≤ (0x80 : UInt8).toNat; decide
  high := by show (0xBF : UInt8).toNat ≤ 0xBF; decide

/-- Without a narrower range, leading bits are all that counts. -/
theorem begins_of_value {seen owed value v : Nat} (h : v / 64 ^ owed = value) :
    Begins { seen, owed, value } v where
  value := h
  range n _ := by
    show (0x80 : UInt8).toNat ≤ _ ∧ _ ≤ (0xBF : UInt8).toNat
    have : (0x80 : UInt8).toNat = 0x80 ∧ (0xBF : UInt8).toNat = 0xBF := by decide
    omega

end Pending

/-- Reading a sequence to its end gives its code point. -/
theorem decodeFrom_tail {p : Pending} {n v : Nat} (hn : p.owed = n + 1) (h : p.Begins v)
    (index : Nat) (before : List Char) (bs : List UInt8) :
    decodeFrom index before (some p) (tail p.owed v ++ bs)
      = decodeFrom (index + p.seen + p.owed) (Char.ofNat v :: before) none bs := by
  induction n generalizing p with
  | zero =>
    have hr := h.range 0 hn
    rw [← toNat_tail, ← UInt8.le_iff_toNat_le, ← UInt8.le_iff_toNat_le] at hr
    rw [hn, tail, tail, List.singleton_append, decodeFrom, if_pos hr, if_pos hn, h.next hn]
    simp
  | succ n ih =>
    have hr := h.range (n + 1) hn
    rw [← toNat_tail, ← UInt8.le_iff_toNat_le, ← UInt8.le_iff_toNat_le] at hr
    rw [hn, tail, List.cons_append, decodeFrom, if_pos hr, if_neg (by omega), h.next hn,
      hn, Nat.add_sub_cancel]
    -- Only the first of these bytes may have a narrower range.
    refine (ih rfl (Pending.begins_of_value rfl)).trans ?_
    congr 1
    show index + (p.seen + 1) + (n + 1) = index + p.seen + (n + 1 + 1)
    omega

/-- A byte in the range is the next one of just the code points that begin with what is read and
it. -/
theorem Pending.begins_cons_iff {p : Pending} {n v : Nat} {b : UInt8} (hn : p.owed = n + 1)
    (hp : p.Continues) (hb : p.low ≤ b ∧ b ≤ p.high) (seen : Nat) :
    Begins { seen, owed := n, value := p.value * 64 + (b.toNat - 0x80) } v ↔
      p.Begins v ∧ UInt8.ofNat (v / 64 ^ n % 64 + 0x80) = b := by
  rw [UInt8.le_iff_toNat_le, UInt8.le_iff_toNat_le] at hb
  have hlow := hp.low
  have hhigh := hp.high
  constructor
  · rintro ⟨hv, -⟩
    dsimp only at hv
    have hm : v / 64 ^ n % 64 + 0x80 = b.toNat := by omega
    refine ⟨⟨?_, fun m hm' => ?_⟩, ?_⟩
    · rw [hn, pow_succ, ← Nat.div_div_eq_div_mul]
      omega
    · obtain rfl : n = m := by omega
      rw [hm]
      exact hb
    · rw [hm, UInt8.ofNat_toNat]
  · rintro ⟨hv, rfl⟩
    exact begins_of_value (hv.next hn).symm

/-- Nothing else is read as the rest of a sequence. -/
theorem exists_tail_of_decodeFrom {index : Nat} {before cs : List Char} :
    ∀ (bs : List UInt8) (p : Pending), 0 < p.owed → p.Continues →
      decodeFrom index before (some p) bs = .ok cs →
      ∃ v rest, p.Begins v ∧ bs = tail p.owed v ++ rest
  | [], _, _, _, h => by simp [decodeFrom] at h
  | b :: bs, p, ho, hp, h => by
    obtain ⟨n, hn⟩ : ∃ n, p.owed = n + 1 := ⟨p.owed - 1, by omega⟩
    rw [decodeFrom] at h
    split at h
    · next hb =>
      simp only [hn] at h
      split at h
      · obtain rfl : n = 0 := by omega
        obtain ⟨hbegins, hbyte⟩ := (Pending.begins_cons_iff hn hp hb p.seen).mp
          (Pending.begins_of_value (v := p.value * 64 + (b.toNat - 0x80)) (by simp))
        refine ⟨_, bs, hbegins, ?_⟩
        rw [hn, tail, tail, hbyte]
        rfl
      · obtain ⟨v, rest, hv, rfl⟩ := exists_tail_of_decodeFrom bs _ (by show 0 < n; omega)
          Pending.continues h
        obtain ⟨hbegins, hbyte⟩ := (Pending.begins_cons_iff hn hp hb _).mp hv
        refine ⟨v, rest, hbegins, ?_⟩
        rw [hn, tail, hbyte]
        rfl
    · cases h

/-! ## First bytes -/

/-- The first bytes of sequences, and what each of them promises. -/
inductive Opens : UInt8 → Pending → Prop where
  | one {x : Nat} (h : x < 0x80) : Opens (UInt8.ofNat x) { owed := 0, value := x }
  | two {x : Nat} (hl : 2 ≤ x) (hh : x < 32) :
    Opens (UInt8.ofNat (x + 0xC0)) { owed := 1, value := x }
  | three {x : Nat} (h : x < 16) :
    Opens (UInt8.ofNat (x + 0xE0))
      { owed := 2, low := if x = 0 then 0xA0 else 0x80, high := if x = 13 then 0x9F else 0xBF,
        value := x }
  | four {x : Nat} (h : x < 5) :
    Opens (UInt8.ofNat (x + 0xF0))
      { owed := 3, low := if x = 0 then 0x90 else 0x80, high := if x = 4 then 0x8F else 0xBF,
        value := x }

theorem Opens.lead_eq {b : UInt8} {p : Pending} (h : Opens b p) : lead b = some p := by
  cases h with
  | @one x h =>
    have all : ∀ x < 0x80, lead (UInt8.ofNat x) = some { owed := 0, value := x } := by decide
    exact all x h
  | @two x hl hh =>
    have all : ∀ x < 32, 2 ≤ x →
        lead (UInt8.ofNat (x + 0xC0)) = some { owed := 1, value := x } := by decide
    exact all x hh hl
  | @three x h =>
    have all : ∀ x < 16, lead (UInt8.ofNat (x + 0xE0))
        = some { owed := 2, low := if x = 0 then 0xA0 else 0x80,
                 high := if x = 13 then 0x9F else 0xBF, value := x } := by decide
    exact all x h
  | @four x h =>
    have all : ∀ x < 5, lead (UInt8.ofNat (x + 0xF0))
        = some { owed := 3, low := if x = 0 then 0x90 else 0x80,
                 high := if x = 4 then 0x8F else 0xBF, value := x } := by decide
    exact all x h

/-- Bytes that continue a sequence, and those that are in none, open nothing. -/
theorem lead_eq_none {x : Nat} (h : 0x80 ≤ x ∧ x < 0xC2 ∨ 0xF5 ≤ x ∧ x < 0x100) :
    lead (UInt8.ofNat x) = none := by
  have all : ∀ x < 0x100, 0x80 ≤ x ∧ x < 0xC2 ∨ 0xF5 ≤ x → lead (UInt8.ofNat x) = none := by
    decide +kernel
  exact all x (by omega) (by omega)

theorem opens_of_lead {b : UInt8} {p : Pending} (h : lead b = some p) : Opens b p := by
  have found {b' : UInt8} {q : Pending} (hq : Opens b' q) (hb : b' = b) : Opens b p := by
    subst hb
    have := hq.lead_eq
    rw [h, Option.some.injEq] at this
    exact this ▸ hq
  have hlt := b.toNat_lt
  -- The ranges of bytes in order. Those of first bytes are found among `Opens`, the others refused.
  rcases Nat.lt_or_ge b.toNat 0x80 with h₁ | h₁
  · exact found (.one h₁) (by simp)
  rcases Nat.lt_or_ge b.toNat 0xC2 with h₂ | h₂
  · have := lead_eq_none (.inl ⟨h₁, h₂⟩)
    rw [UInt8.ofNat_toNat, h] at this
    cases this
  rcases Nat.lt_or_ge b.toNat 0xE0 with h₃ | h₃
  · refine found (.two (x := b.toNat - 0xC0) (by omega) (by omega)) ?_
    rw [Nat.sub_add_cancel (by omega), UInt8.ofNat_toNat]
  rcases Nat.lt_or_ge b.toNat 0xF0 with h₄ | h₄
  · refine found (.three (x := b.toNat - 0xE0) (by omega)) ?_
    rw [Nat.sub_add_cancel (by omega), UInt8.ofNat_toNat]
  rcases Nat.lt_or_ge b.toNat 0xF5 with h₅ | h₅
  · refine found (.four (x := b.toNat - 0xF0) (by omega)) ?_
    rw [Nat.sub_add_cancel (by omega), UInt8.ofNat_toNat]
  · have := lead_eq_none (.inr ⟨h₅, hlt⟩)
    rw [UInt8.ofNat_toNat, h] at this
    cases this

theorem Opens.seen_eq {b : UInt8} {p : Pending} (h : Opens b p) : p.seen = 1 := by cases h <;> rfl

theorem Opens.continues {b : UInt8} {p : Pending} (h : Opens b p) : p.Continues := by
  cases h with
  | one | two => exact Pending.continues
  | three | four => constructor <;> dsimp only <;> split <;> decide

/-! ## Scalar values -/

/-- An encoding is a first byte, and as many others as the code point's size asks for. -/
theorem encodeChar_eq (c : Char) :
    String.utf8EncodeChar c =
      if c.toNat < 0x80 then UInt8.ofNat c.toNat :: tail 0 c.toNat
      else if c.toNat < 0x800 then UInt8.ofNat (c.toNat / 64 % 32 + 0xC0) :: tail 1 c.toNat
      else if c.toNat < 0x10000 then UInt8.ofNat (c.toNat / 4096 % 16 + 0xE0) :: tail 2 c.toNat
      else UInt8.ofNat (c.toNat / 262144 % 8 + 0xF0) :: tail 3 c.toNat := by
  simp only [String.utf8EncodeChar, tail, pow_zero, pow_one, Nat.div_one, Nat.reducePow, Char.toNat,
    Nat.le_iff_lt_add_one, Nat.reduceAdd]

/-- What begins as a first byte promises is a scalar value, and encoded that way. -/
theorem Opens.encodeChar {b : UInt8} {p : Pending} {v : Nat} (h : Opens b p) (hv : p.Begins v) :
    ∃ c : Char, c.toNat = v ∧ String.utf8EncodeChar c = b :: tail p.owed v := by
  suffices hs : v.isValidChar ∧
      ∀ c : Char, c.toNat = v → String.utf8EncodeChar c = b :: tail p.owed v by
    have hc : (Char.ofNat v).toNat = v := by rw [Char.toNat_ofNat, if_pos hs.1]
    exact ⟨Char.ofNat v, hc, hs.2 _ hc⟩
  obtain ⟨hvalue, hrange⟩ := hv
  cases h with
  | @one x h =>
    have hx : v = x := by simpa using hvalue
    refine ⟨.inl (by omega), fun c hc => ?_⟩
    rw [encodeChar_eq, hc, if_pos (by omega), hx]
  | @two x hl hh =>
    have hx : v / 64 = x := by simpa using hvalue
    refine ⟨.inl (by omega), fun c hc => ?_⟩
    rw [encodeChar_eq, hc, if_neg (by omega), if_pos (by omega), Nat.mod_eq_of_lt (by omega), hx]
  | @three x h =>
    have hx : v / 4096 = x := by simpa using hvalue
    have hr := hrange 1 rfl
    simp only [apply_ite UInt8.toNat, UInt8.reduceToNat, pow_one] at hr
    -- The narrower ranges keep out what fits in two bytes, and surrogates.
    have hs : 0x800 ≤ v ∧ v < 0x10000 ∧ (v < 0xD800 ∨ 0xDFFF < v) := by
      split_ifs at hr <;> omega
    refine ⟨by unfold Nat.isValidChar; omega, fun c hc => ?_⟩
    rw [encodeChar_eq, hc, if_neg (by omega), if_neg (by omega), if_pos (by omega),
      Nat.mod_eq_of_lt (by omega), hx]
  | @four x h =>
    have hx : v / 262144 = x := by simpa using hvalue
    have hr := hrange 2 rfl
    simp only [apply_ite UInt8.toNat, UInt8.reduceToNat, Nat.reducePow] at hr
    -- They keep out what fits in three bytes, and what lies beyond the last code point.
    have hs : 0x10000 ≤ v ∧ v < 0x110000 := by split_ifs at hr <;> omega
    refine ⟨by unfold Nat.isValidChar; omega, fun c hc => ?_⟩
    rw [encodeChar_eq, hc, if_neg (by omega), if_neg (by omega), if_neg (by omega),
      Nat.mod_eq_of_lt (by omega), hx]

/-- Every character's first byte promises the rest of its bytes. -/
theorem exists_opens (c : Char) :
    ∃ b p, Opens b p ∧ p.Begins c.toNat ∧ String.utf8EncodeChar c = b :: tail p.owed c.toNat := by
  have hv : c.toNat < 0xD800 ∨ 0xDFFF < c.toNat ∧ c.toNat < 0x110000 := c.valid
  rw [encodeChar_eq]
  generalize c.toNat = v at hv
  split
  · exact ⟨_, _, .one (by omega), Pending.begins_of_value (by simp), rfl⟩
  split
  · refine ⟨_, _, .two (x := v / 64) (by omega) (by omega), Pending.begins_of_value (by simp), ?_⟩
    rw [Nat.mod_eq_of_lt (by omega)]
  split
  · refine ⟨_, _, .three (x := v / 4096) (by omega), ⟨rfl, fun n hn => ?_⟩, ?_⟩
    · obtain rfl : n = 1 := by simpa using hn.symm
      simp only [apply_ite UInt8.toNat, UInt8.reduceToNat, pow_one]
      constructor <;> split <;> omega
    · rw [Nat.mod_eq_of_lt (by omega)]
  · refine ⟨_, _, .four (x := v / 262144) (by omega), ⟨rfl, fun n hn => ?_⟩, ?_⟩
    · obtain rfl : n = 2 := by simpa using hn.symm
      simp only [apply_ite UInt8.toNat, UInt8.reduceToNat, Nat.reducePow]
      constructor <;> split <;> omega
    · rw [Nat.mod_eq_of_lt (by omega)]

/-! ## Texts -/

/-- An encoded character is read, and reading goes on behind it. -/
theorem decodeFrom_encodeChar (c : Char) (index : Nat) (before : List Char) (bs : List UInt8) :
    decodeFrom index before none (String.utf8EncodeChar c ++ bs)
      = decodeFrom (index + c.utf8Size) (c :: before) none bs := by
  obtain ⟨b, p, ho, hv, he⟩ := exists_opens c
  have hn : c.utf8Size = p.owed + 1 := by
    rw [← String.length_utf8EncodeChar, he, List.length_cons, length_tail]
  rw [he, List.cons_append, decodeFrom, ho.lead_eq]
  dsimp only
  split
  · next h0 =>
    have hc : c.toNat = p.value := by simpa [h0] using hv.value
    rw [← hc, Char.ofNat_toNat, h0, tail, List.nil_append, hn, h0]
  · next h0 =>
    obtain ⟨n, h⟩ := Nat.exists_eq_succ_of_ne_zero h0
    rw [decodeFrom_tail h hv, Char.ofNat_toNat, ho.seen_eq, hn]
    congr 1
    omega

/-- Whatever is read begins with an encoded character. -/
theorem exists_encodeChar_of_decodeFrom {index : Nat} {before cs : List Char} {b : UInt8}
    {bs : List UInt8} (h : decodeFrom index before none (b :: bs) = .ok cs) :
    ∃ c rest, b :: bs = String.utf8EncodeChar c ++ rest := by
  rw [decodeFrom] at h
  cases hl : lead b with
  | none => simp [hl] at h
  | some p =>
    have ho := opens_of_lead hl
    simp only [hl] at h
    split at h
    · next h0 =>
      obtain ⟨c, -, he⟩ := ho.encodeChar (v := p.value)
        ⟨by simp [h0], fun n hn => absurd (h0.symm.trans hn) (by simp)⟩
      refine ⟨c, bs, ?_⟩
      rw [he, h0]
      rfl
    · next h0 =>
      obtain ⟨v, rest, hv, rfl⟩ := exists_tail_of_decodeFrom bs p (by omega) ho.continues h
      obtain ⟨c, -, he⟩ := ho.encodeChar hv
      exact ⟨c, rest, by rw [he]; rfl⟩

/-- An encoded text is read behind what was read before. -/
theorem decodeFrom_flatMap : ∀ (cs before : List Char) (index : Nat),
    decodeFrom index before none (cs.flatMap String.utf8EncodeChar) = .ok (before.reverse ++ cs)
  | [], before, index => by simp [decodeFrom]
  | c :: cs, before, index => by
    rw [List.flatMap_cons, decodeFrom_encodeChar, decodeFrom_flatMap cs, List.reverse_cons,
      List.append_assoc, List.singleton_append]

/-- What is read to its end is an encoded text. -/
theorem exists_flatMap_of_decodeFrom {index : Nat} {before cs : List Char} {bs : List UInt8}
    (h : decodeFrom index before none bs = .ok cs) :
    ∃ cs' : List Char, bs = cs'.flatMap String.utf8EncodeChar := by
  cases bs with
  | nil => exact ⟨[], rfl⟩
  | cons b bs =>
    obtain ⟨c, rest, he⟩ := exists_encodeChar_of_decodeFrom h
    have hlt : rest.length < (b :: bs).length := by
      rw [he, List.length_append, String.length_utf8EncodeChar]
      have := c.utf8Size_pos
      omega
    rw [he, decodeFrom_encodeChar] at h
    obtain ⟨cs', rfl⟩ := exists_flatMap_of_decodeFrom h
    exact ⟨c :: cs', he⟩
termination_by bs.length

/-- The text of an encoding is the text that was encoded. -/
theorem decode_encode (s : String) : decode (encode s) = .ok s := by
  rw [decode, encode, decodeFrom_flatMap]
  simp [Except.map]

/-- Bytes decode to a text exactly if they are its encoding. -/
theorem decode_eq_ok_iff {bytes : List UInt8} {s : String} :
    decode bytes = .ok s ↔ encode s = bytes := by
  refine ⟨fun h => ?_, fun h => h ▸ decode_encode s⟩
  obtain ⟨cs, hcs⟩ : ∃ cs, decodeFrom 0 [] none bytes = .ok cs := by
    cases hd : decodeFrom 0 [] none bytes with
    | ok cs => exact ⟨cs, rfl⟩
    | error e => simp [decode, hd, Except.map] at h
  obtain ⟨cs', rfl⟩ := exists_flatMap_of_decodeFrom hcs
  rw [decode, decodeFrom_flatMap, Except.map, Except.ok.injEq] at h
  rw [← h, encode, List.reverse_nil, List.nil_append, String.toList_ofList]

/-- Bytes that are the encoding of no text are refused, and no others. -/
theorem exists_decode_eq_error_iff {bytes : List UInt8} :
    (∃ fault, decode bytes = .error fault) ↔ ∀ s, encode s ≠ bytes := by
  cases h : decode bytes with
  | ok s =>
    refine ⟨nofun, fun hn => absurd (decode_eq_ok_iff.mp h) (hn s)⟩
  | error fault =>
    refine ⟨fun _ s hs => ?_, fun _ => ⟨fault, rfl⟩⟩
    rw [decode_eq_ok_iff.mpr hs] at h
    cases h

end ProtoScribe.Utf8
