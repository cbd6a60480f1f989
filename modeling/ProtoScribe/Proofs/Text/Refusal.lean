import ProtoScribe.Proofs.Text.Utf8

/-!
# Where decoding stops

Bytes that are refused are a text and something behind it that no character's encoding begins. The
fault names the place where that starts, so it is the length of the longest start that is a text
(`isGreatest_index_of_decode`); and it says that the bytes ended too early just if some character's
encoding begins with all that is left (`incomplete_iff_of_decode`).

The induction is on the characters that are read. Within the last one it is on its bytes: they are
taken as long as a code point begins with them, which `Pending.begins_cons_iff` says byte by byte.
-/

namespace ProtoScribe.Utf8

/-- The place of the first byte that belongs to no character. -/
def Fault.index : Fault → Nat
  | .invalid index _ => index
  | .incomplete index => index

/-! ## Within a character -/

/-- As long as bytes may follow, there is a code point that they belong to. -/
theorem Pending.exists_begins {p : Pending} {n : Nat} (hn : p.owed = n + 1) (hp : p.Continues)
    (hr : p.low.toNat ≤ p.high.toNat) : ∃ v, p.Begins v := by
  have hlow := hp.low
  have hhigh := hp.high
  have hpos : 0 < 64 ^ n := Nat.pow_pos (by decide)
  have hdiv : (p.value * 64 + (p.low.toNat - 0x80)) * 64 ^ n / 64 ^ n
      = p.value * 64 + (p.low.toNat - 0x80) := Nat.mul_div_cancel _ hpos
  refine ⟨(p.value * 64 + (p.low.toNat - 0x80)) * 64 ^ n, ?_, fun m hm => ?_⟩
  · rw [hn, pow_succ, ← Nat.div_div_eq_div_mul, hdiv]
    omega
  · obtain rfl : n = m := by omega
    rw [hdiv]
    omega

theorem Opens.low_le_high {b : UInt8} {p : Pending} (h : Opens b p) :
    p.low.toNat ≤ p.high.toNat := by
  cases h with
  | one => exact (by decide : (0x80 : UInt8).toNat ≤ (0xBF : UInt8).toNat)
  | two => exact (by decide : (0x80 : UInt8).toNat ≤ (0xBF : UInt8).toNat)
  | @three x h =>
    have all : ∀ x < 16, (if x = 0 then (0xA0 : UInt8) else 0x80).toNat
        ≤ (if x = 13 then (0x9F : UInt8) else 0xBF).toNat := by decide
    exact all x h
  | @four x h =>
    have all : ∀ x < 5, (if x = 0 then (0x90 : UInt8) else 0x80).toNat
        ≤ (if x = 4 then (0x8F : UInt8) else 0xBF).toNat := by decide
    exact all x h

/-- A sequence that does not come to its end is refused at its first byte. It has been cut off just
if the bytes of some code point begin that way. -/
theorem exists_fault_of_pending (index : Nat) (before : List Char) :
    ∀ (bs : List UInt8) (p : Pending), 0 < p.owed → p.Continues →
      p.low.toNat ≤ p.high.toNat → (∀ v, p.Begins v → ¬tail p.owed v <+: bs) →
      ∃ fault, decodeFrom index before (some p) bs = .error fault ∧ fault.index = index ∧
        (fault = .incomplete fault.index ↔ ∃ v, p.Begins v ∧ bs <+: tail p.owed v)
  | [], p, ho, hp, hr, _ => by
    obtain ⟨n, hn⟩ : ∃ n, p.owed = n + 1 := ⟨p.owed - 1, by omega⟩
    obtain ⟨v, hv⟩ := Pending.exists_begins hn hp hr
    exact ⟨.incomplete index, rfl, rfl, fun _ => ⟨v, hv, List.nil_prefix⟩, fun _ => rfl⟩
  | b :: bs, p, ho, hp, hr, hnone => by
    obtain ⟨n, hn⟩ : ∃ n, p.owed = n + 1 := ⟨p.owed - 1, by omega⟩
    rw [hn] at hnone ⊢
    simp only [tail, List.cons_prefix_cons] at hnone ⊢
    rw [decodeFrom]
    by_cases hb : p.low ≤ b ∧ b ≤ p.high
    · have hnext := fun v => Pending.begins_cons_iff (v := v) hn hp hb (p.seen + 1)
      rw [if_pos hb, hn]
      by_cases hlast : n = 0
      · -- The last byte is there, so the sequence does come to its end.
        subst hlast
        have hv := (hnext (p.value * 64 + (b.toNat - 0x80))).mp (Pending.begins_of_value (by simp))
        exact absurd ⟨hv.2, List.nil_prefix⟩ (hnone _ hv.1)
      · dsimp only
        rw [if_neg (by omega), Nat.add_sub_cancel]
        obtain ⟨fault, hfault, hindex, hcut⟩ := exists_fault_of_pending index before bs
          { seen := p.seen + 1, owed := n, value := p.value * 64 + (b.toNat - 0x80) }
          (Nat.pos_of_ne_zero hlast) Pending.continues
          (by decide : (0x80 : UInt8).toNat ≤ (0xBF : UInt8).toNat)
          fun v hv hfront => hnone v ((hnext v).mp hv).1 ⟨((hnext v).mp hv).2, hfront⟩
        refine ⟨fault, hfault, hindex, hcut.trans ?_⟩
        constructor
        · rintro ⟨v, hv, hfront⟩
          exact ⟨v, ((hnext v).mp hv).1, ((hnext v).mp hv).2.symm, hfront⟩
        · rintro ⟨v, hv, hbyte, hfront⟩
          exact ⟨v, (hnext v).mpr ⟨hv, hbyte.symm⟩, hfront⟩
    · rw [if_neg hb]
      refine ⟨.invalid index p.seen, rfl, rfl, by rintro ⟨⟩, ?_⟩
      rintro ⟨v, hv, rfl, -⟩
      have hrange := hv.range n hn
      rw [← toNat_tail, ← UInt8.le_iff_toNat_le, ← UInt8.le_iff_toNat_le] at hrange
      exact absurd hrange hb

/-! ## Between characters -/

/-- Bytes that no character's encoding begins are refused where they start. -/
theorem exists_fault_of_stuck {bs : List UInt8} (hne : bs ≠ [])
    (hstuck : ∀ c, ¬String.utf8EncodeChar c <+: bs) (index : Nat) (before : List Char) :
    ∃ fault, decodeFrom index before none bs = .error fault ∧ fault.index = index ∧
      (fault = .incomplete fault.index ↔ ∃ c, bs <+: String.utf8EncodeChar c) := by
  obtain ⟨b, bs, rfl⟩ := List.exists_cons_of_ne_nil hne
  rw [decodeFrom]
  cases hl : lead b with
  | none =>
    refine ⟨.invalid index 1, rfl, rfl, by rintro ⟨⟩, ?_⟩
    rintro ⟨c, hc⟩
    obtain ⟨b', p, ho, -, he⟩ := exists_opens c
    rw [he, List.cons_prefix_cons] at hc
    rw [hc.1, ho.lead_eq] at hl
    cases hl
  | some p =>
    have ho := opens_of_lead hl
    dsimp only
    by_cases h0 : p.owed = 0
    · -- A sequence of one byte is a character.
      obtain ⟨c, -, he⟩ := ho.encodeChar (v := p.value)
        ⟨by simp [h0], fun n hn => absurd (h0.symm.trans hn) (by simp)⟩
      refine absurd ?_ (hstuck c)
      rw [he, h0, tail]
      exact List.cons_prefix_cons.mpr ⟨rfl, List.nil_prefix⟩
    · rw [if_neg h0]
      have hnone (v : Nat) (hv : p.Begins v) : ¬tail p.owed v <+: bs := by
        intro hfront
        obtain ⟨c, -, he⟩ := ho.encodeChar hv
        exact hstuck c (he ▸ List.cons_prefix_cons.mpr ⟨rfl, hfront⟩)
      obtain ⟨fault, hfault, hindex, hcut⟩ := exists_fault_of_pending index before bs p
        (Nat.pos_of_ne_zero h0) ho.continues ho.low_le_high hnone
      refine ⟨fault, hfault, hindex, hcut.trans ?_⟩
      constructor
      · rintro ⟨v, hv, hfront⟩
        obtain ⟨c, -, he⟩ := ho.encodeChar hv
        exact ⟨c, he ▸ List.cons_prefix_cons.mpr ⟨rfl, hfront⟩⟩
      · rintro ⟨c, hc⟩
        obtain ⟨b', p', ho', hv, he⟩ := exists_opens c
        rw [he, List.cons_prefix_cons] at hc
        obtain ⟨rfl, hfront⟩ := hc
        have hp : p' = p := Option.some.inj (ho'.lead_eq.symm.trans ho.lead_eq)
        exact ⟨c.toNat, hp ▸ hv, hp ▸ hfront⟩

/-- Any number of encoded characters is read, and reading goes on behind them. -/
theorem decodeFrom_flatMap_append : ∀ (cs before : List Char) (index : Nat) (bs : List UInt8),
    decodeFrom index before none (cs.flatMap String.utf8EncodeChar ++ bs)
      = decodeFrom (index + (cs.flatMap String.utf8EncodeChar).length) (cs.reverse ++ before) none bs
  | [], before, index, bs => rfl
  | c :: cs, before, index, bs => by
    rw [List.flatMap_cons, List.append_assoc, decodeFrom_encodeChar, decodeFrom_flatMap_append cs,
      List.length_append, String.length_utf8EncodeChar, List.reverse_cons, List.append_assoc,
      List.singleton_append, Nat.add_assoc]

/-- Bytes are encoded characters up to where no character's encoding begins what is left. -/
theorem exists_stuck (bs : List UInt8) : ∃ (cs : List Char) (rest : List UInt8),
    bs = cs.flatMap String.utf8EncodeChar ++ rest ∧ ∀ c, ¬String.utf8EncodeChar c <+: rest := by
  by_cases hstuck : ∀ c, ¬String.utf8EncodeChar c <+: bs
  · exact ⟨[], bs, rfl, hstuck⟩
  · push Not at hstuck
    obtain ⟨c, later, hlater⟩ := hstuck
    have hshorter : later.length < bs.length := by
      have hpos := c.utf8Size_pos
      rw [← hlater, List.length_append, String.length_utf8EncodeChar]
      omega
    obtain ⟨cs, rest, hrest, hnone⟩ := exists_stuck later
    exact ⟨c :: cs, rest, by rw [List.flatMap_cons, List.append_assoc, ← hrest, hlater], hnone⟩
termination_by bs.length

/-- What stands behind a text in a text is a text. -/
theorem exists_flatMap_of_append {cs : List Char} {bs : List UInt8} (ds : List Char)
    (h : cs.flatMap String.utf8EncodeChar ++ bs = ds.flatMap String.utf8EncodeChar) :
    ∃ es : List Char, bs = es.flatMap String.utf8EncodeChar := by
  have hdecode := decodeFrom_flatMap ds [] 0
  rw [← h, decodeFrom_flatMap_append] at hdecode
  exact exists_flatMap_of_decodeFrom hdecode

/-! ## Texts -/

variable {bytes : List UInt8} {fault : Fault}

/-- Refused bytes are a text, and behind it, at the place that the fault names, bytes that no
character's encoding begins. -/
theorem exists_stuck_of_decode (h : decode bytes = .error fault) :
    ∃ (cs : List Char) (rest : List UInt8), bytes = cs.flatMap String.utf8EncodeChar ++ rest ∧
      rest ≠ [] ∧ (∀ c, ¬String.utf8EncodeChar c <+: rest) ∧
      fault.index = (cs.flatMap String.utf8EncodeChar).length ∧
      (fault = .incomplete fault.index ↔ ∃ c, rest <+: String.utf8EncodeChar c) := by
  obtain ⟨cs, rest, rfl, hstuck⟩ := exists_stuck bytes
  have hne : rest ≠ [] := by
    rintro rfl
    rw [decode, decodeFrom_flatMap_append, decodeFrom] at h
    cases h
  obtain ⟨fault', hfault, hindex, hcut⟩ := exists_fault_of_stuck hne hstuck
    (0 + (cs.flatMap String.utf8EncodeChar).length) (cs.reverse ++ [])
  rw [decode, decodeFrom_flatMap_append, hfault] at h
  cases h
  exact ⟨cs, rest, rfl, hne, hstuck, by rw [hindex, Nat.zero_add], hcut⟩

theorem encode_ofList (cs : List Char) :
    encode (String.ofList cs) = cs.flatMap String.utf8EncodeChar := by
  rw [encode, String.toList_ofList]

/-- The fault names the length of the longest start of the bytes that is a text. -/
theorem isGreatest_index_of_decode (h : decode bytes = .error fault) :
    IsGreatest {n | n ≤ bytes.length ∧ ∃ s, encode s = bytes.take n} fault.index := by
  obtain ⟨cs, rest, rfl, -, hstuck, hindex, -⟩ := exists_stuck_of_decode h
  rw [hindex]
  refine ⟨⟨by simp, String.ofList cs, by rw [encode_ofList, List.take_left]⟩, ?_⟩
  rintro n ⟨hn, s, hs⟩
  by_contra hlt
  -- A longer start would go on with a character.
  obtain ⟨m, rfl⟩ : ∃ m, n = (cs.flatMap String.utf8EncodeChar).length + m :=
    Nat.exists_eq_add_of_le (Nat.le_of_not_le hlt)
  rw [List.take_length_add_append] at hs
  obtain ⟨es, hes⟩ := exists_flatMap_of_append s.toList hs.symm
  have hm : m ≤ rest.length := by simpa using hn
  cases es with
  | nil =>
    have hlength := congrArg List.length hes
    rw [List.length_take, List.flatMap_nil, List.length_nil] at hlength
    omega
  | cons c es =>
    refine hstuck c (List.IsPrefix.trans ⟨es.flatMap String.utf8EncodeChar, ?_⟩
      (List.take_prefix m rest))
    rw [hes, List.flatMap_cons]

/-- It says that the bytes end too early just if more of them could make a text. -/
theorem incomplete_iff_of_decode (h : decode bytes = .error fault) :
    fault = .incomplete fault.index ↔ ∃ more s, encode s = bytes ++ more := by
  obtain ⟨cs, rest, rfl, hne, hstuck, -, hcut⟩ := exists_stuck_of_decode h
  rw [hcut]
  constructor
  · rintro ⟨c, more, hmore⟩
    refine ⟨more, String.ofList (cs ++ [c]), ?_⟩
    rw [encode_ofList, List.flatMap_append, List.flatMap_singleton, List.append_assoc, hmore]
  · rintro ⟨more, s, hs⟩
    rw [List.append_assoc] at hs
    obtain ⟨es, hes⟩ := exists_flatMap_of_append s.toList hs.symm
    cases es with
    | nil => exact absurd (List.append_eq_nil_iff.mp hes).1 hne
    | cons c es =>
      -- Of two starts of the same bytes, one is a start of the other.
      rw [List.flatMap_cons] at hes
      rcases List.append_eq_append_iff.mp hes with ⟨l, hl, -⟩ | ⟨l, hl, -⟩
      · exact ⟨c, l, hl.symm⟩
      · exact absurd ⟨l, hl.symm⟩ (hstuck c)

end ProtoScribe.Utf8
