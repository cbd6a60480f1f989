import Mathlib
import ProtoScribe.Json.Number
import ProtoScribe.Json.StringLiteral
import ProtoScribe.Proofs.Json.Grammar

/-!
# Literals are read as they are spelled

The scanner of a number takes what the grammar says a number is, and finds the integer that it
means exactly if it is spelled as one and fits 64 bits. The scanner of a string finds the characters
that the grammar says its text spells.
-/

namespace ProtoScribe.Json

/-! ## Numbers -/

/-- What follows a number does not go on with it. -/
def Ends (rest : List Char) : Prop :=
  ∀ c cs, rest = c :: cs → c.isDigit = false ∧ c ∉ ['.', 'e', 'E']

theorem ends_nil : Ends [] := by
  intro c cs h
  cases h

theorem ends_cons {c : Char} {cs : List Char} (hd : c.isDigit = false) (hc : c ∉ ['.', 'e', 'E']) :
    Ends (c :: cs) := by
  intro c' cs' h
  cases h
  exact ⟨hd, hc⟩

/-- Blanks do not go on with a number. -/
theorem Ends.blank {bs rest : List Char} (hb : Blank bs) (h : Ends rest) : Ends (bs ++ rest) := by
  cases bs with
  | nil => exact h
  | cons c bs =>
    have hc := hb c List.mem_cons_self
    simp only [List.mem_cons, List.not_mem_nil, or_false] at hc
    rcases hc with rfl | rfl | rfl | rfl <;> exact ends_cons (by decide) (by decide)

/-- After a value come blanks and then one of three marks. -/
theorem ends_mark {bs : List Char} (hb : Blank bs) {c : Char} (hc : c ∈ [',', ']', '}'])
    (cs : List Char) : Ends (bs ++ c :: cs) := by
  refine Ends.blank hb ?_
  simp only [List.mem_cons, List.not_mem_nil, or_false] at hc
  rcases hc with rfl | rfl | rfl <;> exact ends_cons (by decide) (by decide)

namespace Number

/-! ### Digits -/

theorem le_ofDigitChars (cs : List Char) : ∀ n : Nat, n ≤ Nat.ofDigitChars 10 cs n := by
  induction cs with
  | nil => exact fun n => Nat.le_of_eq Nat.ofDigitChars_nil.symm
  | cons c cs ih =>
    intro n
    rw [Nat.ofDigitChars_cons]
    exact Nat.le_trans (by omega) (ih _)

/-- Digits whose number fits 64 bits are all gathered. -/
theorem gather_of_lt {cs : List Char} : ∀ {n count : Nat},
    Nat.ofDigitChars 10 cs n < UInt64.size →
    gather n count cs = (Nat.ofDigitChars 10 cs n, count + cs.length) := by
  induction cs with
  | nil => exact fun _ => rfl
  | cons c cs ih =>
    intro n count h
    rw [Nat.ofDigitChars_cons, Nat.mul_comm] at h ⊢
    have hnext : n * 10 + digit c < UInt64.size := Nat.lt_of_le_of_lt (le_ofDigitChars cs _) h
    rw [gather, if_pos hnext, List.length_cons, Nat.add_comm cs.length, ← Nat.add_assoc]
    exact ih h

/-- Of other digits some are left. -/
theorem gather_of_le {cs : List Char} : ∀ {n count : Nat}, n < UInt64.size →
    UInt64.size ≤ Nat.ofDigitChars 10 cs n → (gather n count cs).2 < count + cs.length := by
  induction cs with
  | nil =>
    intro n count hn h
    rw [Nat.ofDigitChars_nil] at h
    omega
  | cons c cs ih =>
    intro n count hn h
    rw [Nat.ofDigitChars_cons, Nat.mul_comm] at h
    rw [gather, List.length_cons]
    split
    · next hnext =>
      have hrest : (gather _ (count + 1) cs).2 < count + 1 + cs.length := ih hnext h
      omega
    · dsimp only
      omega

/-! ### Values -/

/-- What a number with a fraction or an exponent means is no integer, nor is any other double. -/
theorem value_ne_integer {s : Spelled} (stop : Nat) (i : Int)
    (h : ¬(s.isWhole = true ∧ s.whole.length - (gather 0 0 s.whole).2 = 0 ∧
      (s.negative = true → 0 < (gather 0 0 s.whole).1 ∧ 2 * (gather 0 0 s.whole).1 ≤ UInt64.size))) :
    s.value stop ≠ .ok (.integer i) := by
  rw [Spelled.value]
  dsimp only
  rw [if_neg (by rintro ⟨hw, hd, hn⟩; exact h ⟨hw, hd, fun hs => absurd hs hn⟩),
    if_neg (by rintro ⟨hw, hd, hn⟩; exact h ⟨hw, hd, fun _ => hn⟩)]
  intro he
  repeat' split at he
  all_goals cases he

/-- A number means an integer if it is spelled as one that fits 64 bits; zero without a sign. -/
theorem value_eq_integer_iff {s : Spelled} {stop : Nat} {i : Int} :
    s.value stop = .ok (.integer i) ↔
      s.isWhole = true ∧ -2 ^ 63 ≤ i ∧ i < 2 ^ 64 ∧
        (s.negative = true → Nat.ofDigitChars 10 s.whole 0 ≠ 0) ∧
        i = if s.negative then -(Nat.ofDigitChars 10 s.whole 0 : Int)
          else Nat.ofDigitChars 10 s.whole 0 := by
  by_cases hfit : Nat.ofDigitChars 10 s.whole 0 < UInt64.size
  · have hg : gather 0 0 s.whole = (Nat.ofDigitChars 10 s.whole 0, s.whole.length) := by
      rw [gather_of_lt hfit, Nat.zero_add]
    by_cases hreal : s.isWhole = true ∧ s.whole.length - (gather 0 0 s.whole).2 = 0 ∧
        (s.negative = true →
          0 < (gather 0 0 s.whole).1 ∧ 2 * (gather 0 0 s.whole).1 ≤ UInt64.size)
    · obtain ⟨hw, hd, hn⟩ := hreal
      rw [Spelled.value]
      simp only [hg] at hd hn ⊢
      simp only [UInt64.size] at hfit hn ⊢
      cases hs : s.negative with
      | false =>
        rw [if_pos ⟨hw, hd, by simp⟩]
        simp only [Except.ok.injEq, Number.integer.injEq]
        constructor
        · rintro rfl
          exact ⟨hw, by omega, by omega, by simp, by simp⟩
        · rintro ⟨-, -, -, -, hi⟩
          simpa using hi.symm
      | true =>
        obtain ⟨hpos, hle⟩ := hn hs
        rw [if_neg (by simp), if_pos ⟨hw, hd, hpos, hle⟩]
        simp only [Except.ok.injEq, Number.integer.injEq]
        constructor
        · rintro rfl
          exact ⟨hw, by omega, by omega, fun _ => by omega, by simp⟩
        · rintro ⟨-, -, -, -, hi⟩
          simpa using hi.symm
    · refine iff_of_false (value_ne_integer stop i hreal) ?_
      rintro ⟨hw, hlo, hhi, hne, hi⟩
      refine hreal ⟨hw, by rw [hg, Nat.sub_self], fun hs => ?_⟩
      simp only [hs, if_true] at hi hne
      simp only [hg, UInt64.size]
      have := hne trivial
      omega
  · -- The digits do not fit, so some are left and the number is a double.
    have hle : (gather 0 0 s.whole).2 < 0 + s.whole.length :=
      gather_of_le (by decide) (Nat.not_lt.mp hfit)
    refine iff_of_false (value_ne_integer stop i fun h => ?_) ?_
    · have := h.2.1
      omega
    · rintro ⟨-, hlo, hhi, -, hi⟩
      simp only [UInt64.size] at hfit
      split at hi <;> omega

/-! ### Scanning -/

/-- The digits and the sign that a scan has found are those of a numeral. -/
structure Spelled.Of (s : Spelled) (n : Numeral) : Prop where
  negative : s.negative = n.negative
  whole : s.whole = n.whole
  isWhole : s.isWhole = true ↔ n.fraction = [] ∧ n.exponent = []

theorem spanDigits_append {ds rest : List Char} (hd : ∀ c ∈ ds, c.isDigit = true)
    (hr : ∀ c cs, rest = c :: cs → c.isDigit = false) : spanDigits (ds ++ rest) = (ds, rest) := by
  have hrest : rest.takeWhile Char.isDigit = [] ∧ rest.dropWhile Char.isDigit = rest := by
    cases rest with
    | nil => exact ⟨rfl, rfl⟩
    | cons c cs =>
      have hc := hr c cs rfl
      exact ⟨List.takeWhile_cons_of_neg (by simp [hc]), List.dropWhile_cons_of_neg (by simp [hc])⟩
  rw [spanDigits, List.takeWhile_append_of_pos hd, List.dropWhile_append_of_pos hd, hrest.1,
    hrest.2, List.append_nil]

theorem Ends.not_digit {rest : List Char} (h : Ends rest) :
    ∀ c cs, rest = c :: cs → c.isDigit = false := fun c cs he => (h c cs he).1

theorem not_digit_exponent {cs rest : List Char} (hx : IsExponent cs) (hr : Ends rest) :
    ∀ c cs', cs ++ rest = c :: cs' → c.isDigit = false ∧ c ≠ '.' := by
  intro c cs' he
  cases hx with
  | none =>
    obtain ⟨hd, hc⟩ := hr c cs' he
    exact ⟨hd, fun h => hc (by simp [h])⟩
  | @letter e sign ds hl hs hds =>
    simp only [List.cons_append, List.cons.injEq] at he
    obtain ⟨rfl, -⟩ := he
    simp only [List.mem_cons, List.not_mem_nil, or_false] at hl
    rcases hl with rfl | rfl <;> decide

theorem not_digit_fraction {cs rest : List Char} (hf : IsFraction cs)
    (hr : ∀ c cs', rest = c :: cs' → c.isDigit = false) :
    ∀ c cs', cs ++ rest = c :: cs' → c.isDigit = false := by
  intro c cs' he
  cases hf with
  | none => exact hr c cs' he
  | point =>
    rw [List.cons_append, List.cons.injEq] at he
    rw [← he.1]
    rfl

variable (length offset : Nat)

/-- An exponent is taken whole, and a number without one ends where it is. -/
theorem scanExponent_append (s : Spelled) {cs rest : List Char} (hx : IsExponent cs)
    (hr : Ends rest) : ∃ (s' : Spelled) (stop : Nat),
      scanExponent length offset s (cs ++ rest) = (⟨s'.value stop, none, stop⟩, rest) ∧
      s'.negative = s.negative ∧ s'.whole = s.whole ∧ s'.fraction = s.fraction ∧
      (cs = [] → s' = s) ∧ (cs ≠ [] → s'.exponent.isSome = true) := by
  cases hx with
  | none =>
    refine ⟨s, offset, ?_, rfl, rfl, rfl, fun _ => rfl, fun h => absurd rfl h⟩
    cases rest with
    | nil => rfl
    | cons c rest =>
      have hc := (hr c rest rfl).2
      rw [List.nil_append, scanExponent]
      rw [if_neg (by rintro (rfl | rfl) <;> exact hc (by decide))]
  | @letter e sign ds he hs hds =>
    have hsign : exponentSign (sign ++ (ds ++ rest))
        = (decide (sign = ['-']), sign.length) := by
      simp only [List.mem_cons, List.not_mem_nil, or_false] at hs
      rcases hs with rfl | rfl | rfl
      · obtain ⟨d, ds', rfl⟩ := List.exists_cons_of_ne_nil hds.1
        have hd := hds.2 d List.mem_cons_self
        rw [List.nil_append, List.cons_append, exponentSign]
        · rfl
        · rintro tail ⟨⟩
          exact absurd hd (by decide)
        · rintro tail ⟨⟩
          exact absurd hd (by decide)
      · rfl
      · rfl
    have hspan := spanDigits_append hds.2 (Ends.not_digit hr)
    have hcond : e = 'e' ∨ e = 'E' := by simpa using he
    have hne : ds.isEmpty = false := by simpa using hds.1
    refine ⟨{ s with exponent := some (decide (sign = ['-']), ds),
                     exponentAt := offset + 1 + sign.length },
      offset + 1 + sign.length + ds.length, ?_, rfl, rfl, rfl, by simp, fun _ => rfl⟩
    rw [List.cons_append, List.cons_append, List.append_assoc, scanExponent, if_pos hcond]
    simp only [hsign, List.drop_left, hspan, hne]
    rfl

/-- A fraction is taken whole, and an exponent after it. -/
theorem scanFraction_append (s : Spelled) {cs xs rest : List Char} (hf : IsFraction cs)
    (hx : IsExponent xs) (hr : Ends rest) (hs : s.fraction = []) (he : s.exponent = none) :
    ∃ (s' : Spelled) (stop : Nat),
      scanFraction length offset s (cs ++ (xs ++ rest)) = (⟨s'.value stop, none, stop⟩, rest) ∧
      s'.negative = s.negative ∧ s'.whole = s.whole ∧
      (s'.isWhole = true ↔ cs = [] ∧ xs = []) := by
  have hdot := not_digit_exponent hx hr
  have whole {t t' : Spelled} (hfrac : t'.fraction = t.fraction) (hnone : t.exponent = none)
      (h₁ : xs = [] → t' = t) (h₂ : xs ≠ [] → t'.exponent.isSome = true) :
      t'.isWhole = true ↔ t.fraction = [] ∧ xs = [] := by
    rw [Spelled.isWhole, Bool.and_eq_true, List.isEmpty_iff, hfrac]
    by_cases hxs : xs = []
    · simp [hxs, h₁ hxs, hnone]
    · have := h₂ hxs
      simp only [hxs, and_false, iff_false, not_and]
      intro _ hn
      rw [Option.isNone_iff_eq_none] at hn
      simp [hn] at this
  cases hf with
  | none =>
    obtain ⟨s', stop, hscan, hneg, hwhole, hfrac, h₁, h₂⟩ :=
      scanExponent_append length offset s hx hr
    refine ⟨s', stop, ?_, hneg, hwhole, ?_⟩
    · rw [List.nil_append, scanFraction, hscan]
      intro cs' h
      exact (hdot _ _ h).2 rfl
    · rw [whole hfrac he h₁ h₂, hs]
  | @point ds hds =>
    obtain ⟨s', stop, hscan, hneg, hwhole, hfrac, h₁, h₂⟩ :=
      scanExponent_append length (offset + 1 + ds.length) { s with fraction := ds } hx hr
    refine ⟨s', stop, ?_, hneg, hwhole, ?_⟩
    · have hne : ds.isEmpty = false := by simpa using hds.1
      rw [List.cons_append, scanFraction, spanDigits_append hds.2 fun c cs h => (hdot c cs h).1]
      simp only [hne, Bool.false_eq_true, if_false]
      exact hscan
    · rw [whole hfrac he h₁ h₂]
      simp [hds.1]

/-- A numeral is scanned as it is spelled, up to what follows it. -/
theorem scanWhole_numeral (n : Numeral) {rest : List Char} (hr : Ends rest) :
    ∃ (s : Spelled) (stop : Nat),
      scanWhole length offset n.negative n.whole (n.fraction ++ (n.exponent ++ rest))
        = (⟨s.value stop, none, stop⟩, rest) ∧ s.Of n := by
  obtain ⟨s, stop, hscan, hneg, hwhole, hint⟩ :=
    scanFraction_append length (offset + n.whole.length) { negative := n.negative, whole := n.whole }
      n.isFraction n.isExponent hr rfl rfl
  refine ⟨s, stop, ?_, hneg, hwhole, hint⟩
  rw [scanWhole, hscan]
  · exact n.isWhole.digits.1
  · intro d ds h
    exact absurd (n.isWhole.leadingZero _ h) (by simp)

end Number

/-- A literal that is read as a numeral: it can be passed over, and what it means is an integer
exactly if the numeral spells one that fits 64 bits. -/
structure Literal.OfNumeral (literal : Literal Number) (n : Numeral) : Prop where
  loose : literal.loose = none
  strict : ∀ i, literal.strict = .ok (.integer i) ↔ n.integer? = some i ∧ -2 ^ 63 ≤ i ∧ i < 2 ^ 64

/-- Digits that spell zero are one. -/
theorem IsWhole.ofDigitChars_eq_zero_iff {cs : List Char} (h : IsWhole cs) :
    Nat.ofDigitChars 10 cs 0 = 0 ↔ cs = ['0'] := by
  refine ⟨fun hz => ?_, fun he => by rw [he]; rfl⟩
  obtain ⟨c, ds, rfl⟩ := List.exists_cons_of_ne_nil h.digits.1
  have hd := h.digits.2 c List.mem_cons_self
  rw [Nat.ofDigitChars_cons] at hz
  have hle := Number.le_ofDigitChars ds (10 * 0 + (c.toNat - '0'.toNat))
  have hc : c = '0' := by
    simp only [Char.isDigit, Bool.and_eq_true, decide_eq_true_eq] at hd
    have h₁ : '0'.toNat ≤ c.toNat := UInt32.le_iff_toNat_le.mp hd.1
    refine Char.toNat_inj.mp ?_
    omega
  rw [hc, h.leadingZero ds (by rw [hc])]

theorem Numeral.integer?_eq_some_iff {n : Numeral} {i : Int} :
    n.integer? = some i ↔ (n.fraction = [] ∧ n.exponent = []) ∧
      (n.negative = true → n.magnitude ≠ 0) ∧
      i = if n.negative then -(n.magnitude : Int) else n.magnitude := by
  rw [integer?, magnitude, ne_eq, n.isWhole.ofDigitChars_eq_zero_iff]
  split
  · next h =>
    obtain ⟨hf, hx, hz⟩ := h
    simp only [hf, hx, Option.some.injEq, true_and, and_self]
    constructor
    · rintro rfl
      exact ⟨fun hs hw => hz ⟨hs, hw⟩, rfl⟩
    · rintro ⟨-, rfl⟩
      rfl
  · next h =>
    simp only [reduceCtorEq, false_iff]
    rintro ⟨⟨hf, hx⟩, hz, -⟩
    exact h ⟨hf, hx, fun ⟨hs, hw⟩ => hz hs hw⟩

/-- What a scan has found of a numeral is what the numeral means. -/
theorem Number.Spelled.Of.literal {s : Number.Spelled} {n : Numeral} (h : s.Of n) (stop : Nat) :
    Literal.OfNumeral ⟨s.value stop, none, stop⟩ n where
  loose := rfl
  strict i := by
    rw [Number.value_eq_integer_iff, Numeral.integer?_eq_some_iff, h.isWhole, h.negative, h.whole,
      Numeral.magnitude]
    constructor
    · rintro ⟨hw, hlo, hhi, hz, hi⟩
      exact ⟨⟨hw, hz, hi⟩, hlo, hhi⟩
    · rintro ⟨⟨hw, hz, hi⟩, hlo, hhi⟩
      exact ⟨hw, hlo, hhi, hz, hi⟩

/-! ## Strings -/

namespace StringLiteral

/-! ### Escapes -/

theorem toNat_toLower_lt {c : Char} (h : c.toLower.toNat < 128) : c.toNat < 128 := by
  rw [Char.toLower] at h
  split at h
  · next hc =>
    have hle : c.toNat ≤ 'Z'.toNat := UInt32.le_iff_toNat_le.mp hc.2
    have : 'Z'.toNat = 90 := rfl
    omega
  · exact h

/-- A hexadecimal digit has the same value for the scanner as in the grammar. -/
theorem hexDigit?_of_isHexDigit {c : Char} {value : Nat} (h : IsHexDigit c value) :
    hexDigit? c = some value := by
  have hsmall : c.toNat < 128 := by
    refine toNat_toLower_lt ?_
    have hmem := List.mem_of_getElem? h
    have hall : hexDigits.all (·.toNat < 128) = true := by decide
    simpa using List.all_eq_true.mp hall _ hmem
  have hvalue : value < 16 := by
    by_contra hv
    rw [IsHexDigit, List.getElem?_eq_none (Nat.not_lt.mp hv)] at h
    cases h
  have hall : ∀ n < 128, ∀ i < 16, hexDigits[i]? = some (Char.ofNat n).toLower →
      hexDigit? (Char.ofNat n) = some i := by
    decide +kernel
  have := hall c.toNat hsmall value hvalue
  rw [Char.ofNat_toNat] at this
  exact this h

theorem unit?_append {ds : List Char} {unit : Nat} (h : SpellsUnit ds unit) (cs : List Char) :
    unit? (ds ++ cs) = some unit ∧ (ds ++ cs).drop 4 = cs := by
  obtain ⟨ha, hb, hc, hd⟩ := h
  refine ⟨?_, rfl⟩
  simp only [unit?, List.cons_append, List.nil_append, List.take_succ_cons, List.take_zero, hex?,
    hexDigit?_of_isHexDigit ha, hexDigit?_of_isHexDigit hb, hexDigit?_of_isHexDigit hc,
    hexDigit?_of_isHexDigit hd]
  simp only [bind, Option.bind, pure, Option.some.injEq]
  omega

/-- No character is a surrogate. -/
theorem not_surrogate (c : Char) : isLow c.toNat = false ∧ isHigh c.toNat = false := by
  have hvalid : c.toNat < 0xD800 ∨ 0xDFFF < c.toNat ∧ c.toNat < 0x110000 := c.valid
  simp only [isLow, isHigh, decide_eq_false_iff_not]
  omega

theorem escaped?_of_mem {l c : Char} (h : (l, c) ∈ shortEscapes) :
    escaped? l = some c ∧ l ≠ 'u' := by
  have hall : ∀ e ∈ shortEscapes, escaped? e.1 = some e.2 ∧ e.1 ≠ 'u' := by decide
  exact hall (l, c) h

/-! ### Scanning -/

section

variable (length offset : Nat) (before : List Char)

theorem scanFrom_quote (rest : List Char) :
    scanFrom length offset ⟨before, none⟩ ('"' :: rest)
      = (⟨.ok (String.ofList before.reverse), none, offset + 1⟩, rest) := by
  rw [scanFrom]
  rfl

theorem scanFrom_plain {c : Char} (hq : c ≠ '"') (hb : c ≠ '\\') (hc : 0x20 ≤ c.toNat)
    (rest : List Char) :
    scanFrom length offset ⟨before, none⟩ (c :: rest)
      = scanFrom length (offset + c.utf8Size) ⟨c :: before, none⟩ rest := by
  rw [scanFrom, if_neg (Nat.not_lt.mpr hc)]
  · rfl
  · exact hq
  · rintro rest rfl
    exact absurd rfl hb
  · rintro rfl
    exact absurd rfl hb
  · rintro d rest rfl
    exact absurd rfl hb

theorem scanFrom_short {l c : Char} (h : (l, c) ∈ shortEscapes) (rest : List Char) :
    scanFrom length offset ⟨before, none⟩ ('\\' :: l :: rest)
      = scanFrom length (offset + 2) ⟨c :: before, none⟩ rest := by
  obtain ⟨he, hu⟩ := escaped?_of_mem h
  rw [scanFrom, he]
  · rfl
  · rintro rfl
    exact absurd rfl hu

theorem scanFrom_unit {ds : List Char} {c : Char} (h : SpellsUnit ds c.toNat) (rest : List Char) :
    scanFrom length offset ⟨before, none⟩ ('\\' :: 'u' :: (ds ++ rest))
      = scanFrom length (offset + 6) ⟨c :: before, none⟩ rest := by
  obtain ⟨hunit, hdrop⟩ := unit?_append h rest
  obtain ⟨hlow, hhigh⟩ := not_surrogate c
  rw [scanFrom, hunit]
  simp only [hlow, hhigh, hdrop, Bool.false_eq_true, if_false, Partial.push, Char.ofNat_toNat]

theorem scanFrom_pair {hs ls : List Char} {high low : Nat} {c : Char} (hh : SpellsUnit hs high)
    (hl : SpellsUnit ls low) (h₁ : 0xD800 ≤ high) (h₂ : high < 0xDC00) (h₃ : 0xDC00 ≤ low)
    (h₄ : low < 0xE000) (hc : c.toNat = 0x10000 + (high - 0xD800) * 0x400 + (low - 0xDC00))
    (rest : List Char) :
    scanFrom length offset ⟨before, none⟩ ('\\' :: 'u' :: (hs ++ '\\' :: 'u' :: (ls ++ rest)))
      = scanFrom length (offset + 12) ⟨c :: before, none⟩ rest := by
  obtain ⟨hunit, hdrop⟩ := unit?_append hh ('\\' :: 'u' :: (ls ++ rest))
  obtain ⟨hunit', hdrop'⟩ := unit?_append hl rest
  have hdrop₁₀ : (hs ++ '\\' :: 'u' :: (ls ++ rest)).drop 10 = rest := by
    rw [show 10 = 4 + 6 from rfl, ← List.drop_drop, hdrop]
    exact hdrop'
  have hlow : isLow high = false := by simp only [isLow, decide_eq_false_iff_not]; omega
  have hhigh : isHigh high = true := by simp only [isHigh, decide_eq_true_eq]; omega
  have hlow' : isLow low = true := by simp only [isLow, decide_eq_true_eq]; omega
  have hpair : pair high low = c := by
    rw [pair, ← hc]
    exact Char.ofNat_toNat c
  have hafter : afterHigh (offset + 6) ('\\' :: 'u' :: (ls ++ rest)) = .low low := by
    rw [afterHigh, hunit']
    simp only [hlow', if_true]
  rw [scanFrom, hunit]
  simp only [hlow, hhigh, hdrop, hdrop₁₀, hafter, hpair, Bool.false_eq_true, if_false, if_true,
    Partial.push]

end

/-- What stands between quotes is read as the characters that it spells. -/
theorem scanFrom_append {cs s : List Char} (h : SpellsChars cs s) :
    ∀ (length offset : Nat) (before rest : List Char), ∃ stop,
      scanFrom length offset ⟨before, none⟩ (cs ++ '"' :: rest)
        = (⟨.ok (String.ofList (before.reverse ++ s)), none, stop⟩, rest) := by
  -- Each rule puts one character in front of the characters of what follows.
  have push (before s : List Char) (c : Char) :
      (c :: before).reverse ++ s = before.reverse ++ c :: s := by simp
  induction h with
  | nil =>
    intro length offset before rest
    exact ⟨offset + 1, by rw [List.append_nil]; exact scanFrom_quote ..⟩
  | plain hq hb hc _ ih =>
    intro length offset before rest
    rw [List.cons_append, scanFrom_plain _ _ _ hq hb hc, ← push]
    exact ih ..
  | short hm _ ih =>
    intro length offset before rest
    rw [List.cons_append, List.cons_append, scanFrom_short _ _ _ hm, ← push]
    exact ih ..
  | unit hu _ ih =>
    intro length offset before rest
    rw [List.cons_append, List.cons_append, List.append_assoc, scanFrom_unit _ _ _ hu, ← push]
    exact ih ..
  | @pair hs ls _ _ _ cs _ hh hl h₁ h₂ h₃ h₄ hc _ ih =>
    intro length offset before rest
    rw [List.cons_append, List.cons_append, List.append_assoc, List.cons_append, List.cons_append,
      List.append_assoc, scanFrom_pair _ _ _ hh hl h₁ h₂ h₃ h₄ hc, ← push]
    exact ih ..

/-- A string is read as what it spells, once its opening quote is passed. -/
theorem scan_append {body : List Char} {s : String} (h : SpellsChars body s.toList)
    (length offset : Nat) (rest : List Char) :
    ∃ stop, scan length offset (body ++ '"' :: rest) = (⟨.ok s, none, stop⟩, rest) := by
  obtain ⟨stop, hscan⟩ := scanFrom_append h length offset [] rest
  refine ⟨stop, hscan.trans ?_⟩
  rw [List.reverse_nil, List.nil_append, String.ofList_toList]

end StringLiteral

end ProtoScribe.Json
