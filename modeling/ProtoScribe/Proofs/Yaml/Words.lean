import ProtoScribe.Proofs.Yaml.Scalars
import ProtoScribe.Yaml.Read

/-!
# What the words of JSON mean in YAML

A plain scalar that spells an integer without leading zeros is that integer, whatever else plain
scalars may be (`narrowInteger?_toString`). Neither such a scalar nor a truth value is nothing.
-/

namespace ProtoScribe.Yaml

open ProtoScribe.Document (IntegerKind)

namespace Plain

theorem digits?_of_isDigit {cs : List Char} (hne : cs ≠ []) (h : ∀ c ∈ cs, c.isDigit = true) :
    digits? 10 cs = some (Nat.ofDigitChars 10 cs 0) := by
  have hfold : ∀ n : Nat, cs.foldlM (fun n c => do
      let d ← Json.StringLiteral.hexDigit? c
      if d < 10 then some (n * 10 + d) else none) n = some (Nat.ofDigitChars 10 cs n) := by
    clear hne
    induction cs with
    | nil => exact fun n => by rw [Nat.ofDigitChars_nil]; rfl
    | cons c cs ih =>
      intro n
      obtain ⟨hc, hcs⟩ := List.forall_mem_cons.mp h
      have hdigit : c.toNat - '0'.toNat < 10 := by
        have hnine : c.toNat ≤ '9'.toNat :=
          UInt32.le_iff_toNat_le.mp (of_decide_eq_true (Bool.and_eq_true_iff.mp hc).2)
        have hval : '9'.toNat = 57 ∧ '0'.toNat = 48 := by decide
        omega
      rw [List.foldlM_cons, Nat.ofDigitChars_cons, Json.StringLiteral.hexDigit?, if_pos hc]
      simp only [Option.bind_eq_bind, Option.bind_some, if_pos hdigit, Nat.mul_comm]
      exact ih hcs _
  rw [digits?, if_neg (by simpa using hne), hfold]

/-- Digits without leading zeros have no radix mark. -/
theorem magnitude?_toDigits (n : Nat) : magnitude? (Nat.toDigits 10 n) = some n := by
  have hdigits := digits?_of_isDigit Nat.toDigits_ne_nil
    fun c hc => Nat.isDigit_of_mem_toDigits (b := 10) (n := n) (by decide) (by decide) hc
  rw [Nat.ofDigitChars_ten_toDigits] at hdigits
  generalize hcs : Nat.toDigits 10 n = cs at hdigits
  have hzero : ∀ c ds, cs = '0' :: c :: ds → False := by
    rintro c ds rfl
    cases Json.eq_nil_of_toDigits_eq_cons hcs
  rw [magnitude?.eq_def]
  split
  all_goals first | exact (hzero _ _ rfl).elim | exact hdigits

theorem unsigned?_toDigits (n : Nat) : unsigned? (Nat.toDigits 10 n) = some n := by
  rw [unsigned?.eq_def]
  split
  · next cs hcs =>
    have hplus : '+'.isDigit = true :=
      Nat.isDigit_of_mem_toDigits (b := 10) (n := n) (by decide) (by decide) (by simp [hcs])
    cases hplus
  · exact magnitude?_toDigits n

/-- An integer is read as it is spelled. -/
theorem integer?_toString (i : Int) : integer? (toString i) = some i := by
  rw [integer?, toList_toString]
  rcases lt_or_ge i 0 with hi | hi
  · have hdash : unsigned? ('-' :: Nat.toDigits 10 i.natAbs) = none := by
      simp [unsigned?, magnitude?, digits?, Json.StringLiteral.hexDigit?]
    have habs : -(i.natAbs : Int) = i := by omega
    rw [if_pos hi, List.singleton_append, hdash, negative?, magnitude?_toDigits]
    exact congrArg some habs
  · rw [if_neg (Int.not_lt.mpr hi), List.nil_append, unsigned?_toDigits]
    exact congrArg some (Int.natAbs_of_nonneg hi)

/-- No integer is spelled like nothing. -/
theorem isNull_toString (i : Int) : isNull (toString i) = false := by
  rw [← Bool.not_eq_true]
  intro h
  have hnull : toString i = "null" ∨ toString i = "Null" ∨ toString i = "NULL" ∨ toString i = "~" := by
    simpa [isNull, or_assoc] using h
  have hi := integer?_toString i
  rcases hnull with h | h | h | h <;> (rw [h] at hi; cases hi)

end Plain

namespace LinkedNode

/-- An integer of a kind is read if the kind lies within 64 bits. -/
theorem narrowInteger?_toString {α : Type} {kind : IntegerKind α} {i : Int} {a : α}
    (hkind : kind.isSigned = true → kind.greatest ≤ Int64.maxValue.toInt)
    (hrange : -2 ^ 63 ≤ i ∧ i < 2 ^ 64) (hi : kind.ofInt? i = some a) :
    narrowInteger? kind.isSigned (toString i) = some i := by
  obtain ⟨hleast, hgreatest⟩ : kind.least ≤ i ∧ i ≤ kind.greatest := by
    by_contra hout
    rw [IntegerKind.ofInt?, if_neg hout] at hi
    cases hi
  rw [narrowInteger?]
  cases hsigned : kind.isSigned with
  | true =>
    have hfits : Int64.minValue.toInt ≤ i ∧ i ≤ Int64.maxValue.toInt :=
      ⟨hrange.1, Int.le_trans hgreatest (hkind hsigned)⟩
    rw [if_pos rfl, Plain.integer?_toString, Option.filter_some, if_pos (decide_eq_true hfits)]
  | false =>
    have hnonneg : 0 ≤ i := by
      have hleast' : ¬kind.least < 0 := of_decide_eq_false hsigned
      omega
    have hfits : i < (UInt64.size : Int) := hrange.2
    have habs : Int.ofNat i.natAbs = i := Int.natAbs_of_nonneg hnonneg
    rw [if_neg Bool.false_ne_true, toList_toString, if_neg (Int.not_lt.mpr hnonneg),
      List.nil_append, Plain.unsigned?_toDigits, Option.map_some, habs, Option.filter_some,
      if_pos (decide_eq_true hfits)]

end LinkedNode

end ProtoScribe.Yaml
