import ProtoScribe.Proofs.Json.Literals
import ProtoScribe.Yaml.Read

/-!
# Unsigned numerals

A plain scalar spells an unsigned number in hexadecimal, octal or binary after a mark, and in decimal
without leading zeros; a plus sign may come first (`Unsigned`). `unsigned?_eq_some_iff` says that
these spellings are read, each as its number, and no others.

Digits are read from left to right, so the induction on them takes the last one off.
-/

namespace ProtoScribe

namespace Json.StringLiteral

/-- The scanner's hexadecimal digits are those of the grammar. -/
theorem hexDigit?_eq_some_iff {c : Char} {value : Nat} :
    hexDigit? c = some value ↔ IsHexDigit c value := by
  refine ⟨fun h => ?_, hexDigit?_of_isHexDigit⟩
  have hsmall : c.toNat < 128 := by
    have hle {b : Char} (hb : c ≤ b) (hb128 : b.toNat < 128) : c.toNat < 128 :=
      Nat.lt_of_le_of_lt (UInt32.le_iff_toNat_le.mp hb) hb128
    rw [hexDigit?] at h
    split at h
    · next hc => exact hle (of_decide_eq_true (Bool.and_eq_true_iff.mp hc).2) (by decide)
    · split at h
      · next hc => exact hle hc.2 (by decide)
      · split at h
        · next hc => exact hle hc.2 (by decide)
        · cases h
  have hall : ∀ n < 128, ∀ i ∈ hexDigit? (Char.ofNat n),
      hexDigits[i]? = some (Char.ofNat n).toLower := by
    decide +kernel
  have := hall c.toNat hsmall value
  rw [Char.ofNat_toNat] at this
  exact this h

end Json.StringLiteral

namespace Yaml.Plain

open Json (IsHexDigit)
open Json.StringLiteral (hexDigit? hexDigit?_eq_some_iff)

/-! ## Spellings -/

/-- Digits below a radix spell a number. -/
inductive Digits (radix : Nat) : List Char → Nat → Prop where
  | one {c : Char} {d : Nat} : IsHexDigit c d → d < radix → Digits radix [c] d
  | more {cs : List Char} {n : Nat} {c : Char} {d : Nat} : Digits radix cs n → IsHexDigit c d →
    d < radix → Digits radix (cs ++ [c]) (n * radix + d)

/-- A number without a sign. -/
inductive Magnitude : List Char → Nat → Prop where
  | hexadecimal {cs : List Char} {n : Nat} : Digits 16 cs n → Magnitude ('0' :: 'x' :: cs) n
  | octal {cs : List Char} {n : Nat} : Digits 8 cs n → Magnitude ('0' :: 'o' :: cs) n
  | binary {cs : List Char} {n : Nat} : Digits 2 cs n → Magnitude ('0' :: 'b' :: cs) n
  | decimal {cs : List Char} {n : Nat} : Digits 10 cs n → (cs.head? = some '0' → cs = ['0']) →
    Magnitude cs n

/-- A number without a minus sign. -/
inductive Unsigned : List Char → Nat → Prop where
  | bare {cs : List Char} {n : Nat} : Magnitude cs n → Unsigned cs n
  | plus {cs : List Char} {n : Nat} : Magnitude cs n → Unsigned ('+' :: cs) n

/-! ## Digits -/

variable {radix : Nat} {cs : List Char} {n : Nat}

/-- One more digit after the number that `cs` spell. -/
theorem digits?_concat (c : Char) : digits? radix (cs ++ [c])
    = (if cs = [] then some 0 else digits? radix cs).bind fun n => (hexDigit? c).bind fun d =>
        if d < radix then some (n * radix + d) else none := by
  rw [digits?, if_neg (by simp), List.foldlM_append]
  simp only [List.foldlM_cons, List.foldlM_nil, Option.bind_eq_bind, Option.pure_def,
    Option.bind_fun_some]
  by_cases hcs : cs = []
  · subst hcs
    rfl
  · rw [if_neg hcs, digits?, if_neg (by simpa using hcs)]
    rfl

/-- Digits are read as the number that they spell, and nothing else is. -/
theorem digits?_eq_some_iff : digits? radix cs = some n ↔ Digits radix cs n := by
  constructor
  · induction cs using List.reverseRecOn generalizing n with
    | nil =>
      intro h
      cases h
    | append_singleton cs c ih =>
      intro h
      rw [digits?_concat, Option.bind_eq_some_iff] at h
      obtain ⟨m, hm, h⟩ := h
      obtain ⟨d, hd, h⟩ := Option.bind_eq_some_iff.mp h
      obtain ⟨hlt, hn⟩ := Option.ite_none_right_eq_some.mp h
      rw [hexDigit?_eq_some_iff] at hd
      cases hn
      split at hm
      · next hcs =>
        subst hcs
        cases hm
        rw [Nat.zero_mul, Nat.zero_add, List.nil_append]
        exact .one hd hlt
      · exact .more (ih hm) hd hlt
  · intro h
    induction h with
    | one hd hlt =>
      rw [← List.nil_append [_], digits?_concat, hexDigit?_eq_some_iff.mpr hd]
      simp [hlt]
    | @more cs n c d hcs hd hlt ih =>
      have hne : cs ≠ [] := by
        rintro rfl
        cases ih
      rw [digits?_concat, if_neg hne, ih, hexDigit?_eq_some_iff.mpr hd]
      simp [hlt]

/-- What a number of digits starts with is one. -/
theorem Digits.head {c : Char} (h : Digits radix (c :: cs) n) : ∃ d, hexDigit? c = some d := by
  generalize hall : c :: cs = all at h
  induction h generalizing cs with
  | one hd _ =>
    cases hall
    exact ⟨_, hexDigit?_eq_some_iff.mpr hd⟩
  | @more before _ _ _ hbefore _ _ ih =>
    cases before with
    | nil => nomatch digits?_eq_some_iff.mpr hbefore
    | cons b before =>
      cases hall
      exact ih rfl

/-! ## Marks and signs -/

theorem magnitude?_of_digits (h : cs.head? = some '0' → cs = ['0']) :
    magnitude? cs = digits? 10 cs := by
  rw [magnitude?.eq_def]
  split
  all_goals first | cases h rfl | rfl

theorem magnitude?_eq_some_iff : magnitude? cs = some n ↔ Magnitude cs n := by
  constructor
  · intro h
    rw [magnitude?.eq_def] at h
    split at h
    · exact .hexadecimal (digits?_eq_some_iff.mp h)
    · exact .octal (digits?_eq_some_iff.mp h)
    · exact .binary (digits?_eq_some_iff.mp h)
    · cases h
    · next hzero =>
      refine .decimal (digits?_eq_some_iff.mp h) fun hhead => ?_
      obtain ⟨ds, rfl⟩ := List.head?_eq_some_iff.mp hhead
      cases ds with
      | nil => rfl
      | cons d ds => exact (hzero d ds rfl).elim
  · rintro (h | h | h | ⟨h, hzero⟩)
    · exact digits?_eq_some_iff.mpr h
    · exact digits?_eq_some_iff.mpr h
    · exact digits?_eq_some_iff.mpr h
    · rw [magnitude?_of_digits hzero]
      exact digits?_eq_some_iff.mpr h

/-- **The unsigned numbers that are read are those that are spelled.** -/
theorem unsigned?_eq_some_iff : unsigned? cs = some n ↔ Unsigned cs n := by
  constructor
  · intro h
    rw [unsigned?.eq_def] at h
    split at h
    · exact .plus (magnitude?_eq_some_iff.mp h)
    · exact .bare (magnitude?_eq_some_iff.mp h)
  · rintro (h | h)
    · rw [unsigned?.eq_def]
      split
      · -- No digit is a sign.
        cases h with
        | decimal h _ =>
          obtain ⟨d, hd⟩ := h.head
          cases hd
      · exact magnitude?_eq_some_iff.mpr h
    · exact magnitude?_eq_some_iff.mpr h

end Yaml.Plain

end ProtoScribe
