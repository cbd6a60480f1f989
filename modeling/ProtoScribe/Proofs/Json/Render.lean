import Mathlib
import ProtoScribe.Json.Value
import ProtoScribe.Proofs.Json.Grammar

/-!
# The text of a value spells it

The compact text of a value is JSON: it spells the datum that the value is (`Value.spells_render`).
-/

namespace ProtoScribe.Json

/-! ## Numbers -/

/-- The digits of a number have a zero in front only if that is all. -/
theorem eq_nil_of_toDigits_eq_cons {n : Nat} : ∀ {ds : List Char},
    Nat.toDigits 10 n = '0' :: ds → ds = [] := by
  induction n using Nat.strongRecOn with
  | ind n ih =>
    intro ds h
    rw [Nat.toDigits_eq_if (by decide)] at h
    split at h
    · exact (List.cons.inj h).2.symm
    · next hle =>
      obtain ⟨c, cs, hcs⟩ := List.exists_cons_of_ne_nil (Nat.toDigits_ne_nil (n := n / 10) (b := 10))
      rw [hcs, List.cons_append] at h
      obtain ⟨rfl, -⟩ := List.cons.inj h
      have hzero : n / 10 = 0 := by
        rw [← Nat.ofDigitChars_ten_toDigits (n := n / 10), hcs, ih (n / 10) (by omega) hcs]
        rfl
      omega

theorem isWhole_toDigits (n : Nat) : IsWhole (Nat.toDigits 10 n) where
  digits := ⟨Nat.toDigits_ne_nil, fun _ hc => Nat.isDigit_of_mem_toDigits (by decide) (by decide) hc⟩
  leadingZero _ h := eq_nil_of_toDigits_eq_cons h

/-- An integer as a numeral. -/
def Numeral.ofInt (i : Int) : Numeral where
  negative := i < 0
  whole := Nat.toDigits 10 i.natAbs
  isWhole := isWhole_toDigits i.natAbs

theorem Numeral.text_ofInt (i : Int) : (ofInt i).text = (toString i).toList := by
  cases i with
  | ofNat n =>
    simp [text, ofInt, Int.toString_eq_repr, Int.repr]
  | negSucc n =>
    simp [text, ofInt, Int.toString_eq_repr, Int.repr]

theorem Numeral.integer?_ofInt (i : Int) : (ofInt i).integer? = some i := by
  have hmagnitude : (ofInt i).magnitude = i.natAbs := Nat.ofDigitChars_ten_toDigits
  have hzero : ¬((ofInt i).negative = true ∧ (ofInt i).whole = ['0']) := by
    rintro ⟨hnegative, hwhole⟩
    rw [magnitude, hwhole] at hmagnitude
    have hi : i < 0 := by simpa [ofInt] using hnegative
    have hnat : (0 : Nat) = i.natAbs := hmagnitude
    omega
  rw [integer?, if_pos ⟨rfl, rfl, hzero⟩, hmagnitude]
  rcases lt_or_ge i 0 with hi | hi
  · rw [if_pos (by simpa [ofInt] using hi)]
    exact congrArg some (by omega)
  · rw [if_neg (by simpa [ofInt] using hi)]
    exact congrArg some (by omega)

/-! ## Strings -/

theorem isHexDigit_digitChar {n : Nat} (h : n < 16) : IsHexDigit (Nat.digitChar n) n := by
  rw [IsHexDigit]
  revert n
  decide

/-- A character is escaped as what stands for it. -/
theorem spellsChars_escapeChar (c : Char) {cs s : List Char} (h : SpellsChars cs s) :
    SpellsChars (Value.escapeChar c ++ cs) (c :: s) := by
  have hshort {l : Char} (hmem : (l, c) ∈ shortEscapes) : SpellsChars (['\\', l] ++ cs) (c :: s) :=
    .short hmem h
  rw [Value.escapeChar]
  split_ifs with hquote hbackslash hb hf hn hr ht hcontrol
  · exact hshort (by subst hquote; decide)
  · exact hshort (by subst hbackslash; decide)
  · exact hshort (by subst hb; decide)
  · exact hshort (by subst hf; decide)
  · exact hshort (by subst hn; decide)
  · exact hshort (by subst hr; decide)
  · exact hshort (by subst ht; decide)
  · have hunit : SpellsUnit ['0', '0', Nat.digitChar (c.toNat / 16), Nat.digitChar (c.toNat % 16)]
        c.toNat := by
      have hdigits := SpellsUnit.digits (isHexDigit_digitChar (n := 0) (by decide))
        (isHexDigit_digitChar (n := 0) (by decide))
        (isHexDigit_digitChar (n := c.toNat / 16) (by omega))
        (isHexDigit_digitChar (n := c.toNat % 16) (by omega))
      have hsum : ((0 * 16 + 0) * 16 + c.toNat / 16) * 16 + c.toNat % 16 = c.toNat := by omega
      rwa [hsum] at hdigits
    exact .unit hunit h
  · exact .plain hquote hbackslash (by omega) h

theorem spellsString_renderString (s : String) : SpellsString (Value.renderString s) s := by
  refine ⟨s.toList.flatMap Value.escapeChar, ?_, rfl⟩
  induction s.toList with
  | nil => exact .nil
  | cons c cs ih =>
    rw [List.flatMap_cons]
    exact spellsChars_escapeChar c ih

/-! ## Values -/

namespace Value

mutual

/-- The datum that a value is. -/
def datum : Value → Datum
  | flag b => .flag b
  | integer i => .number (.ofInt i)
  | string s => .string s
  | array items => .array (datumOfItems items)
  | object members => .object (datumOfMembers members)

/-- The data that some values are. -/
def datumOfItems : List Value → List Datum
  | [] => []
  | v :: vs => v.datum :: datumOfItems vs

/-- The data that the values of some members are, with their keys. -/
def datumOfMembers : List (String × Value) → List (String × Datum)
  | [] => []
  | (k, v) :: ms => (k, v.datum) :: datumOfMembers ms

end

theorem datumOfItems_eq_map : ∀ vs : List Value, datumOfItems vs = vs.map datum
  | [] => rfl
  | v :: vs => by rw [datumOfItems, datumOfItems_eq_map vs, List.map_cons]

theorem datumOfMembers_eq_map : ∀ ms : List (String × Value),
    datumOfMembers ms = ms.map fun m => (m.1, m.2.datum)
  | [] => rfl
  | (k, v) :: ms => by rw [datumOfMembers, datumOfMembers_eq_map ms, List.map_cons]

mutual

/-- **The text of a value spells it.** -/
theorem spells_render : ∀ v : Value, Spells v.render v.datum
  | flag true => .yes
  | flag false => .no
  | integer i => by
    rw [render, ← Numeral.text_ofInt]
    exact .number _
  | string s => .string (spellsString_renderString s)
  | array [] => .emptyArray blank_nil
  | array (v :: vs) => .array (spellsItems_render (v :: vs) (List.cons_ne_nil v vs))
  | object [] => .emptyObject blank_nil
  | object (m :: ms) => .object (spellsMembers_render (m :: ms) (List.cons_ne_nil m ms))

theorem spellsItems_render : ∀ vs : List Value, vs ≠ [] →
    SpellsItems (renderItems vs) (datumOfItems vs)
  | [], h => absurd rfl h
  | [v], _ => .single v.spells_render
  | v :: w :: vs, _ =>
    .comma v.spells_render (spellsItems_render (w :: vs) (List.cons_ne_nil w vs))

theorem spellsMembers_render : ∀ ms : List (String × Value), ms ≠ [] →
    SpellsMembers (renderMembers ms) (datumOfMembers ms)
  | [], h => absurd rfl h
  | [(k, v)], _ => .single (spellsString_renderString k) v.spells_render
  | (k, v) :: m :: ms, _ => by
    have hrest := spellsMembers_render (m :: ms) (List.cons_ne_nil m ms)
    rw [renderMembers, List.append_assoc]
    · exact .comma (spellsString_renderString k) v.spells_render hrest
    · exact List.cons_ne_nil m ms

end

end Value

end ProtoScribe.Json
