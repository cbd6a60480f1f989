import Mathlib
import ProtoScribe.Yaml.Glyph

/-!
# A text on one line

A text of printable characters is one line in which each character takes one column and one byte
(`glyphs?_of_printable`), so a place in it is known from how much comes before.
-/

namespace ProtoScribe.Yaml

/-! ## Places on a line -/

namespace Mark

@[simp] theorem skip_zero (m : Mark) : m.skip 0 = m := rfl

@[simp] theorem skip_skip (m : Mark) (a b : Nat) : (m.skip a).skip b = m.skip (a + b) := by
  simp [skip, Nat.add_assoc]

@[simp] theorem line_skip (m : Mark) (count : Nat) : (m.skip count).line = m.line := rfl

@[simp] theorem column_skip (m : Mark) (count : Nat) : (m.skip count).column = m.column + count := rfl

@[simp] theorem index_skip (m : Mark) (count : Nat) : (m.skip count).index = m.index + count := rfl

end Mark

/-- Characters of one byte each on one line, the first of which stands at `m`. -/
def spread (m : Mark) : List Char → List Glyph
  | [] => []
  | c :: cs => ⟨c, m⟩ :: spread (m.skip 1) cs

@[simp] theorem length_spread (cs : List Char) : ∀ m : Mark, (spread m cs).length = cs.length := by
  induction cs with
  | nil => exact fun _ => rfl
  | cons c cs ih => exact fun m => congrArg (· + 1) (ih (m.skip 1))

theorem spread_append (cs ds : List Char) : ∀ m : Mark,
    spread m (cs ++ ds) = spread m cs ++ spread (m.skip cs.length) ds := by
  induction cs with
  | nil => exact fun _ => rfl
  | cons c cs ih =>
    intro m
    rw [List.cons_append, spread, spread, ih, List.cons_append, Mark.skip_skip, List.length_cons,
      Nat.add_comm 1]

/-- What is left of a line after its first characters. -/
theorem drop_spread (m : Mark) (cs ds : List Char) :
    (spread m (cs ++ ds)).drop cs.length = spread (m.skip cs.length) ds := by
  rw [spread_append, List.drop_left' (length_spread cs m)]

/-! ## Printable characters -/

/-- The characters of one byte that are no controls. -/
def IsPrintable (c : Char) : Prop := 0x20 ≤ c.toNat ∧ c.toNat ≤ 0x7E

instance : DecidablePred IsPrintable := fun _ => inferInstanceAs (Decidable (_ ∧ _))

namespace IsPrintable

variable {c d : Char}

/-- No control and nothing beyond `~` is printable. -/
theorem ne (h : IsPrintable c) (hd : ¬IsPrintable d) : c ≠ d := by
  rintro rfl
  exact hd h

theorem utf8Size_eq_one (h : IsPrintable c) : c.utf8Size = 1 := by
  rw [Char.utf8Size_eq_one_iff]
  exact UInt32.le_iff_toNat_le.mpr (Nat.le_trans h.2 (by decide))

theorem isAllowed (h : IsPrintable c) : isAllowed c = true := by
  simp [Yaml.isAllowed, h.1, h.2]

theorem not_isBreakChar (h : IsPrintable c) : isBreakChar c = false := by
  simp [isBreakChar, h.ne (d := '\n') (by decide), h.ne (d := '\u2028') (by decide),
    h.ne (d := '\u2029') (by decide)]

theorem not_isBreak (h : IsPrintable c) (m : Mark) : Glyph.isBreak ⟨c, m⟩ = false :=
  h.not_isBreakChar

/-- The only blank that is printable is the space. -/
theorem isBlank_eq (h : IsPrintable c) (m : Mark) : Glyph.isBlank ⟨c, m⟩ = decide (c = ' ') := by
  simp [Glyph.isBlank, h.ne (d := '\t') (by decide)]

end IsPrintable

/-- Printable characters take the places of a line one after another. -/
theorem glyphsFrom_of_printable : ∀ {cs : List Char} (m : Mark) (before : List Glyph),
    (∀ c ∈ cs, IsPrintable c) →
      glyphsFrom m before cs = (before.reverse ++ spread m cs, m.skip cs.length)
  | [], m, before, _ => by
    rw [glyphsFrom, spread, List.append_nil, List.length_nil, Mark.skip_zero]
  | c :: cs, m, before, h => by
    obtain ⟨hc, hcs⟩ := List.forall_mem_cons.mp h
    have hright : m.right c = m.skip 1 := by
      rw [Mark.right, hc.utf8Size_eq_one, Mark.skip]
    rw [glyphsFrom.eq_3 _ _ _ _ fun _ hcr _ => hc.ne (d := '\r') (by decide) hcr,
      if_neg (by simp [hc.ne (d := '\n') (by decide), hc.ne (d := '\r') (by decide),
        hc.ne (d := '\u0085') (by decide)]),
      if_neg (by simp [hc.not_isBreakChar]), hright, glyphsFrom_of_printable _ _ hcs, spread]
    simp [Nat.add_comm 1]

/-- A printable text is one line. -/
theorem glyphs?_of_printable {text : String} (h : ∀ c ∈ text.toList, IsPrintable c) :
    glyphs? text = some (spread {} text.toList, Mark.skip {} text.toList.length) := by
  rw [glyphs?, if_pos (List.all_eq_true.mpr fun c hc => (h c hc).isAllowed),
    glyphsFrom_of_printable _ _ h]
  rfl

end ProtoScribe.Yaml
