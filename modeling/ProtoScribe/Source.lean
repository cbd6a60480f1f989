/-!
# Indented source text

Source text is a list of lines, each with the number of blocks that it stands in. Rendering writes
`depth * width` spaces, the line's text and a line break for each of them.

The columns of an indentation are counted in a machine word, and at most `maxIndent` of them can be
written. A list of lines with one that would need more has no rendering, and the first such line is
the reason. `render_eq_ok_iff` says which lists render, and to what.
-/

namespace ProtoScribe.Source

/-- A line of source text inside `depth` blocks. -/
structure Line where
  depth : Nat
  text : String
  deriving DecidableEq, Repr, Inhabited

/-- The line that separates definitions. -/
def Line.blank : Line := ⟨0, ""⟩

/-- The widest indentation that can be written. -/
def maxIndent : Nat := 65535

/-- Why lines have no rendering: one inside `depth` blocks cannot be indented. -/
inductive IndentOverflow where
  /-- A machine word does not hold the number of columns. -/
  | uncountable (depth : Nat)
  /-- So many columns cannot be written. -/
  | tooWide (depth : Nat)
  deriving DecidableEq, Repr, Inhabited

/-- `n` spaces. -/
def spaces (n : Nat) : String := String.ofList (List.replicate n ' ')

/-- The columns of a line's indentation. The product of two words is taken only where it is a
word. -/
def Line.columns (width : Nat) (l : Line) : Except IndentOverflow UInt64 :=
  if UInt64.size ≤ l.depth * width then .error (.uncountable l.depth)
  else
    let columns := UInt64.ofNat l.depth * UInt64.ofNat width
    if maxIndent < columns.toNat then .error (.tooWide l.depth) else .ok columns

/-- A line with its indentation and its line break, if it can be indented. -/
def Line.render (width : Nat) (l : Line) : Except IndentOverflow String :=
  (l.columns width).map fun columns => spaces columns.toNat ++ l.text ++ "\n"

/-- The text of lines up to the first that cannot be indented. -/
def render (width : Nat) (lines : List Line) : Except IndentOverflow String :=
  (lines.mapM (Line.render width)).map String.join

/-! ## Which lines render -/

/-- A line with its indentation, however wide. -/
def Line.indented (width : Nat) (l : Line) : String := spaces (l.depth * width) ++ l.text

/-- The text of lines, whether or not their indentation can be written. -/
def text (width : Nat) (lines : List Line) : String :=
  String.join (lines.map fun l => l.indented width ++ "\n")

/-- A product that is a word is the product of the words. -/
theorem toNat_product {a b : Nat} (h : a * b < UInt64.size) :
    (UInt64.ofNat a * UInt64.ofNat b).toNat = a * b := by
  rw [UInt64.toNat_mul, UInt64.toNat_ofNat', UInt64.toNat_ofNat', ← Nat.mul_mod]
  exact Nat.mod_eq_of_lt h

/-- An indentation that can be written is the product of depth and width, not cut to a word. -/
theorem Line.columns_of_le {width : Nat} {l : Line} (h : l.depth * width ≤ maxIndent) :
    ∃ columns, l.columns width = .ok columns ∧ columns.toNat = l.depth * width := by
  have hs : l.depth * width < UInt64.size := Nat.lt_of_le_of_lt h (by decide)
  have hp := toNat_product hs
  refine ⟨_, ?_, hp⟩
  simp only [columns, hp]
  rw [if_neg (Nat.not_le.mpr hs), if_neg (Nat.not_lt.mpr h)]

/-- A wider one is refused, whether or not the product is a word. -/
theorem Line.columns_of_lt {width : Nat} {l : Line} (h : maxIndent < l.depth * width) :
    ∃ e, l.columns width = .error e := by
  unfold columns
  split
  · exact ⟨_, rfl⟩
  · next hs =>
    simp only [toNat_product (Nat.not_le.mp hs)]
    exact ⟨_, if_pos h⟩

/-- A line renders with all its columns if they can be written. -/
theorem Line.render_of_le {width : Nat} {l : Line} (h : l.depth * width ≤ maxIndent) :
    l.render width = .ok (l.indented width ++ "\n") := by
  obtain ⟨columns, hc, hn⟩ := columns_of_le h
  simp [Line.render, hc, hn, Except.map, indented]

/-- A line does not render if they cannot. -/
theorem Line.render_of_lt {width : Nat} {l : Line} (h : maxIndent < l.depth * width) :
    ∃ e, l.render width = .error e := by
  obtain ⟨e, he⟩ := columns_of_lt h
  exact ⟨e, by simp [Line.render, he, Except.map]⟩

/-- Lines render exactly if each of them fits. -/
theorem render_eq_ok_iff {width : Nat} {lines : List Line} {s : String} :
    render width lines = .ok s ↔ (∀ l ∈ lines, l.depth * width ≤ maxIndent) ∧ text width lines = s := by
  unfold render text
  induction lines generalizing s with
  | nil => simp [Except.map, pure, Except.pure]
  | cons l ls ih =>
    rw [List.mapM_cons]
    rcases Nat.lt_or_ge maxIndent (l.depth * width) with hl | hl
    · obtain ⟨e, he⟩ := Line.render_of_lt hl
      rw [he]
      refine ⟨nofun, fun ⟨hls, _⟩ => ?_⟩
      exact absurd (hls l List.mem_cons_self) (by omega)
    · rw [Line.render_of_le hl]
      simp only [List.forall_mem_cons, hl, true_and, List.map_cons, String.join_cons]
      cases hs : ls.mapM (Line.render width) with
      | error e =>
        refine ⟨nofun, fun ⟨hls, _⟩ => ?_⟩
        have := ih.mpr ⟨hls, rfl⟩
        rw [hs] at this
        cases this
      | ok rest =>
        obtain ⟨hls, ht⟩ := ih (s := String.join rest) |>.mp (by rw [hs]; rfl)
        simp only [bind, Except.bind, pure, Except.pure, Except.map, Except.ok.injEq, ht,
          String.join_cons]
        exact ⟨fun e => ⟨hls, e⟩, And.right⟩

end ProtoScribe.Source
