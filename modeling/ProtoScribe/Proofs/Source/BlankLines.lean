import ProtoScribe.Proofs.Source.Header
import ProtoScribe.Proofs.Source.Listing

/-!
# Where a file has blank lines

A file is a run of paragraphs: some lines that are not blank and one empty line behind them. A
section of the header is a paragraph and so is a definition at the top, whatever is missing and
whatever the names in it are. The places of the blank lines follow from that alone
(`Generator.blankLines`), so none of the statements that write one has to know what stands next to
it.
-/

namespace ProtoScribe

open Source Text

/-! ## Paragraphs -/

/-- `n` paragraphs: each has at least one line, none of them blank, and an empty line behind it. -/
inductive Source.Paragraphs : List String → (n : Nat) → Prop where
  | nil : Paragraphs [] 0
  | cons {paragraph ls : List String} {n : Nat} (nonempty : paragraph ≠ [])
      (inked : ∀ l ∈ paragraph, isBlank l = false) (rest : Paragraphs ls n) :
      Paragraphs (paragraph ++ "" :: ls) (n + 1)

namespace Source.Paragraphs

variable {ls : List String} {n : Nat}

theorem append {ls' : List String} {n' : Nat} (h : Paragraphs ls n) (h' : Paragraphs ls' n') :
    Paragraphs (ls ++ ls') (n + n') := by
  induction h with
  | nil => simpa using h'
  | cons nonempty inked _ ih =>
    rw [List.append_assoc, List.cons_append, Nat.add_right_comm]
    exact .cons nonempty inked ih

theorem eq_nil_iff (h : Paragraphs ls n) : ls = [] ↔ n = 0 := by
  cases h <;> simp

theorem ne_empty_of_isBlank {l : String} (h : isBlank l = false) : l ≠ "" := by
  rintro rfl
  exact absurd h (by decide)

/-- Each paragraph has one blank line, the one behind it. -/
theorem count_empty (h : Paragraphs ls n) : ls.count "" = n := by
  induction h with
  | nil => rfl
  | cons _ inked _ ih =>
    have hp := List.count_eq_zero.mpr fun hmem => ne_empty_of_isBlank (inked _ hmem) rfl
    rw [List.count_append, hp, List.count_cons_self, ih, Nat.zero_add]

/-- Only the lines behind paragraphs are blank, and these are empty. -/
theorem eq_empty_of_isBlank (h : Paragraphs ls n) : ∀ l ∈ ls, isBlank l → l = "" := by
  induction h with
  | nil => simp
  | cons _ inked _ ih =>
    simp only [List.forall_mem_append, List.forall_mem_cons]
    refine ⟨fun l hl hb => ?_, fun _ => trivial, ih⟩
    rw [inked l hl] at hb
    cases hb

theorem exists_head (h : Paragraphs ls n) (hn : ls ≠ []) :
    ∃ first rest, ls = first :: rest ∧ isBlank first = false := by
  cases h with
  | nil => exact absurd rfl hn
  | cons nonempty inked _ =>
    obtain ⟨first, rest, rfl⟩ := List.exists_cons_of_ne_nil nonempty
    exact ⟨first, _, List.cons_append, inked first List.mem_cons_self⟩

/-- Behind the last paragraph comes its empty line. -/
theorem exists_last (h : Paragraphs ls n) (hn : ls ≠ []) :
    ∃ before last, ls = before ++ [last, ""] ∧ isBlank last = false := by
  induction h with
  | nil => exact absurd rfl hn
  | @cons paragraph ls n nonempty inked _ ih =>
    rcases List.eq_nil_or_concat ls with rfl | ⟨_, _, hls⟩
    · obtain ⟨before, last, rfl⟩ := (List.eq_nil_or_concat paragraph).resolve_left nonempty
      exact ⟨before, last, by simp, inked last (by simp)⟩
    · obtain ⟨before, last, rfl, hlast⟩ := ih (by simp [hls])
      exact ⟨paragraph ++ "" :: before, last, by simp, hlast⟩

/-- An empty line is followed by the first line of a paragraph, if by anything. -/
theorem isChain (h : Paragraphs ls n) : ls.IsChain fun a b => ¬(a = "" ∧ b = "") := by
  induction h with
  | nil => exact .nil
  | @cons paragraph ls n _ inked rest ih =>
    have hp : ∀ l ∈ paragraph, l ≠ "" := fun l hl => ne_empty_of_isBlank (inked l hl)
    have hparagraph : paragraph.IsChain fun a b => ¬(a = "" ∧ b = "") := by
      refine (List.pairwise_of_forall_mem_list fun a ha b _ => ?_).isChain
      exact fun hblank => hp a ha hblank.1
    have hnext : ∀ b ∈ ls.head?, ¬("" = "" ∧ b = "") := fun b hb hblank => by
      obtain ⟨first, later, rfl, hfirst⟩ := rest.exists_head (by rintro rfl; cases hb)
      obtain rfl : first = b := by simpa using hb
      exact ne_empty_of_isBlank hfirst hblank.2
    refine List.isChain_append.mpr ⟨hparagraph, List.isChain_cons.mpr ⟨hnext, ih⟩, ?_⟩
    exact fun a ha b _ (hblank : a = "" ∧ b = "") => hp a (List.mem_of_getLast? ha) hblank.1

/-- The lines of definitions, each with a blank line behind it. -/
theorem separated {α : Type} {f : α → List Line} (width : Nat) : ∀ xs : List α,
    (∀ x, f x ≠ [] ∧ ∀ l ∈ f x, isBlank (l.indented width) = false) →
    Paragraphs ((xs.flatMap fun x => f x ++ [.blank]).map (Line.indented width)) xs.length
  | [], _ => .nil
  | x :: xs, h => by
    obtain ⟨hne, hinked⟩ := h x
    have hblank : Line.blank.indented width = "" := by simp [Line.indented, Line.blank, spaces]
    have := cons (by simpa using hne) (List.forall_mem_map.mpr hinked) (separated width xs h)
    simpa [hblank] using this

/-- Sections of statements, each with a blank line behind it. -/
theorem sections : ∀ sections : List (List String),
    (∀ s ∈ sections, ∀ statement ∈ s, isBlank statement = false) →
    Paragraphs (sections.flatMap Header.sectionLines) (sections.countP (!·.isEmpty))
  | [], _ => .nil
  | [] :: rest, h => by
    simpa [Header.sectionLines] using sections rest fun s hs => h s (List.mem_cons_of_mem _ hs)
  | (statement :: statements) :: rest, h => by
    have ih := sections rest fun s hs => h s (List.mem_cons_of_mem _ hs)
    have := cons (List.cons_ne_nil _ _) (h _ List.mem_cons_self) ih
    simpa [Header.sectionLines] using this

end Source.Paragraphs

/-! ## Headers and definitions -/

/-- How many kinds of statements a header has. -/
def Header.kinds (h : Header) : Nat :=
  [h.dialect.isSome, h.package.isSome, !h.imports.isEmpty, !h.options.isEmpty].count true

namespace Header

theorem kinds_eq_countP (h : Header) : h.kinds = h.sections.countP (!·.isEmpty) := by
  obtain ⟨dialect, package, imports, options⟩ := h
  cases dialect <;> cases package <;> cases imports <;> cases options <;> rfl

theorem kinds_eq_zero_iff (h : Header) : h.kinds = 0 ↔ h.isEmpty := by
  obtain ⟨dialect, package, imports, options⟩ := h
  cases dialect <;> cases package <;> cases imports <;> cases options <;> simp [kinds, isEmpty]

/-- No statement is blank: each begins with its keyword. -/
theorem isBlank_of_mem_sections {h : Header} {s : List String} (hs : s ∈ h.sections)
    {statement : String} (hstatement : statement ∈ s) : isBlank statement = false := by
  have keywords (k : String) (hk : k ∈ ["syntax = \"", "package ", "import \"", "option "]) :
      isBlank k = false := by
    revert k
    decide
  simp only [sections, List.mem_cons, List.not_mem_nil, or_false] at hs
  rcases hs with rfl | rfl | rfl | rfl <;>
  · obtain ⟨x, -, rfl⟩ := List.mem_map.mp hstatement
    simp [FileOption.text, isBlank_append, keywords]

theorem paragraphs_lines (h : Header) : Paragraphs h.lines h.kinds := by
  rw [kinds_eq_countP]
  exact .sections h.sections fun _ hs _ => isBlank_of_mem_sections hs

end Header

theorem Message.lines_ne_nil (m : Message) (d : Nat) : m.lines d ≠ [] := by
  obtain ⟨_, _, _, _⟩ := m
  simp [lines, block]

theorem Schema.paragraphs_lines (s : Schema) (width : Nat) :
    Paragraphs (s.lines.map (Line.indented width)) s.toplevel := by
  have hm := Paragraphs.separated width s.messages fun m =>
    ⟨m.lines_ne_nil 0, (m.lists_lines 0).isBlank_eq_false width⟩
  have he := Paragraphs.separated width s.enums fun e =>
    ⟨List.cons_ne_nil _ _, (e.lists_lines 0).isBlank_eq_false width⟩
  have hd := Paragraphs.separated width s.services fun d =>
    ⟨List.cons_ne_nil _ _, d.lists_lines.isBlank_eq_false width⟩
  rw [lines, List.map_append, List.map_append]
  exact (hm.append he).append hd

/-! ## The whole file -/

namespace Generator

/-- The lines of a file: those of its header, if it has one, and those of the definitions. -/
def lines (g : Generator) (s : Schema) : List String :=
  g.header.elim [] Header.lines ++ s.lines.map (Line.indented g.width.toNat)

theorem paragraphs_lines (g : Generator) (s : Schema) :
    Paragraphs (g.lines s) (g.header.elim 0 Header.kinds + s.toplevel) := by
  have hs := s.paragraphs_lines g.width.toNat
  unfold lines
  cases g.header with
  | none => exact Paragraphs.nil.append hs
  | some h => exact h.paragraphs_lines.append hs

theorem text_eq_join {g : Generator} {s : Schema} {t : String} (ht : g.text s = .ok t) :
    t = String.join ((g.lines s).map (· ++ "\n")) := by
  unfold text at ht
  cases hr : s.render g.width.toNat with
  | error e =>
    rw [hr] at ht
    cases ht
  | ok body =>
    rw [hr] at ht
    obtain rfl := Except.ok.inj ht
    obtain ⟨-, rfl⟩ := Schema.render_eq_ok_iff.mp hr
    unfold lines
    cases g.header <;>
      simp [Header.render_eq_join, Source.text, String.join_append, Function.comp_def]

theorem unbroken_of_mem_lines {g : Generator} {s : Schema}
    (hh : ∀ h, g.header = some h → ∀ x ∈ h.strings, Unbroken x) (hs : ∀ n ∈ s.names, Unbroken n)
    {line : String} (hline : line ∈ g.lines s) : Unbroken line := by
  unfold lines at hline
  rcases List.mem_append.mp hline with hline | hline
  · cases hg : g.header with
    | none => simp [hg] at hline
    | some h => exact Header.unbroken_of_strings (hh h hg) (by simpa [hg] using hline)
  · obtain ⟨l, hl, rfl⟩ := List.mem_map.mp hline
    refine unbroken_append.mpr ⟨?_, s.unbroken_of_mem_lines hs l hl⟩
    simp [Unbroken, spaces]

/-- A file has no lines exactly if there is nothing to say. -/
theorem lines_eq_nil_iff (g : Generator) (s : Schema) :
    g.lines s = [] ↔ (∀ h, g.header = some h → h.isEmpty) ∧ s.isEmpty := by
  have hs : s.toplevel = 0 ↔ s.isEmpty := by
    simp [Schema.toplevel, Schema.isEmpty, and_assoc]
  rw [(g.paragraphs_lines s).eq_nil_iff, Nat.add_eq_zero_iff, hs]
  cases g.header <;> simp [Header.kinds_eq_zero_iff]

/-- **Where a file has blank lines.** A file is empty exactly if its header says nothing and its
schema defines nothing. Otherwise it starts with a line that is not blank and ends with one blank
line behind one that is not. There is one blank line for each kind of statement in the header and
for each definition at the top, no two of them meet, and none has a space in it. -/
theorem blankLines {g : Generator} {s : Schema} {world : World} {t : String}
    (hh : ∀ h, g.header = some h → ∀ x ∈ h.strings, Unbroken x) (hs : ∀ n ∈ s.names, Unbroken n)
    (ht : (World.host.render g s world).1 = .ok t) :
    (t = "" ↔ (∀ h, g.header = some h → h.isEmpty) ∧ s.isEmpty) ∧
    (t ≠ "" →
      (∃ before, t = before ++ "\n" ++ "\n" ∧ before ≠ "" ∧ before.toList.getLast? ≠ some '\n') ∧
      ∃ first rest, Text.lines t = first :: rest ∧ isBlank first = false) ∧
    ¬ ["", ""] <:+: Text.lines t ∧
    (Text.lines t).count "" = g.header.elim 0 Header.kinds + s.toplevel ∧
    ∀ line ∈ Text.lines t, isBlank line → line = "" := by
  rw [World.render_fst] at ht
  have hp := g.paragraphs_lines s
  have ht := text_eq_join ht
  have hlines : Text.lines t = g.lines s := by
    rw [ht]
    exact lines_join fun l hl => unbroken_of_mem_lines hh hs hl
  have hempty : t = "" ↔ g.lines s = [] := by
    rw [← hlines]
    refine ⟨by rintro rfl; rfl, fun hnil => ?_⟩
    rw [ht, ← hlines, hnil]
    rfl
  refine ⟨hempty.trans (g.lines_eq_nil_iff s), fun hne => ⟨?_, ?_⟩, ?_, ?_, ?_⟩
  · -- The last line is blank, so the text ends with the break of the line before it and its own.
    obtain ⟨before, last, hsplit, hlast⟩ := hp.exists_last (mt hempty.mpr hne)
    have hunbroken : Unbroken last := unbroken_of_mem_lines hh hs (by simp [hsplit])
    have hinked : last ≠ "" := Paragraphs.ne_empty_of_isBlank hlast
    refine ⟨String.join (before.map (· ++ "\n")) ++ last, ?_, by simp [hinked], fun hbreak => ?_⟩
    · rw [ht, hsplit]
      simp [String.join_append, String.append_assoc]
    · rw [String.toList_append, List.getLast?_append_of_ne_nil _ (by simpa using hinked)] at hbreak
      exact hunbroken (List.mem_of_getLast? hbreak)
  · rw [hlines]
    exact hp.exists_head (mt hempty.mpr hne)
  · rw [hlines]
    exact fun hmeet => by simpa using hp.isChain.infix hmeet
  · rw [hlines, hp.count_empty]
  · rw [hlines]
    exact hp.eq_empty_of_isBlank

/-- A header without imports, with an empty package name, before a message without a name and an
enum whose name is a space. -/
theorem blankLines_sparse :
    let h : Header := { dialect := some .proto3, package := some "", options := [.bare " " " "] }
    let g : Generator := { width := 0, header := some h }
    let s : Schema := { messages := [{ name := "" }], enums := [{ name := " " }] }
    let t := "syntax = \"proto3\";\n\npackage ;\n\noption   =  ;\n\n" ++
      "message  \x7b\n\x7d\n\nenum   \x7b\n\x7d\n\n"
    (World.host.render g s {}).1 = .ok t ∧ (Text.lines t).count "" = 5 ∧
    ¬ ["", ""] <:+: Text.lines t ∧
    ∃ first rest, Text.lines t = first :: rest ∧ isBlank first = false := by
  intro h g s t
  have ht : (World.host.render g s {}).1 = .ok t := by rfl
  have hh : ∀ h', g.header = some h' → ∀ x ∈ h'.strings, Unbroken x := by
    rintro _ ⟨⟩
    decide
  obtain ⟨-, hfull, hmeet, hcount, -⟩ := blankLines hh (by decide : ∀ n ∈ s.names, Unbroken n) ht
  exact ⟨ht, hcount, hmeet, (hfull (by decide)).2⟩

end Generator

end ProtoScribe
