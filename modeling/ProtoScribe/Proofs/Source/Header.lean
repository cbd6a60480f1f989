import ProtoScribe.Header
import ProtoScribe.Proofs.Source.Width

/-!
# Headers can be told from what follows them

A header is put before the definitions as it is, and so are the names and values in it. Still, a text
that begins with a header has been made from that header and those definitions alone
(`Header.eq_of_render_append_eq`), as long as what stands in the header keeps to its place: nothing
breaks a line, an option's name ends at the first space, and an option's value is not bare if it
begins with a quote (`Header.IsLegible`). The names in the definitions may be anything.

Each line of a header is blank or begins with the word for its kind of statement, and no text of
definitions begins so (`Schema.not_begins_of_render`). So two texts that are equal agree on where
their headers end (`Text.join_append_inj`). The lines are sorted by their first characters, which
gives back the sections, and each statement gives back what it says.
-/

namespace ProtoScribe

/-! ## Texts that are cut at a character -/

namespace Text

/-- What stands before the first occurrence of a character is determined, and so is what follows. -/
theorem cut_inj {c : Char} : ∀ {as bs xs ys : List Char}, c ∉ as → c ∉ bs →
    as ++ c :: xs = bs ++ c :: ys → as = bs ∧ xs = ys
  | [], [], xs, ys, _, _, h => by simpa using h
  | [], b :: bs, xs, ys, _, hb, h => by
    obtain ⟨rfl, -⟩ := List.cons.inj (h : c :: xs = b :: (bs ++ c :: ys))
    exact absurd List.mem_cons_self hb
  | a :: as, [], xs, ys, ha, _, h => by
    obtain ⟨rfl, -⟩ := List.cons.inj (h : a :: (as ++ c :: xs) = c :: ys)
    exact absurd List.mem_cons_self ha
  | a :: as, b :: bs, xs, ys, ha, hb, h => by
    obtain ⟨rfl, hrest⟩ := List.cons.inj (h : a :: (as ++ c :: xs) = b :: (bs ++ c :: ys))
    have ih := cut_inj (mt (List.mem_cons_of_mem a) ha) (mt (List.mem_cons_of_mem a) hb) hrest
    exact ⟨by rw [ih.1], ih.2⟩

/-- Of two equal texts the first lines are equal. -/
theorem line_append_inj {a b x y : String} (ha : Unbroken a) (hb : Unbroken b)
    (h : a ++ "\n" ++ x = b ++ "\n" ++ y) : a = b ∧ x = y := by
  have hl := congrArg String.toList h
  simp only [String.toList_append, List.append_assoc] at hl
  obtain ⟨hab, hxy⟩ := cut_inj ha hb hl
  exact ⟨String.toList_inj.mp hab, String.toList_inj.mp hxy⟩

/-- Lines of a kind that what follows does not begin with are determined by the whole text. -/
theorem join_append_inj {IsLine : String → Prop} : ∀ {ls ms : List String} {t u : String},
    (∀ l ∈ ls, Unbroken l ∧ IsLine l) → (∀ m ∈ ms, Unbroken m ∧ IsLine m) →
    (∀ l rest, IsLine l → t ≠ l ++ "\n" ++ rest) → (∀ l rest, IsLine l → u ≠ l ++ "\n" ++ rest) →
    String.join (ls.map (· ++ "\n")) ++ t = String.join (ms.map (· ++ "\n")) ++ u →
    ls = ms ∧ t = u
  | [], [], t, u, _, _, _, _, h => by simpa using h
  | [], m :: ms, t, u, _, hms, ht, _, h => by
    simp only [List.map_nil, String.join_nil, List.map_cons, String.join_cons, String.empty_append,
      String.append_assoc] at h
    refine absurd h ?_
    rw [← String.append_assoc]
    exact ht m _ (hms m List.mem_cons_self).2
  | l :: ls, [], t, u, hls, _, _, hu, h => by
    simp only [List.map_nil, String.join_nil, List.map_cons, String.join_cons, String.empty_append,
      String.append_assoc] at h
    refine absurd h.symm ?_
    rw [← String.append_assoc]
    exact hu l _ (hls l List.mem_cons_self).2
  | l :: ls, m :: ms, t, u, hls, hms, ht, hu, h => by
    obtain ⟨hl, hls'⟩ := List.forall_mem_cons.mp hls
    obtain ⟨hm, hms'⟩ := List.forall_mem_cons.mp hms
    simp only [List.map_cons, String.join_cons, String.append_assoc] at h
    obtain ⟨rfl, hrest⟩ := line_append_inj hl.1 hm.1 (by simpa only [String.append_assoc] using h)
    obtain ⟨rfl, rfl⟩ := join_append_inj hls' hms' ht hu hrest
    exact ⟨rfl, rfl⟩

end Text

open Text

/-! ## Lines of headers -/

namespace Header

/-- The words that statements begin with, in the order of the sections. -/
def keywords : List String := ["syntax ", "package ", "import ", "option "]

/-- Whether a line may stand in a header. -/
def IsLine (line : String) : Prop := line = "" ∨ ∃ k ∈ keywords, k.toList <+: line.toList

/-- The lines of a section, with the blank one that closes it. -/
def sectionLines (statements : List String) : List String :=
  if statements.isEmpty then [] else statements ++ [""]

/-- The lines of a header. -/
def lines (h : Header) : List String := h.sections.flatMap sectionLines

theorem sectionText_eq_join (statements : List String) :
    sectionText statements = String.join ((sectionLines statements).map (· ++ "\n")) := by
  unfold sectionText sectionLines
  split <;> simp [String.join_append]

theorem render_eq_join (h : Header) : h.render = String.join (h.lines.map (· ++ "\n")) := by
  simp [render, lines, sections, sectionText_eq_join, String.join_append]

theorem mem_sectionLines {line : String} {statements : List String}
    (h : line ∈ sectionLines statements) : line = "" ∨ line ∈ statements := by
  unfold sectionLines at h
  split at h
  · cases h
  · rcases List.mem_append.mp h with h | h
    · exact .inr h
    · exact .inl (List.mem_singleton.mp h)

/-- A line of a header that is not blank is a statement of one of its kinds. -/
theorem mem_lines {line : String} {h : Header} (hline : line ∈ h.lines) :
    line = "" ∨ (∃ d, h.dialect = some d ∧ line = "syntax = \"" ++ d.name ++ "\";") ∨
      (∃ p, h.package = some p ∧ line = "package " ++ p ++ ";") ∨
      (∃ i ∈ h.imports, line = "import \"" ++ i ++ "\";") ∨ ∃ o ∈ h.options, line = o.text := by
  unfold lines at hline
  obtain ⟨statements, hsection, hline⟩ := List.mem_flatMap.mp hline
  rcases mem_sectionLines hline with hblank | hstatement
  · exact .inl hblank
  refine .inr ?_
  simp only [sections, List.mem_cons, List.not_mem_nil, or_false] at hsection
  rcases hsection with rfl | rfl | rfl | rfl
  · obtain ⟨d, hd, rfl⟩ := List.mem_map.mp hstatement
    exact .inl ⟨d, Option.mem_toList.mp hd, rfl⟩
  · obtain ⟨p, hp, rfl⟩ := List.mem_map.mp hstatement
    exact .inr (.inl ⟨p, Option.mem_toList.mp hp, rfl⟩)
  · obtain ⟨i, hi, rfl⟩ := List.mem_map.mp hstatement
    exact .inr (.inr (.inl ⟨i, hi, rfl⟩))
  · obtain ⟨o, ho, rfl⟩ := List.mem_map.mp hstatement
    exact .inr (.inr (.inr ⟨o, ho, rfl⟩))

theorem isLine_of_mem_lines {line : String} {h : Header} (hline : line ∈ h.lines) : IsLine line := by
  unfold IsLine
  rcases mem_lines hline with hblank | ⟨d, -, rfl⟩ | ⟨p, -, rfl⟩ | ⟨i, -, rfl⟩ | ⟨o, -, rfl⟩
  · exact .inl hblank
  · exact .inr ⟨"syntax ", by simp [keywords], by simp⟩
  · exact .inr ⟨"package ", by simp [keywords], by simp⟩
  · exact .inr ⟨"import ", by simp [keywords], by simp⟩
  · exact .inr ⟨"option ", by simp [keywords], by simp [FileOption.text]⟩

/-! ## Sections -/

theorem filter_sectionLines {c d : Char} {statements : List String}
    (hs : ∀ s ∈ statements, s.toList.head? = some d) :
    (sectionLines statements).filter (fun line => line.toList.head? = some c)
      = if d = c then statements else [] := by
  unfold sectionLines
  split
  · next hempty => simp [List.isEmpty_iff.mp hempty]
  · rw [List.filter_append]
    by_cases hc : d = c
    · subst hc
      have hall : statements.filter (fun line => line.toList.head? = some d) = statements :=
        List.filter_eq_self.mpr fun s hm => decide_eq_true (hs s hm)
      simp [hall]
    · have hnone : statements.filter (fun line => line.toList.head? = some c) = [] := by
        refine List.filter_eq_nil_iff.mpr fun s hm => ?_
        simp [hs s hm, hc]
      simp [hnone, hc]

/-- The sections are the lines sorted by their first characters. -/
theorem sections_eq (h : Header) : h.sections = ['s', 'p', 'i', 'o'].map fun c =>
    h.lines.filter fun line => line.toList.head? = some c := by
  have hd : ∀ s ∈ h.dialect.toList.map fun d => "syntax = \"" ++ d.name ++ "\";",
      s.toList.head? = some 's' := by simp
  have hp : ∀ s ∈ h.package.toList.map fun p => "package " ++ p ++ ";",
      s.toList.head? = some 'p' := by simp
  have hi : ∀ s ∈ h.imports.map fun i => "import \"" ++ i ++ "\";",
      s.toList.head? = some 'i' := by simp
  have ho : ∀ s ∈ h.options.map FileOption.text, s.toList.head? = some 'o' := by
    simp [FileOption.text]
  simp [lines, sections, filter_sectionLines hd, filter_sectionLines hp, filter_sectionLines hi,
    filter_sectionLines ho]

end Header

/-! ## What stands in statements -/

/-- An option that its statement tells: the name ends at the first space, and a bare value is none
that could be taken for a string literal. -/
structure FileOption.IsLegible (o : FileOption) : Prop where
  name : Unbroken o.name
  value : Unbroken o.value
  noSpace : ' ' ∉ o.name.toList
  bare : o.quoted = false → o.value.toList.head? ≠ some '"'

/-- A header that its lines tell. -/
structure Header.IsLegible (h : Header) : Prop where
  package : ∀ p, h.package = some p → Unbroken p
  imports : ∀ i ∈ h.imports, Unbroken i
  options : ∀ o ∈ h.options, o.IsLegible

namespace FileOption

/-- What stands behind the equals sign of an option's statement. -/
def valueText (o : FileOption) : String := if o.quoted then "\"" ++ o.value ++ "\"" else o.value

theorem unbroken_text {o : FileOption} (hname : Unbroken o.name) (hvalue : Unbroken o.value) :
    Unbroken o.text := by
  have hliteral : Unbroken (if o.quoted then "\"" ++ o.value ++ "\"" else o.value) := by
    split
    · simp only [unbroken_append]
      exact ⟨⟨by decide, hvalue⟩, by decide⟩
    · exact hvalue
  simp only [text, unbroken_append]
  exact ⟨⟨⟨⟨by decide, hname⟩, by decide⟩, hliteral⟩, by decide⟩

/-- Whether a value is a string literal shows in its first character. -/
theorem eq_of_valueText_eq {o p : FileOption} (ho : o.IsLegible) (hp : p.IsLegible)
    (h : o.valueText = p.valueText) : o.value = p.value ∧ o.quoted = p.quoted := by
  unfold valueText at h
  cases hoq : o.quoted <;> cases hpq : p.quoted <;> simp only [hoq, hpq, if_true, if_false,
    Bool.false_eq_true] at h
  · exact ⟨h, rfl⟩
  · exact absurd (by simp [h]) (ho.bare hoq)
  · exact absurd (by simp [← h]) (hp.bare hpq)
  · simpa using h

/-- An option's statement tells the option. -/
theorem eq_of_text_eq {o p : FileOption} (ho : o.IsLegible) (hp : p.IsLegible)
    (h : o.text = p.text) : o = p := by
  have hl := congrArg String.toList h
  simp only [text, String.toList_append, List.append_assoc, List.append_cancel_left_eq] at hl
  obtain ⟨hname, hrest⟩ := cut_inj ho.noSpace hp.noSpace hl
  have hvalue : o.valueText = p.valueText := by
    unfold valueText
    rw [← String.toList_inj]
    simpa using hrest
  obtain ⟨hvalue, hquoted⟩ := eq_of_valueText_eq ho hp hvalue
  cases o
  cases p
  simp only [mk.injEq]
  exact ⟨String.toList_inj.mp hname, hvalue, hquoted⟩

theorem eq_of_map_text_eq : ∀ {os ps : List FileOption}, (∀ o ∈ os, o.IsLegible) →
    (∀ p ∈ ps, p.IsLegible) → os.map text = ps.map text → os = ps
  | [], [], _, _, _ => rfl
  | [], p :: ps, _, _, h => by cases h
  | o :: os, [], _, _, h => by cases h
  | o :: os, p :: ps, hos, hps, h => by
    obtain ⟨ho, hos⟩ := List.forall_mem_cons.mp hos
    obtain ⟨hp, hps⟩ := List.forall_mem_cons.mp hps
    simp only [List.map_cons, List.cons.injEq] at h
    rw [eq_of_text_eq ho hp h.1, eq_of_map_text_eq hos hps h.2]

end FileOption

namespace Header

/-- The strings in a header. -/
def strings (h : Header) : List String :=
  h.package.toList ++ h.imports ++ h.options.flatMap fun o => [o.name, o.value]

/-- A line of a header breaks only inside its strings. -/
theorem unbroken_of_strings {h : Header} (hs : ∀ x ∈ h.strings, Unbroken x) {line : String}
    (hline : line ∈ h.lines) : Unbroken line := by
  simp only [strings, List.forall_mem_append, List.forall_mem_flatMap, Option.mem_toList] at hs
  obtain ⟨⟨hpackage, himports⟩, hoptions⟩ := hs
  rcases mem_lines hline with rfl | ⟨d, -, rfl⟩ | ⟨p, hp, rfl⟩ | ⟨i, hi, rfl⟩ | ⟨o, ho, rfl⟩
  · decide
  · cases d <;> decide
  · simp only [unbroken_append]
    exact ⟨⟨by decide, hpackage p hp⟩, by decide⟩
  · simp only [unbroken_append]
    exact ⟨⟨by decide, himports i hi⟩, by decide⟩
  · exact FileOption.unbroken_text (hoptions o ho _ (by simp)) (hoptions o ho _ (by simp))

theorem unbroken_of_mem_lines {h : Header} (hl : h.IsLegible) {line : String}
    (hline : line ∈ h.lines) : Unbroken line := by
  refine unbroken_of_strings ?_ hline
  simp only [strings, List.forall_mem_append, List.forall_mem_flatMap, Option.mem_toList]
  refine ⟨⟨hl.package, hl.imports⟩, fun o ho => ?_⟩
  simpa using ⟨(hl.options o ho).name, (hl.options o ho).value⟩

/-- The statements of a header tell the header. -/
theorem eq_of_sections_eq {h₁ h₂ : Header} (hl₁ : h₁.IsLegible) (hl₂ : h₂.IsLegible)
    (h : h₁.sections = h₂.sections) : h₁ = h₂ := by
  simp only [sections, List.cons.injEq, and_true] at h
  obtain ⟨hdialect, hpackage, himports, hoptions⟩ := h
  have hd : h₁.dialect = h₂.dialect := by
    cases hd₁ : h₁.dialect with
    | none => cases hd₂ : h₂.dialect <;> simp_all
    | some d =>
      cases hd₂ : h₂.dialect with
      | none => simp_all
      | some e => cases d <;> cases e <;> simp_all [Dialect.name]
  have hp : h₁.package = h₂.package := by
    cases hp₁ : h₁.package <;> cases hp₂ : h₂.package <;> simp_all
  have hi : h₁.imports = h₂.imports := by
    refine (List.map_inj_right ?_).mp himports
    intro x y hxy
    simpa using hxy
  have ho := FileOption.eq_of_map_text_eq hl₁.options hl₂.options hoptions
  cases h₁
  cases h₂
  simp_all

end Header

/-! ## What follows a header -/

/-- The first line of definitions opens one of them. -/
theorem Schema.lines_cases (s : Schema) : s.lines = [] ∨
    ∃ keyword ∈ ["message", "enum", "service"], ∃ (name : String) (rest : List Source.Line),
      s.lines = ⟨0, keyword ++ " " ++ name ++ " \x7b"⟩ :: rest := by
  obtain ⟨messages, enums, services⟩ := s
  unfold Schema.lines
  cases messages with
  | cons m ms =>
    obtain ⟨name, fields, inner, nested⟩ := m
    exact .inr ⟨"message", by simp, name, _, rfl⟩
  | nil =>
    cases enums with
    | cons e es => exact .inr ⟨"enum", by simp, e.name, _, rfl⟩
    | nil =>
      cases services with
      | cons d ds => exact .inr ⟨"service", by simp, d.name, _, rfl⟩
      | nil => exact .inl rfl

/-- The text of definitions begins with no line of a header. -/
theorem Schema.not_begins_of_render {s : Schema} {width : Nat} {t : String}
    (ht : s.render width = .ok t) {line : String} (hline : Header.IsLine line) (rest : String) :
    t ≠ line ++ "\n" ++ rest := by
  obtain ⟨-, rfl⟩ := Schema.render_eq_ok_iff.mp ht
  intro h
  have hl := congrArg String.toList h
  rcases s.lines_cases with hnil | ⟨keyword, hkeyword, name, later, hlines⟩
  · simp [hnil, Source.text] at hl
  rw [hlines] at hl
  simp only [Source.text, Source.Line.indented, Source.spaces, List.map_cons, String.join_cons,
    Nat.zero_mul, List.replicate_zero, String.toList_append, String.toList_ofList, List.nil_append,
    List.append_assoc] at hl
  rcases hline with rfl | ⟨k, hk, before, hbefore⟩
  · simp only [List.mem_cons, List.not_mem_nil, or_false] at hkeyword
    rcases hkeyword with rfl | rfl | rfl <;> simp at hl
  · rw [← hbefore] at hl
    simp only [List.mem_cons, List.not_mem_nil, or_false, Header.keywords] at hkeyword hk
    rcases hkeyword with rfl | rfl | rfl <;> rcases hk with rfl | rfl | rfl | rfl <;> simp at hl

/-! ## The whole text -/

/-- **A header can be read off the text that it is put before.** Two texts that are equal have been
made from the same header, and have the same definitions behind it. -/
theorem Header.eq_of_render_append_eq {h₁ h₂ : Header} (hl₁ : h₁.IsLegible) (hl₂ : h₂.IsLegible)
    {s₁ s₂ : Schema} {width₁ width₂ : Nat} {t₁ t₂ : String} (ht₁ : s₁.render width₁ = .ok t₁)
    (ht₂ : s₂.render width₂ = .ok t₂) (h : h₁.render ++ t₁ = h₂.render ++ t₂) :
    h₁ = h₂ ∧ t₁ = t₂ := by
  rw [render_eq_join, render_eq_join] at h
  have hlines₁ : ∀ l ∈ h₁.lines, Unbroken l ∧ IsLine l := fun l hl =>
    ⟨unbroken_of_mem_lines hl₁ hl, isLine_of_mem_lines hl⟩
  have hlines₂ : ∀ l ∈ h₂.lines, Unbroken l ∧ IsLine l := fun l hl =>
    ⟨unbroken_of_mem_lines hl₂ hl, isLine_of_mem_lines hl⟩
  obtain ⟨hlines, ht⟩ := join_append_inj hlines₁ hlines₂
    (fun l rest hline => Schema.not_begins_of_render ht₁ hline rest)
    (fun l rest hline => Schema.not_begins_of_render ht₂ hline rest) h
  refine ⟨eq_of_sections_eq hl₁ hl₂ ?_, ht⟩
  rw [sections_eq, sections_eq, hlines]

/-- A header full of quotes and equals signs, before two schemas whose text is the same. -/
theorem Header.eq_of_render_append_eq_spliced :
    let h : Header :=
      { package := some "", imports := ["\";", ""],
        options := [⟨"a", "\" = \"", true⟩, ⟨"", " = \"\";", false⟩] }
    let built : Header :=
      { package := some "", imports := ["\";", ""],
        options := [.string "a" "\" = \"", .bare "" " = \"\";"] }
    let s₁ : Schema := { messages := [{ name := "A \x7b\n\x7d\n\nmessage B" }] }
    let s₂ : Schema := { messages := [{ name := "A" }, { name := "B" }] }
    let t := "message A \x7b\n\x7d\n\nmessage B \x7b\n\x7d\n\n"
    h.IsLegible ∧ s₁ ≠ s₂ ∧ s₁.render 2 = .ok t ∧ s₂.render 7 = .ok t ∧
      h.render ++ t = built.render ++ t ∧ h = built ∧ t = t := by
  intro h built s₁ s₂ t
  have hl : h.IsLegible := by
    refine ⟨by decide, by decide, ?_⟩
    intro o ho
    simp only [h, List.mem_cons, List.not_mem_nil, or_false] at ho
    rcases ho with rfl | rfl <;> exact ⟨by decide, by decide, by decide, by decide⟩
  have e₁ : s₁.render 2 = .ok t := by rfl
  have e₂ : s₂.render 7 = .ok t := by rfl
  have e : h.render ++ t = built.render ++ t := by rfl
  exact ⟨hl, by decide, e₁, e₂, e, eq_of_render_append_eq hl hl e₁ e₂ e⟩

end ProtoScribe
