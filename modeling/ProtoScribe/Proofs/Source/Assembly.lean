import ProtoScribe.Proofs.Source.Width

/-!
# Generators that are set up call by call

Of each kind of setting the last one counts, wherever the settings of the other kinds stand
(`Generator.foldl_set`). A header is kept exactly if it has a text (`Header.isEmpty_iff_render_eq`):
each of its sections says nothing just if there are no statements of its kind. So what is dropped
with an empty header is an empty text, and what is rendered is the text of the last header before
the schema at the last width, whatever came before them (`Generator.render_eq_of_last_settings`).
-/

namespace ProtoScribe

open Source

/-! ## Headers without a text -/

theorem Header.sectionText_eq_empty_iff {statements : List String} :
    sectionText statements = "" ↔ statements = [] := by
  cases statements <;> simp [sectionText]

/-- A header says nothing exactly if nothing is written for it. -/
theorem Header.isEmpty_iff_render_eq (h : Header) : h.isEmpty = true ↔ h.render = "" := by
  obtain ⟨dialect, package, imports, options⟩ := h
  have hparts : render ⟨dialect, package, imports, options⟩ = "" ↔
      dialect = none ∧ package = none ∧ imports = [] ∧ options = [] := by
    simp only [render, sections, List.map_cons, List.map_nil, String.join_cons, String.join_nil,
      String.append_eq_empty_iff, sectionText_eq_empty_iff, List.map_eq_nil_iff,
      Option.toList_eq_nil_iff, and_true]
  rw [hparts]
  simp [isEmpty, and_assoc]

namespace Generator

/-! ## Settings -/

/-- What can be set. -/
inductive Setting where
  | width (n : UInt64)
  | mode (m : WriteMode)
  | header (h : Header)

namespace Setting

/-- The width, if that is set. -/
def width? : Setting → Option UInt64
  | width n => some n
  | _ => none

/-- The mode of writing, if that is set. -/
def mode? : Setting → Option WriteMode
  | mode m => some m
  | _ => none

/-- The header, if that is set. -/
def header? : Setting → Option Header
  | header h => some h
  | _ => none

end Setting

/-- The generator with one thing set. -/
def set (g : Generator) : Setting → Generator
  | .width n => g.withWidth n
  | .mode m => g.withMode m
  | .header h => g.withHeader h

/-- The generator that some settings make, one after the other. -/
def assemble (settings : List Setting) : Generator := settings.foldl set {}

/-- The last setting of each kind counts. -/
theorem foldl_set (settings : List Setting) (g : Generator) : settings.foldl set g =
    { width := (settings.filterMap Setting.width?).getLast?.getD g.width
      mode := (settings.filterMap Setting.mode?).getLast?.getD g.mode
      header := (settings.filterMap Setting.header?).getLast?.elim g.header fun h =>
        if h.isEmpty then none else some h } := by
  induction settings generalizing g with
  | nil => rfl
  | cons setting settings ih =>
    rw [List.foldl_cons, ih]
    simp only [List.filterMap_cons]
    cases setting with
    | width n => simp [set, withWidth, Setting.width?, Setting.mode?, Setting.header?,
        List.getLast?_cons]
    | mode m => simp [set, withMode, Setting.width?, Setting.mode?, Setting.header?,
        List.getLast?_cons]
    | header h =>
      simp only [set, withHeader, Setting.width?, Setting.mode?, Setting.header?,
        List.getLast?_cons, Option.elim_some]
      cases (settings.filterMap Setting.header?).getLast? <;> rfl

/-- The text of what settings make depends on the last width and the last header. An empty header
is dropped, and its text would have been empty. -/
theorem text_assemble (settings : List Setting) (s : Schema) : (assemble settings).text s =
    (s.render ((settings.filterMap Setting.width?).getLast?.getD 2).toNat).map
      (((settings.filterMap Setting.header?).getLast?.elim "" Header.render) ++ ·) := by
  rw [assemble, foldl_set, text]
  cases (settings.filterMap Setting.header?).getLast? with
  | none => rfl
  | some h =>
    by_cases hempty : h.isEmpty = true
    · have hrender := h.isEmpty_iff_render_eq.mp hempty
      simp only [Option.elim_some, hempty, if_true, Option.elim_none, hrender]
      rfl
    · simp only [Option.elim_some, hempty, if_false, Bool.false_eq_true]
      rfl

/-- There is no header exactly if the last one has no text, or none was set. -/
theorem header_assemble_eq_none_iff (settings : List Setting) : (assemble settings).header = none ↔
    ∀ h, (settings.filterMap Setting.header?).getLast? = some h → h.render = "" := by
  rw [assemble, foldl_set]
  cases (settings.filterMap Setting.header?).getLast? with
  | none => simp
  | some h => simp [← Header.isEmpty_iff_render_eq]

/-- **What settings come to.** Whatever is set in whatever order, what is rendered is the text of
the last header that was set, or nothing, before the text of the schema at the last width, or at two
columns; there is none exactly if the schema has none at that width, for the same reason. Neither
the modes of writing nor the order of different settings change anything of this or of what is
reported. There is no header exactly if none was set or the last one has no text, and the headers
without a text are the empty ones. -/
theorem render_eq_of_last_settings (settings : List Setting) :
    let width := (settings.filterMap Setting.width?).getLast?.getD 2
    let header := (settings.filterMap Setting.header?).getLast?
    (∀ s world, (World.host.render (assemble settings) s world).1 =
      (s.render width.toNat).map ((header.elim "" Header.render) ++ ·)) ∧
    (∀ s world e, (World.host.render (assemble settings) s world).1 = .error e ↔
      s.render width.toNat = .error e) ∧
    (∀ settings', settings'.filterMap Setting.width? = settings.filterMap Setting.width? →
      settings'.filterMap Setting.header? = settings.filterMap Setting.header? →
      ∀ s world, World.host.render (assemble settings') s world
        = World.host.render (assemble settings) s world) ∧
    ((assemble settings).header = none ↔ header = none ∨ ∃ h, header = some h ∧ h.render = "") ∧
    ∀ h : Header, h.isEmpty = true ↔ h.render = "" := by
  intro width header
  refine ⟨fun s world => ?_, fun s world e => ?_, fun settings' hwidth hheader s world => ?_, ?_,
    Header.isEmpty_iff_render_eq⟩
  · rw [World.render_fst, text_assemble]
  · rw [World.render_fst, text_assemble]
    cases s.render width.toNat <;> simp [Except.map]
  · have hsame : (assemble settings').header = (assemble settings).header := by
      rw [assemble, assemble, foldl_set, foldl_set, hheader]
    have htext : (assemble settings').text s = (assemble settings).text s := by
      rw [text_assemble, text_assemble, hwidth, hheader]
    simp only [Host.render, hsame, htext]
  · rw [header_assemble_eq_none_iff]
    show (∀ h, header = some h → _) ↔ _
    cases header <;> simp

/-- An empty header takes the place of the one before it, wherever the widths stand among them, and
one with an empty name for its package does not. -/
theorem render_eq_of_last_settings_emptied :
    let h : Header := { dialect := some .proto3 }
    let named : Header := { package := some "" }
    let s : Schema := { messages := [{ name := "A", messages := [{ name := "B" }] }] }
    let mixed := assemble [.width 2, .header h, .mode .atomic, .width 1, .header {}]
    let sorted := assemble [.header h, .header {}, .width 2, .width 1]
    mixed.header = none ∧ World.host.render sorted s {} = World.host.render mixed s {} ∧
      (World.host.render mixed s {}).1
        = .ok "message A \x7b\n message B \x7b\n \x7d\n\x7d\n\n" ∧
      (assemble [.header {}, .header named]).header ≠ none ∧ named.render = "package ;\n\n" := by
  intro h named s mixed sorted
  obtain ⟨htext, -, hsame, hnone, -⟩ := render_eq_of_last_settings
    [.width 2, .header h, .mode .atomic, .width 1, .header {}]
  obtain ⟨-, -, -, hkept, -⟩ := render_eq_of_last_settings [.header {}, .header named]
  refine ⟨hnone.mpr (.inr ⟨{}, rfl, rfl⟩), ?_, (htext s {}).trans rfl, ?_, rfl⟩
  · exact hsame [.header h, .header {}, .width 2, .width 1] rfl rfl s {}
  · rw [ne_eq, hkept]
    rintro (hno | ⟨h', hlast, hrender⟩)
    · cases hno
    · cases hlast
      exact absurd hrender (by decide)

end Generator

end ProtoScribe
