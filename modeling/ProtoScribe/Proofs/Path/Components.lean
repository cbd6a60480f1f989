import ProtoScribe.Proofs.Path.Plain

/-!
# Components of joined paths

The path of a name in a directory has the directory's components and then the name
(`components_join`), and the first path above it has those of the directory (`exists_parent_join`).
This is so for every spelling of the directory: a slash at its end adds an empty segment, which the
join takes up, and idle segments count for no component wherever they stand.
-/

namespace ProtoScribe.Path

variable {p : Path} {name first : String} {later : List String}

/-- The components of a path by its segments. -/
theorem components_of_segments (h : p.segments = first :: later) : p.components =
    (if first = "" ∧ later ≠ [] then [.root] else if first = "." then [.here]
      else (component? first).toList) ++ later.filterMap component? := by
  rw [components, h]
  simp only [isAbsolute_iff_of_segments h]

theorem component?_of_isIdle {s : String} (h : isIdle s = true) : component? s = none := by
  rw [component?, if_pos h]

/-- Idle segments at an end count for no component. -/
theorem filterMap_dropWhile_isIdle : ∀ later : List String,
    (later.dropWhile isIdle).filterMap component? = later.filterMap component?
  | [] => rfl
  | s :: later => by
    rw [List.dropWhile_cons]
    split
    · next hs =>
      rw [filterMap_dropWhile_isIdle later, List.filterMap_cons_none (component?_of_isIdle hs)]
    · rfl

/-- In the empty path a name stays what it is. -/
theorem empty_join (hslash : '/' ∉ name.toList) : (⟨""⟩ : Path).join ⟨name⟩ = ⟨name⟩ := by
  simp [join, isAbsolute_of_not_mem hslash]

/-- A name comes last among the segments, in place of an empty one at the directory's end. -/
theorem exists_segments_join (hslash : '/' ∉ name.toList) (hne : p.text ≠ "") :
    ∃ first later idle, p.segments = first :: (later ++ idle) ∧
      idle.filterMap component? = [] ∧ (p.join ⟨name⟩).segments = first :: (later ++ [name]) := by
  obtain ⟨text⟩ := p
  obtain ⟨front, idle, hp, hidle, hjoin⟩ : ∃ front idle, segments ⟨text⟩ = front ++ idle ∧
      idle.filterMap component? = [] ∧
        ((⟨text⟩ : Path).join ⟨name⟩).segments = front ++ [name] ∧ front ≠ [] := by
    rcases join_cases (p := ⟨text⟩) hslash with ⟨he, -⟩ | ⟨a, rfl, hj⟩ | ⟨-, hj⟩
    · exact absurd he hne
    · have ha := segments_append a ""
      rw [String.append_empty] at ha
      exact ⟨segments ⟨a⟩, [""], ha, rfl,
        by rw [hj, segments_append, segments_of_not_mem hslash], segments_ne_nil ⟨a⟩⟩
    · exact ⟨segments ⟨text⟩, [], (List.append_nil _).symm, rfl,
        by rw [hj, segments_append, segments_of_not_mem hslash], segments_ne_nil ⟨text⟩⟩
  obtain ⟨first, later, rfl⟩ := List.exists_cons_of_ne_nil hjoin.2
  exact ⟨first, later, idle, hp, hidle, hjoin.1⟩

/-- Only the empty path is one empty segment. -/
theorem later_ne_nil (h : p.segments = first :: later) (hne : p.text ≠ "") (hf : first = "") :
    later ≠ [] := by
  rintro rfl
  have ht := p.text_eq_intercalate
  rw [h, hf, String.intercalate_singleton] at ht
  exact hne ht

/-- The path of a name in a directory has the directory's components and the name. -/
theorem components_join (hslash : '/' ∉ name.toList) (hname : IsStepName name) :
    (p.join ⟨name⟩).components = p.components ++ [.name name] := by
  have hlast : component? name = some (.name name) := by
    simp [component?, isIdle, hname.nonempty, hname.ne_dot, hname.ne_up]
  by_cases hne : p.text = ""
  · obtain rfl : p = ⟨""⟩ := by rw [← hne]
    rw [empty_join hslash, components_of_segments (segments_of_not_mem hslash), if_neg (by simp),
      if_neg hname.ne_dot, hlast]
    rfl
  · obtain ⟨first, later, idle, hp, hidle, hjoin⟩ := exists_segments_join hslash hne
    -- Whether the path is absolute does not depend on what follows the first segment.
    have habsolute : first = "" ∧ later ++ [name] ≠ [] ↔ first = "" ∧ later ++ idle ≠ [] := by
      refine ⟨fun h => ⟨h.1, later_ne_nil hp hne h.1⟩, fun h => ⟨h.1, by simp⟩⟩
    rw [components_of_segments hjoin, components_of_segments hp, List.filterMap_append,
      List.filterMap_append, hidle, List.filterMap_cons_some hlast, List.filterMap_nil,
      List.append_nil, List.append_assoc]
    simp only [habsolute]

theorem fileName?_join (hslash : '/' ∉ name.toList) (hname : IsStepName name) :
    (p.join ⟨name⟩).fileName? = some name := by
  rw [fileName?, components_join hslash hname, List.getLast?_concat]

/-- A path made of segments has their components. -/
theorem components_ofSegments (hfirst : '/' ∉ first.toList) (hlater : ∀ s ∈ later, '/' ∉ s.toList) :
    (ofSegments first later).components =
      (if first = "" then [.root] else if first = "." then [.here]
        else (component? first).toList) ++ later.reverse.filterMap component? := by
  have hidle : (later.dropWhile isIdle).reverse.filterMap component?
      = later.reverse.filterMap component? := by
    rw [List.filterMap_reverse, List.filterMap_reverse, filterMap_dropWhile_isIdle]
  by_cases hf : first = ""
  · subst hf
    rw [if_pos rfl, ← hidle, ofSegments]
    cases hl : later.dropWhile isIdle with
    | nil => rfl
    | cons s l =>
      have hsegments : segments ⟨"/".intercalate ("" :: (s :: l).reverse)⟩
          = "" :: (s :: l).reverse := by
        refine segments_intercalate (by simp) (List.forall_mem_cons.mpr ⟨hfirst, fun x hx => ?_⟩)
        rw [← hl] at hx
        exact hlater x ((List.dropWhile_suffix _).subset (List.mem_reverse.mp hx))
      rw [components_of_segments hsegments, if_pos ⟨rfl, by simp⟩]
  · rw [components_of_segments (segments_ofSegments hf hfirst hlater), hidle,
      if_neg fun h => hf h.1, if_neg hf]

/-- The first path above that of a name has the components of the name's directory. -/
theorem exists_parent_join (hslash : '/' ∉ name.toList) (hname : IsStepName name) :
    ∃ parent, (p.join ⟨name⟩).parents.head? = some parent ∧ parent.components = p.components := by
  have hcounts : isIdle name = false := by simp [isIdle, hname.nonempty, hname.ne_dot]
  by_cases hne : p.text = ""
  · obtain rfl : p = ⟨""⟩ := by rw [← hne]
    refine ⟨⟨""⟩, ?_, rfl⟩
    simp [empty_join hslash, parents, segments_of_not_mem hslash, parentsOf, hname.nonempty]
  · obtain ⟨first, later, idle, hp, hidle, hjoin⟩ := exists_segments_join hslash hne
    have hsegment {s : String} (hs : s ∈ first :: (later ++ [name])) : '/' ∉ s.toList :=
      not_mem_of_mem_segments (hjoin ▸ hs)
    refine ⟨ofSegments first later.reverse, ?_, ?_⟩
    · simp only [parents, hjoin, List.reverse_append, List.reverse_cons, List.reverse_nil,
        List.nil_append, List.singleton_append, parentsOf, hcounts, Bool.false_eq_true, if_false,
        List.head?_cons]
    · have hlater (s : String) (hs : s ∈ later.reverse) : '/' ∉ s.toList :=
        hsegment (by simp [List.mem_reverse.mp hs])
      have habsolute : first = "" ∧ later ++ idle ≠ [] ↔ first = "" :=
        ⟨And.left, fun h => ⟨h, later_ne_nil hp hne h⟩⟩
      rw [components_ofSegments (hsegment List.mem_cons_self) hlater, components_of_segments hp,
        List.reverse_reverse, List.filterMap_append, hidle, List.append_nil]
      simp only [habsolute]

end ProtoScribe.Path
