import ProtoScribe.Proofs.Path.Plain
import ProtoScribe.Write.Writer

/-!
# Names of files

The file name of a logical name ends in the suffix. It is the name of one file, and so can be put
behind a directory, exactly if it has no slash.
-/

namespace ProtoScribe

open ProtoScribe.Path

variable {name : String}

/-- File names end in the suffix. -/
theorem exists_protoFileName (name : String) :
    ∃ front, protoFileName name = front ++ protoSuffix := by
  rw [protoFileName]
  split
  · next h =>
    obtain ⟨front, hf⟩ := List.isSuffixOf_iff_suffix.mp h
    refine ⟨String.ofList front, ?_⟩
    rw [← String.toList_inj, String.toList_append, String.toList_ofList, hf]
  · exact ⟨name, rfl⟩

/-- The suffix adds no slash. -/
theorem slash_mem_protoFileName : '/' ∈ (protoFileName name).toList ↔ '/' ∈ name.toList := by
  rw [protoFileName]
  split
  · rfl
  · have hs : '/' ∉ protoSuffix.toList := by decide
    rw [String.toList_append, List.mem_append, or_iff_left hs]

theorem getLast?_protoFileName (name : String) :
    (protoFileName name).toList.getLast? = some 'o' := by
  obtain ⟨front, hf⟩ := exists_protoFileName name
  rw [hf, String.toList_append, List.getLast?_append]
  rfl

theorem isStepName_protoFileName (name : String) : IsStepName (protoFileName name) := by
  have hlast (s : String) (h : protoFileName name = s) : s.toList.getLast? = some 'o' :=
    h ▸ getLast?_protoFileName name
  refine ⟨fun h => ?_, fun h => ?_, fun h => ?_⟩ <;> exact absurd (hlast _ h) (by decide)

/-- No new file has a name that ends in the suffix. -/
theorem temporaryName_ne_protoFileName (n : Nat) (name : String) :
    temporaryName n ≠ protoFileName name := by
  intro he
  have hlast := getLast?_protoFileName name
  have hp : (".tmp".toList).getLast? = some 'p' := rfl
  rw [← he, temporaryName, String.toList_append, List.getLast?_append, hp, Option.some_or] at hlast
  exact absurd hlast (by decide)

/-! ## One component -/

theorem components_of_not_mem (hn : IsStepName name) (h : '/' ∉ name.toList) :
    components ⟨name⟩ = [.name name] := by
  simp [components, segments_of_not_mem h, isAbsolute_of_not_mem h, hn.ne_dot, component?, isIdle,
    hn.nonempty, hn.ne_up]

/-- A segment that counts is a component. -/
theorem exists_component? {segment : String} (h : isIdle segment = false) :
    ∃ c, component? segment = some c := by
  rw [component?, if_neg (by simp [h])]
  split
  · exact ⟨_, rfl⟩
  · exact ⟨_, rfl⟩

/-- A path with a slash, and a name behind its last one, has components before that and behind. -/
theorem components_of_mem (h : '/' ∈ name.toList) (hl : name.toList.getLast? = some 'o') :
    ∃ c cs d, components ⟨name⟩ = c :: (cs ++ [d]) := by
  obtain ⟨first, later, hs⟩ := List.exists_cons_of_ne_nil (segments_ne_nil ⟨name⟩)
  have ht : name = "/".intercalate (first :: later) := hs ▸ text_eq_intercalate ⟨name⟩
  have hseg : '/' ∉ first.toList := not_mem_of_mem_segments (hs ▸ List.mem_cons_self)
  rcases List.eq_nil_or_concat' later with rfl | ⟨before, last, rfl⟩
  · rw [String.intercalate_singleton] at ht
    exact absurd (ht ▸ h) hseg
  -- The last segment ends as the name does, so it counts.
  have hlast : isIdle last = false := by
    rw [← List.cons_append, String.intercalate_append_of_ne_nil (by simp) (by simp),
      String.intercalate_singleton] at ht
    by_contra hi
    have hidle : last = "" ∨ last = "." := by simpa [isIdle, or_iff_not_imp_left] using hi
    rw [ht, String.toList_append, String.toList_append] at hl
    rcases hidle with rfl | rfl <;> simp at hl
  obtain ⟨d, hd⟩ := exists_component? hlast
  -- So does the first, unless it is empty, and then the path starts at the root.
  obtain ⟨c, hc⟩ : ∃ c, (if isAbsolute ⟨name⟩ then [Component.root]
      else if first = "." then [.here] else (component? first).toList) = [c] := by
    split
    · exact ⟨_, rfl⟩
    split
    · exact ⟨_, rfl⟩
    · next ha hdot =>
      have hne : name ≠ "" := by
        rintro rfl
        simp at h
      have hf := first_ne_empty (by simpa using ha) hne hs
      have hidle : isIdle first = false := by simp [isIdle, hf, hdot]
      obtain ⟨c, hc⟩ := exists_component? hidle
      exact ⟨c, by rw [hc]; rfl⟩
  refine ⟨c, before.filterMap component?, d, ?_⟩
  rw [components, hs]
  simp only [hc, List.filterMap_append, List.filterMap_cons, hd, List.filterMap_nil,
    List.singleton_append]

/-- The file name of a logical name is the name of one file if the logical name has no slash. -/
theorem isFileName_protoFileName_iff :
    isFileName (protoFileName name) = true ↔ '/' ∉ name.toList := by
  rw [← slash_mem_protoFileName.not]
  refine ⟨fun hf h => ?_, fun h => ?_⟩
  · obtain ⟨c, cs, d, hc⟩ := components_of_mem h (getLast?_protoFileName name)
    rw [isFileName, hc] at hf
    cases cs <;> simp at hf
  · rw [isFileName, components_of_not_mem (isStepName_protoFileName name) h]

theorem not_isFileName_of_slash (h : '/' ∈ name.toList) :
    isFileName (protoFileName name) = false := by
  rw [← Bool.not_eq_true, isFileName_protoFileName_iff, not_not]
  exact h

/-! ## Targets -/

section Target

variable {dir : Path} (h : '/' ∉ name.toList)

include h

theorem steps_target : (dir.join ⟨protoFileName name⟩).steps = dir.steps ++ [protoFileName name] :=
  steps_join (slash_mem_protoFileName.not.mpr h) (isStepName_protoFileName name).nonempty

theorem endsInSlash_target : (dir.join ⟨protoFileName name⟩).endsInSlash = false :=
  endsInSlash_join (slash_mem_protoFileName.not.mpr h) (isStepName_protoFileName name).nonempty

end Target

end ProtoScribe
