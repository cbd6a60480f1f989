import ProtoScribe.Proofs.Path.Components
import ProtoScribe.Proofs.Write.Name
import ProtoScribe.Storage.World

/-!
# Which files logical names stand for

A logical name without a slash stands for one file directly in the directory, and a name with a
slash for none. The file name that it has is a logical name, too, and stands for the same file. So
two names stand for the same file only if one is the other without the suffix
(`protoFileName_eq_iff`).
-/

namespace ProtoScribe

variable {name other : String}

/-! ## The suffix -/

theorem protoFileName_of_suffix (h : protoSuffix.toList <:+ name.toList) :
    protoFileName name = name := by
  rw [protoFileName, if_pos (List.isSuffixOf_iff_suffix.mpr h)]

theorem protoFileName_of_not_suffix (h : ¬protoSuffix.toList <:+ name.toList) :
    protoFileName name = name ++ protoSuffix := by
  rw [protoFileName, if_neg (mt List.isSuffixOf_iff_suffix.mp h)]

theorem suffix_protoFileName (name : String) : protoSuffix.toList <:+ (protoFileName name).toList := by
  obtain ⟨front, hf⟩ := exists_protoFileName name
  exact ⟨front.toList, by rw [hf, String.toList_append]⟩

/-- A file name is its own file name. -/
theorem protoFileName_protoFileName (name : String) :
    protoFileName (protoFileName name) = protoFileName name :=
  protoFileName_of_suffix (suffix_protoFileName name)

/-- Two names have the same file name if they are equal, or if one is the other with the suffix that
the other lacks. -/
theorem protoFileName_eq_iff : protoFileName name = protoFileName other ↔
    name = other ∨ (¬protoSuffix.toList <:+ name.toList ∧ other = name ++ protoSuffix) ∨
      (¬protoSuffix.toList <:+ other.toList ∧ name = other ++ protoSuffix) := by
  constructor
  · intro h
    by_cases hname : protoSuffix.toList <:+ name.toList <;>
      by_cases hother : protoSuffix.toList <:+ other.toList
    · rw [protoFileName_of_suffix hname, protoFileName_of_suffix hother] at h
      exact .inl h
    · rw [protoFileName_of_suffix hname, protoFileName_of_not_suffix hother] at h
      exact .inr (.inr ⟨hother, h⟩)
    · rw [protoFileName_of_not_suffix hname, protoFileName_of_suffix hother] at h
      exact .inr (.inl ⟨hname, h.symm⟩)
    · rw [protoFileName_of_not_suffix hname, protoFileName_of_not_suffix hother,
        String.append_left_inj] at h
      exact .inl h
  · rintro (rfl | ⟨hname, rfl⟩ | ⟨hother, rfl⟩)
    · rfl
    · rw [← protoFileName_of_not_suffix hname, protoFileName_protoFileName]
    · rw [← protoFileName_of_not_suffix hother, protoFileName_protoFileName]

/-! ## Files -/

namespace World

open ProtoScribe.Path

/-- **Which names are accepted, where their files are, and which have the same file.** The file name
of a logical name passes the check exactly if the name has no slash; then it is the last component of
its path in any directory, and the path above has the components of the directory. Writing under the
file name is writing under the name. Two names have the same file name exactly if they are equal or
one of them lacks the suffix and is the other with it taken off. -/
theorem logical_names_land_and_collide (name : String) :
    (isFileName (protoFileName name) = true ↔ '/' ∉ name.toList) ∧
    (isFileName (protoFileName name) = true → ∀ dir : Path,
      let target := dir.join ⟨protoFileName name⟩
      target.fileName? = some (protoFileName name) ∧
        target.components = dir.components ++ [.name (protoFileName name)] ∧
        ∃ parent, target.parents.head? = some parent ∧ parent.components = dir.components) ∧
    protoFileName (protoFileName name) = protoFileName name ∧
    (∀ (mode : WriteMode) (dir : Path) (bytes : List UInt8) (w : World),
      host.writeBytes mode (protoFileName name) dir bytes w
        = host.writeBytes mode name dir bytes w) ∧
    ∀ other : String, protoFileName name = protoFileName other ↔
      name = other ∨ (¬protoSuffix.toList <:+ name.toList ∧ other = name ++ protoSuffix) ∨
        (¬protoSuffix.toList <:+ other.toList ∧ name = other ++ protoSuffix) := by
  refine ⟨isFileName_protoFileName_iff, fun hname dir => ?_, protoFileName_protoFileName name,
    fun mode dir bytes w => ?_, fun other => protoFileName_eq_iff⟩
  · have hslash : '/' ∉ (protoFileName name).toList :=
      slash_mem_protoFileName.not.mpr (isFileName_protoFileName_iff.mp hname)
    have hstep := isStepName_protoFileName name
    exact ⟨fileName?_join hslash hstep, components_join hslash hstep, exists_parent_join hslash hstep⟩
  · rw [Host.writeBytes, protoFileName_protoFileName]
    rfl

/-- Two dots make a name like any other, in a directory that is spelled with dots; and it has the
same file as with the suffix. -/
theorem logical_names_land_and_collide_dots :
    isFileName (protoFileName "..") = true ∧
      (Path.join ⟨"out/./"⟩ ⟨protoFileName ".."⟩).components
        = [.name "out", .name (protoFileName "..")] ∧
      protoFileName ".." = protoFileName "...proto" := by
  obtain ⟨haccepted, hlands, -, -, hcollide⟩ := logical_names_land_and_collide ".."
  have hpasses : isFileName (protoFileName "..") = true := haccepted.mpr (by decide)
  refine ⟨hpasses, (hlands hpasses ⟨"out/./"⟩).2.1, (hcollide "...proto").mpr ?_⟩
  exact .inr (.inl ⟨by decide, by decide⟩)

end World

end ProtoScribe
