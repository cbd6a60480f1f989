import ProtoScribe.Load
import ProtoScribe.Proofs.Storage.Names

/-!
# Stems and extensions

A file name is cut at its last dot, if something stands before it (`of_splitAtDot?`). So the stem
and the extension of a path are told by one fact about its file name (`Path.IsNamed`), and whatever
reads one of them agrees with whatever reads the other. A file name is a segment of its path and
holds no slash, and its stem holds none either (`IsNamed.slash_not_mem`).
-/

namespace ProtoScribe.Path

variable {p : Path} {name stem extension : String}

/-! ## The last dot -/

/-- A name is cut where no dot follows. -/
theorem splitAtDot?_of_append (hstem : stem ≠ "") (hlast : '.' ∉ extension.toList) :
    splitAtDot? (stem ++ "." ++ extension) = some (stem, extension) := by
  have hreverse : (stem ++ "." ++ extension).toList.reverse
      = extension.toList.reverse ++ '.' :: stem.toList.reverse := by simp
  have hdotless : ∀ c ∈ extension.toList.reverse, decide (c ≠ '.') = true := by
    intro c hc
    simpa using fun he : c = '.' => hlast (he ▸ List.mem_reverse.mp hc)
  obtain ⟨c, cs, hbefore⟩ := List.exists_cons_of_ne_nil
    (mt List.reverse_eq_nil_iff.mp (mt String.toList_eq_nil_iff.mp hstem))
  have hback : (c :: cs).reverse = stem.toList := by rw [← hbefore, List.reverse_reverse]
  rw [splitAtDot?, hreverse, List.dropWhile_append_of_pos hdotless,
    List.takeWhile_append_of_pos hdotless, hbefore]
  simp only [List.dropWhile_cons, List.takeWhile_cons, ne_eq, not_true_eq_false, decide_false,
    Bool.false_eq_true, if_false, List.drop_one, List.tail_cons, List.append_nil,
    List.reverse_reverse, String.ofList_toList, hback]

/-- The two parts of a name are what stands before its last dot and behind it. -/
theorem of_splitAtDot? (h : splitAtDot? name = some (stem, extension)) :
    name = stem ++ "." ++ extension ∧ stem ≠ "" ∧ '.' ∉ extension.toList := by
  have hparts := List.takeWhile_append_dropWhile (p := (· ≠ '.')) (l := name.toList.reverse)
  have hdotless : ∀ c ∈ name.toList.reverse.takeWhile (· ≠ '.'), c ≠ '.' := fun c hc => by
    simpa using List.mem_takeWhile_imp hc
  -- The rest begins with the first character that does not pass, which is the dot.
  have hdot := List.head?_dropWhile_not (· ≠ '.') name.toList.reverse
  rw [splitAtDot?] at h
  generalize name.toList.reverse.takeWhile (· ≠ '.') = after at h hparts hdotless
  generalize name.toList.reverse.dropWhile (· ≠ '.') = rest at h hparts hdot
  match rest, h, hparts, hdot with
  | dot :: c :: cs, h, hparts, hdot =>
    obtain rfl : dot = '.' := by simpa using hdot
    simp only [List.drop_one, List.tail_cons, Option.some.injEq, Prod.mk.injEq] at h
    obtain ⟨rfl, rfl⟩ := h
    refine ⟨?_, by simp, fun hmem => hdotless '.' (by simpa using hmem) rfl⟩
    rw [← String.toList_inj, ← List.reverse_inj, ← hparts]
    simp

/-- A file name is one of the segments of its path. -/
theorem slash_not_mem_fileName (h : p.fileName? = some name) : '/' ∉ name.toList := by
  obtain ⟨before, after, hsegments, -, -⟩ := exists_segments_of_fileName? h
  exact not_mem_of_mem_segments (hsegments ▸ List.mem_append_cons_self)

/-! ## Stems and extensions -/

/-- A path whose file name is a stem and an extension, with the last of its dots between them. -/
structure IsNamed (p : Path) (stem extension : String) : Prop where
  fileName : p.fileName? = some (stem ++ "." ++ extension)
  stem_ne : stem ≠ ""
  last : '.' ∉ extension.toList

namespace IsNamed

variable (h : p.IsNamed stem extension)

include h

theorem stem? : p.stem? = some stem := by
  rw [Path.stem?, h.fileName, Option.map_some, splitAtDot?_of_append h.stem_ne h.last]
  rfl

theorem extension? : p.extension? = some extension := by
  rw [Path.extension?, h.fileName, Option.bind_some, splitAtDot?_of_append h.stem_ne h.last]
  rfl

theorem slash_not_mem : '/' ∉ stem.toList := fun hmem =>
  slash_not_mem_fileName h.fileName (by simp [hmem])

end IsNamed

/-- Whatever has an extension has a stem. -/
theorem extension?_eq_some_iff :
    p.extension? = some extension ↔ ∃ stem, p.IsNamed stem extension := by
  refine ⟨fun h => ?_, fun ⟨stem, h⟩ => h.extension?⟩
  obtain ⟨name, hfile, hextension⟩ := Option.bind_eq_some_iff.mp h
  obtain ⟨⟨stem, _⟩, hsplit, rfl⟩ := Option.map_eq_some_iff.mp hextension
  obtain ⟨rfl, hstem, hlast⟩ := of_splitAtDot? hsplit
  exact ⟨stem, hfile, hstem, hlast⟩

/-- A path has a format exactly if its extension is one of three, in capitals or not. -/
theorem isSome_format?_iff : p.format?.isSome ↔
    ∃ stem extension, p.IsNamed stem extension ∧
      extension.map Char.toLower ∈ ["yaml", "yml", "json"] := by
  have hknown (extension : String) : (Format.ofExtension? extension).isSome ↔
      extension.map Char.toLower ∈ ["yaml", "yml", "json"] := by
    simp only [Format.ofExtension?, List.mem_cons, List.not_mem_nil, or_false]
    grind
  constructor
  · intro h
    obtain ⟨format, hformat⟩ := Option.isSome_iff_exists.mp h
    obtain ⟨extension, hextension, hof⟩ := Option.bind_eq_some_iff.mp hformat
    obtain ⟨stem, hnamed⟩ := extension?_eq_some_iff.mp hextension
    exact ⟨stem, extension, hnamed, (hknown extension).mp (by simp [hof])⟩
  · rintro ⟨stem, extension, hnamed, hmem⟩
    rw [format?, hnamed.extension?, Option.bind_some]
    exact (hknown extension).mpr hmem

end ProtoScribe.Path
