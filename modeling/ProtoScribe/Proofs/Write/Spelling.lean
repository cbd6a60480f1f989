import ProtoScribe.Proofs.Storage.Places
import ProtoScribe.Proofs.Write.Ends

/-!
# Directories by their spelling

The directory of a write may be spelled with dots, double dots and any number of slashes. Where
nothing but directories is on the way it is there afterwards, with all that were missing before it
and nothing else, and takes what is written. The one spelling that this does not hold of ends in dots
behind the name of a directory that is missing (`Dangling`): that is refused, although nothing is in
the way.
-/

namespace ProtoScribe.World

open FileTree ProtoScribe.Path

variable {w : World} {dir : Path}

section

variable (hcwd : w.tree.get? w.cwd = some .directory) (hp : dir.Spelled) (hne : dir.text ≠ "")
  (hc : w.tree.Clear w.cwd dir.steps)

include hcwd hp hne hc

/-- A path that does not dangle leads to a directory afterwards, made as far as it was missing. -/
theorem ensureDirectory_of_not_dangling (hd : ¬w.tree.Dangling w.cwd dir.steps) :
    ∃ w', host.ensureDirectory dir w = (.ok (), w') ∧ w'.cwd = w.cwd ∧
      w.tree.Paves w'.tree w.cwd dir.steps := by
  by_cases hpaved : w.tree.Paved w.cwd dir.steps
  · exact ⟨w, ensureDirectory_of_directory (entryAt?_of_paved hp hne hpaved), rfl, .refl hpaved⟩
  · let reported : World := { w with events := w.events ++ [.creatingDirectory dir] }
    obtain ⟨tree, hrun, hpaves⟩ := (makesPlace (w := reported) hcwd hp hc).made hd
    have hnone := ensureDirectory_of_none (entryAt?_of_not_paved hp hcwd hc hpaved)
    exact ⟨_, hnone.trans (attempt_of_ok hrun), rfl, hpaves⟩

omit hne in
/-- One that dangles is refused. -/
theorem ensureDirectory_of_dangling (hd : w.tree.Dangling w.cwd dir.steps) :
    (host.ensureDirectory dir w).1 = .error (.directory dir (.system .notFound)) := by
  have hpaved : ¬w.tree.Paved w.cwd dir.steps :=
    fun h => not_dangling_of_paved (h.mono (List.dropLast_prefix _)) hd
  let reported : World := { w with events := w.events ++ [.creatingDirectory dir] }
  obtain ⟨w', hrun⟩ := (makesPlace (w := reported) hcwd hp hc).failed hd
  have hnone := ensureDirectory_of_none (entryAt?_of_not_paved hp hcwd hc hpaved)
  rw [hnone.trans (attempt_of_error hrun)]

end

/-- **Directories are made however they are spelled, but for dots behind a missing name.** Along a
relative path without a NUL and within the limits of the system, in a tree without links and with
nothing but directories on the way, the directory is made exactly if the path does not dangle. The
path leads to the place of its steps then, the directories on the way are there, and all else is as
before; and whatever that directory takes is written into it. -/
theorem directory_made_iff (w : World) (dir : Path) (hl : w.tree.NoLinks)
    (hcwd : w.tree.get? w.cwd = some .directory) (hp : dir.Spelled) (hne : dir.text ≠ "")
    (hc : w.tree.Clear w.cwd dir.steps) :
    let out := host.ensureDirectory dir w
    (out.1 = .ok () ↔ ¬w.tree.Dangling w.cwd dir.steps) ∧
    (out.1 = .ok () →
      out.2.tree.Leads w.cwd dir (place w.cwd dir.steps) ∧
      w.tree.Paves out.2.tree w.cwd dir.steps ∧
      ∀ mode name text, '/' ∉ name.toList →
        out.2.Admits mode dir (place w.cwd dir.steps) (protoFileName name) →
        (host.writeText mode name dir text w).1 = .ok (dir.join ⟨protoFileName name⟩) ∧
        (host.writeText mode name dir text w).2.tree = out.2.tree.put (place w.cwd dir.steps)
          (protoFileName name) (.file (Utf8.encode text))) := by
  intro out
  have hiff : out.1 = .ok () ↔ ¬w.tree.Dangling w.cwd dir.steps := by
    refine ⟨fun hok hd => ?_, fun hd => ?_⟩
    · cases (ensureDirectory_of_dangling hcwd hp hc hd).symm.trans hok
    · obtain ⟨w', hrun, -⟩ := ensureDirectory_of_not_dangling hcwd hp hne hc hd
      exact congrArg Prod.fst hrun
  refine ⟨hiff, fun hok => ?_⟩
  obtain ⟨w', hrun, hcwd', hpaves⟩ := ensureDirectory_of_not_dangling hcwd hp hne hc (hiff.mp hok)
  rw [show out = _ from hrun]
  have hleads := leads_of_paved hp hne hpaves.paved
  refine ⟨hleads, hpaves, fun mode name text hname hadmits => ?_⟩
  have hlink (target : Path) :
      w'.tree.get? (place w.cwd dir.steps ++ [protoFileName name]) ≠ some (.link target) := by
    intro he
    rcases hpaves.get?_cases he with hdir | he
    · cases hdir
    · exact hl _ target he
  have hwrite := writeFile_of_admits (hcwd' ▸ hleads) hname hlink hadmits (Utf8.encode text)
  have hpersist := persist_of_name hname (rfl : Utf8.encode text = _) mode dir
    (dir.join ⟨protoFileName name⟩) w
  rw [bind_of_ok hrun, hwrite] at hpersist
  exact writeBytes_of_ok hpersist

/-- Of three directories that are missing the second stands beside the first, and a slash ends the
path; a file is written into the last of them. -/
theorem directory_made_iff_roundabout :
    (host.writeText .truncate "x" ⟨"a/../b//./c/"⟩ "" {}).1 = .ok ⟨"a/../b//./c/x.proto"⟩ := by
  have hp : Path.Spelled ⟨"a/../b//./c/"⟩ := ⟨by decide, by decide, by decide⟩
  have hd : ¬Dangling default [] (Path.steps ⟨"a/../b//./c/"⟩) := by
    refine not_dangling_of_ne fun front x he => ?_
    rw [show Path.steps ⟨"a/../b//./c/"⟩ = ["a", "..", "b", ".", "c"] by decide] at he
    simpa using congrArg List.getLast? he
  obtain ⟨hiff, hmade⟩ := directory_made_iff {} ⟨"a/../b//./c/"⟩ noLinks_default rfl hp (by decide)
    (clear_default _ _)
  obtain ⟨-, hpaves, hwrite⟩ := hmade (hiff.mpr hd)
  have hplace : place [] (Path.steps ⟨"a/../b//./c/"⟩) = ["b", "c"] := by decide
  refine (hwrite .truncate "x" "" (by decide) ⟨by decide, by decide, ?_, fun _ full he => ?_, nofun⟩).1
  · rw [ne_eq, hpaves.get?_eq_directory_iff, not_or]
    refine ⟨by rw [hplace]; decide, ?_⟩
    rintro ⟨q, hq, he⟩
    have hall : ∀ q ∈ (Path.steps ⟨"a/../b//./c/"⟩).inits,
        place [] q ≠ ["b", "c"] ++ [protoFileName "x"] := by decide
    exact hall q ((List.mem_inits _ _).mpr hq) (hplace ▸ he)
  · rw [hplace] at he
    have hnone : get? default (["b", "c"] ++ [protoFileName "x"]) = none := by decide
    rcases hpaves.get?_cases he with hdir | he
    · cases hdir
    · cases hnone.symm.trans he

/-- A dot behind the name of a directory that is missing makes a path that is refused, with nothing
in its way. -/
theorem ensureDirectory_fails_on_dot :
    let w : World := {}
    w.tree.NoLinks ∧ w.tree.get? w.cwd = some .directory ∧ Path.Spelled ⟨"out/."⟩ ∧
      w.tree.Clear w.cwd (Path.steps ⟨"out/."⟩) ∧
      (host.ensureDirectory ⟨"out/."⟩ w).1 = .error (.directory ⟨"out/."⟩ (.system .notFound)) := by
  have hp : Path.Spelled ⟨"out/."⟩ := ⟨by decide, by decide, by decide⟩
  have hd : Dangling default [] (Path.steps ⟨"out/."⟩) := by
    refine ⟨[], "out", ["."], by decide, by decide, by decide, by decide, by decide, fun q hq => ?_⟩
    rw [List.prefix_nil.mp hq]
    decide
  exact ⟨noLinks_default, rfl, hp, clear_default _ _,
    ensureDirectory_of_dangling rfl hp (clear_default _ _) hd⟩

end ProtoScribe.World
