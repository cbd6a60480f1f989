import ProtoScribe.Proofs.Storage.Directories
import ProtoScribe.Proofs.Storage.Files
import ProtoScribe.Write.Writer

/-!
# The steps of a write

What each step of a write does to a world without links: the directory is there afterwards or
nothing has changed, and then the content stands at the target or nothing has changed. Both ways of
writing leave the same tree. A path that the system does not take is refused by the step that comes
to it.
-/

namespace ProtoScribe.World

open FileTree

variable {w : World} {dir : Path}

/-! ## The directory -/

theorem ensureDirectory_of_directory (h : w.tree.entryAt? w.cwd dir = some .directory) :
    host.ensureDirectory dir w = (.ok (), w) := by
  rw [Host.ensureDirectory, ask_bind]
  simp only [isDirectory_apply, h, decide_true, if_true]
  rfl

theorem ensureDirectory_of_occupied {e : Entry} (h : w.tree.entryAt? w.cwd dir = some e)
    (he : e ≠ .directory) :
    host.ensureDirectory dir w = (.error (.directory dir .occupied), w) := by
  rw [Host.ensureDirectory, ask_bind]
  simp only [isDirectory_apply, h, Option.some.injEq, he, decide_false, Bool.false_eq_true, if_false]
  rw [ask_bind]
  simp only [leads_apply, h, Option.isSome_some, if_true]
  rfl

theorem ensureDirectory_of_none (h : w.tree.entryAt? w.cwd dir = none) :
    host.ensureDirectory dir w = Host.attempt (host.makeDirectoryAll dir) (.directory dir)
      { w with events := w.events ++ [.creatingDirectory dir] } := by
  rw [Host.ensureDirectory, ask_bind]
  simp only [isDirectory_apply, h, reduceCtorEq, decide_false, Bool.false_eq_true, if_false]
  rw [ask_bind]
  simp only [leads_apply, h, Option.isSome_none, Bool.false_eq_true, if_false]
  rfl

/-- A path that the system does not take is no directory's, and none is made of it. -/
theorem ensureDirectory_of_refusal? {e : Errno} (h : dir.refusal? = some e) :
    ∃ w', host.ensureDirectory dir w = (.error (.directory dir (.system e)), w') ∧
      w'.cwd = w.cwd ∧ w'.tree = w.tree :=
  ⟨_, (ensureDirectory_of_none (entryAt?_of_refusal? h)).trans
    (attempt_of_error (makeDirectoryAll_of_refusal? h)), rfl, rfl⟩

section

variable (hl : w.tree.NoLinks) (hcwd : w.tree.get? w.cwd = some .directory) (hp : dir.Fits)

include hl hcwd hp

/-- Where nothing is in the way, the directory is there afterwards, made as far as it was missing. -/
theorem ensureDirectory_of_not_blocked (hb : ¬w.tree.Blocked w.cwd dir.steps) :
    ∃ w', host.ensureDirectory dir w = (.ok (), w') ∧ w'.cwd = w.cwd ∧
      w.tree.MadeAlong w'.tree w.cwd dir.steps := by
  by_cases hd : w.tree.entryAt? w.cwd dir = some .directory
  · exact ⟨w, ensureDirectory_of_directory hd, rfl,
      madeAlong_self ((entryAt?_eq_directory_iff hl hp hcwd).mp hd).2⟩
  · have hnone : w.tree.entryAt? w.cwd dir = none := by
      rw [entryAt?_eq_directory_iff hl hp hcwd, not_and] at hd
      by_cases he : dir.text = ""
      · exact entryAt?_of_empty he
      · exact entryAt?_of_none hp hcwd hb (get?_eq_none_of_not_blocked hb (hd he))
    obtain ⟨tree, hrun, hmade⟩ := makeDirectoryAll_of_not_blocked
      (w := { w with events := w.events ++ [.creatingDirectory dir] }) hl hcwd hp hb
    exact ⟨_, (ensureDirectory_of_none hnone).trans (attempt_of_ok hrun), rfl, hmade⟩

/-- Where the directory is there already, the tree is as before. -/
theorem ensureDirectory_of_there (hd : w.tree.get? (w.cwd ++ dir.steps) = some .directory) :
    ∃ w', host.ensureDirectory dir w = (.ok (), w') ∧ w'.cwd = w.cwd ∧ w'.tree = w.tree := by
  by_cases he : dir.text = ""
  -- The empty path leads nowhere, so the directory is made, which asks for nothing.
  · have hrun := makeDirectories_of_empty (w := { w with events := w.events ++
      [.creatingDirectory dir] }) dir.parents he
    exact ⟨_, (ensureDirectory_of_none (entryAt?_of_empty he)).trans (attempt_of_ok hrun), rfl, rfl⟩
  · exact ⟨w, ensureDirectory_of_directory
      ((entryAt?_eq_directory_iff hl hp hcwd).mpr ⟨he, hd⟩), rfl, rfl⟩

/-- Where something is, the directory is refused and the tree is as before. -/
theorem ensureDirectory_of_blocked (hb : w.tree.Blocked w.cwd dir.steps) :
    ∃ cause w', host.ensureDirectory dir w = (.error (.directory dir cause), w') ∧
      w'.tree = w.tree := by
  have hd := entryAt?_of_blocked hl hp hcwd hb
  cases he : w.tree.entryAt? w.cwd dir with
  | some e => exact ⟨_, w, ensureDirectory_of_occupied he (fun h => hd (h ▸ he)), rfl⟩
  | none =>
    obtain ⟨e, hrun⟩ := makeDirectoryAll_of_blocked
      (w := { w with events := w.events ++ [.creatingDirectory dir] }) hl hcwd hp hb
    exact ⟨_, _, (ensureDirectory_of_none he).trans (attempt_of_error hrun), rfl⟩

end

/-! ## The file -/

/-- A write in place leaves the content in the file that is opened, wherever that is. -/
theorem writeTruncating_of_create {target : Path} {d : Location} {s : String} {bytes : List UInt8}
    (hfree : w.tree.IsFree d s)
    (hcreate : w.tree.create w.cwd target = .ok (⟨d, s⟩, w.tree.put d s (.file []))) :
    host.writeTruncating target bytes w
      = (.ok (), { w with tree := w.tree.put d s (.file bytes) }) := by
  rw [Host.writeTruncating, bind_of_ok (attempt_of_ok (create_of_ok hcreate)),
    bind_of_ok (attempt_of_ok (append_of_ok (append_put hfree))),
    bind_of_ok (attempt_of_ok (flush_apply _))]
  refine attempt_of_ok ?_
  rw [sync_apply, List.nil_append, sync_put hfree]

section

variable {target : Path} {q : List String} {s : String} {bytes : List UInt8}
variable (hp : target.Fits) (hs : target.steps = q ++ [s]) (hslash : target.endsInSlash = false)

include hp hs hslash

/-- A write in place leaves the content at the target. -/
theorem writeTruncating_of_takesFile (h : w.tree.TakesFile (w.cwd ++ q) s) :
    host.writeTruncating target bytes w
      = (.ok (), { w with tree := w.tree.put (w.cwd ++ q) s (.file bytes) }) :=
  writeTruncating_of_create h.isFree (create_of_takesFile hp hs hslash h)

/-- A directory is not written to. -/
theorem writeTruncating_of_directory (h : w.tree.get? (w.cwd ++ q ++ [s]) = some .directory) :
    host.writeTruncating target bytes w
      = (.error (.opening target (.system .isDirectory)), w) := by
  rw [Host.writeTruncating]
  exact bind_of_error (attempt_of_error (create_of_error (create_of_directory hp hs hslash h)))

end

/-- A new file that is made beside the target is filled and takes the target's place, or is gone. -/
theorem writeAtomically_of_createTemporary (target : Path) (bytes : List UInt8) {d : Location}
    {name : String} (hd : w.tree.get? d = some .directory)
    (hn : w.tree.get? (d ++ [name]) = none)
    (hcreate : w.tree.createTemporary w.cwd dir
      = .ok (⟨d, name⟩, w.tree.put d name (.file []))) :
    host.writeAtomically dir target bytes w =
      match (w.tree.put d name (.file bytes)).rename w.cwd ⟨d, name⟩ target with
      | .ok tree => (.ok (), { w with tree })
      | .error e => (.error (.transfer target (.system e)), w) := by
  have hfree := isFree_of_none hd hn
  let full : World := { w with tree := w.tree.put d name (.file bytes) }
  have hfill : host.fillAndRename ⟨d, name⟩ target bytes
      { w with tree := w.tree.put d name (.file []) }
      = Host.attempt (host.rename ⟨d, name⟩ target) (.transfer target) full := by
    rw [Host.fillAndRename, bind_of_ok (attempt_of_ok (append_of_ok (append_put hfree))),
      bind_of_ok (attempt_of_ok (flush_apply _)),
      bind_of_ok (attempt_of_ok ((sync_apply _).trans (Prod.ext (sync_put hfree) rfl)))]
    rfl
  rw [Host.writeAtomically, bind_of_ok (attempt_of_ok (createTemporary_of_ok hcreate))]
  cases hrename : (w.tree.put d name (.file bytes)).rename w.cwd ⟨d, name⟩ target with
  | ok tree => exact tryCatch_of_ok (hfill.trans (attempt_of_ok (rename_of_ok (w := full) hrename)))
  | error e =>
    -- The handler removes the new file.
    have herror := hfill.trans (attempt_of_error (rename_of_error (w := full) hrename))
    rw [tryCatch_of_error herror]
    show (Except.error _, { w with tree := (w.tree.put d name (.file bytes)).remove d name }) = _
    rw [remove_put hfree hn (by simp)]

section

variable {target : Path} {s : String} {bytes : List UInt8}
variable (hd : dir.Fits) (hp : target.Fits) (hs : target.steps = dir.steps ++ [s])
  (hsize : (temporaryPath w.cwd dir (temporaryName 0)).text.utf8ByteSize < pathLimit)

include hd hp hs hsize

/-- A write beside the target leaves the content there too, and nothing else. -/
theorem writeAtomically_of_takesFile (h : w.tree.TakesFile (w.cwd ++ dir.steps) s) :
    host.writeAtomically dir target bytes w
      = (.ok (), { w with tree := w.tree.put (w.cwd ++ dir.steps) s (.file bytes) }) := by
  obtain ⟨name, hn, htemp⟩ := createTemporary_of_directory hd h.directory hsize
  rw [writeAtomically_of_createTemporary _ _ h.directory hn htemp, rename_put hp hs h hn]

/-- A directory keeps its place, and the new file is gone. -/
theorem writeAtomically_of_directory
    (h : w.tree.get? (w.cwd ++ dir.steps ++ [s]) = some .directory) :
    host.writeAtomically dir target bytes w
      = (.error (.transfer target (.system .isDirectory)), w) := by
  have hdir := directory_of_append (List.cons_ne_nil s []) h
  obtain ⟨name, hn, htemp⟩ := createTemporary_of_directory hd hdir hsize
  have hstays : (w.tree.put (w.cwd ++ dir.steps) name (.file bytes)).get?
      (w.cwd ++ dir.steps ++ [s]) = some .directory := by
    rw [get?_put (isFree_of_none hdir hn), if_neg, h]
    intro he
    rw [he, hn] at h
    cases h
  rw [writeAtomically_of_createTemporary _ _ hdir hn htemp, rename_of_directory hp hs hstays]

end

/-- The error of a write whose target is refused: it is not opened, or not replaced. -/
def refusedTarget (mode : WriteMode) (target : Path) (e : Errno) : WriteError :=
  match mode with
  | .truncate => .opening target (.system e)
  | .atomic => .transfer target (.system e)

section

variable {target : Path} {s : String} {bytes : List UInt8} {mode : WriteMode}
variable (hd : dir.Fits) (hp : target.Fits) (hs : target.steps = dir.steps ++ [s])
  (hslash : target.endsInSlash = false)
  (hsize : mode = .atomic →
    (temporaryPath w.cwd dir (temporaryName 0)).text.utf8ByteSize < pathLimit)

include hd hp hs hslash hsize

/-- Either way, the content stands at the target and nothing else has changed. -/
theorem writeFile_of_takesFile (h : w.tree.TakesFile (w.cwd ++ dir.steps) s) :
    host.writeFile mode dir target bytes w
      = (.ok (), { w with tree := w.tree.put (w.cwd ++ dir.steps) s (.file bytes) }) := by
  cases mode with
  | truncate => exact writeTruncating_of_takesFile hp hs hslash h
  | atomic => exact writeAtomically_of_takesFile hd hp hs (hsize rfl) h

/-- Either way, a directory keeps its place and nothing has changed. -/
theorem writeFile_of_directory (h : w.tree.get? (w.cwd ++ dir.steps ++ [s]) = some .directory) :
    host.writeFile mode dir target bytes w
      = (.error (refusedTarget mode target .isDirectory), w) := by
  cases mode with
  | truncate => exact writeTruncating_of_directory hp hs hslash h
  | atomic => exact writeAtomically_of_directory hd hp hs (hsize rfl) h

omit hp hs hslash in
/-- Either way, nothing is written at a path that the system does not take. -/
theorem writeFile_of_refusal? {e : Errno}
    (hdir : w.tree.get? (w.cwd ++ dir.steps) = some .directory) (h : target.refusal? = some e) :
    host.writeFile mode dir target bytes w = (.error (refusedTarget mode target e), w) := by
  cases mode with
  | truncate =>
    have hcreate : w.tree.create w.cwd target = .error e := by
      rw [create, reach_of_refusal? h]
      rfl
    exact bind_of_error (attempt_of_error (create_of_error hcreate))
  | atomic =>
    obtain ⟨name, hn, htemp⟩ := createTemporary_of_directory hd hdir (hsize rfl)
    show host.writeAtomically dir target bytes w = _
    rw [writeAtomically_of_createTemporary _ _ hdir hn htemp, rename, lastStep_of_refusal? h]
    rfl

end

end ProtoScribe.World
