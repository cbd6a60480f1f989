import ProtoScribe.Proofs.Write.Admits
import ProtoScribe.Proofs.Write.Confined

/-!
# How writes end

The whole write in any tree. One that is refused leaves more directories at most, and nothing at all
if the name is what is refused (`grown_of_writeText`). One that succeeds in a tree without links has
put the text into a directory that took it (`placed_of_writeText`). In any tree one file has the text
then, to which the path leads, and whatever else is new is a directory (`delivers_of_persist`).
-/

namespace ProtoScribe

namespace World

open FileTree ProtoScribe.Path

variable {w : World} {mode : WriteMode} {name text : String} {dir : Path} {d : Location}

/-! ## The directory -/

/-- Directories are made as far as they are missing, and the path leads to the last of them if that
succeeds. -/
theorem ends_ensureDirectory (w : World) (dir : Path) :
    Ends (host.ensureDirectory dir) w
      (fun _ w' => w.Grows (dir :: dir.parents) w' ∧
        (dir.text ≠ "" → ∃ d, w'.tree.Leads w.cwd dir d))
      (fun _ => w.Grows (dir :: dir.parents)) := by
  cases hentry : w.tree.entryAt? w.cwd dir with
  | some e =>
    by_cases hd : e = .directory
    · subst hd
      exact .of_ok (ensureDirectory_of_directory hentry)
        ⟨.refl w _, fun _ => exists_leads_of_entryAt? hentry⟩
    · exact .of_error (ensureDirectory_of_occupied hentry hd) (.refl w _)
  | none =>
    let reported : World := { w with events := w.events ++ [.creatingDirectory dir] }
    have hgrows {w' : World} (h : reported.Grows (dir :: dir.parents) w') :
        w.Grows (dir :: dir.parents) w' := ⟨h.cwd, h.tree⟩
    refine .of_eq (ensureDirectory_of_none hentry) (.attempt ?_)
    refine (ends_makeDirectories (dir :: dir.parents) reported).mono (fun _ w' h => ?_)
      fun _ _ => hgrows
    exact ⟨hgrows h.1, h.2 dir rfl⟩

/-! ## Writes that are refused -/

theorem grows_of_persist {bytes : List UInt8} {w' : World} {e : WriteError}
    (h : host.persist mode (protoFileName name) dir (dir.join ⟨protoFileName name⟩) bytes w
      = (.error e, w')) :
    w.Grows (dir :: dir.parents) w' ∧ ('/' ∈ name.toList → w' = w) := by
  by_cases hname : '/' ∈ name.toList
  · have hf := not_isFileName_of_slash hname
    cases (persist_of_not_fileName _ hf).symm.trans h
    exact ⟨.refl w _, fun _ => rfl⟩
  refine ⟨?_, fun hslash => absurd hslash hname⟩
  have hf := isFileName_protoFileName_iff.mpr hname
  cases hdecode : Utf8.decode bytes with
  | error fault =>
    cases (persist_of_not_text _ hf hdecode).symm.trans h
    exact .refl w _
  | ok text =>
    rw [persist_of_text _ hf hdecode] at h
    rcases (ends_ensureDirectory w dir).cases with ⟨_, w₁, hrun, hgrows, -⟩ | ⟨e, w₁, hrun, hgrows⟩
    · rw [bind_of_ok hrun] at h
      rw [writeFile_of_error hname h]
      exact hgrows
    · cases (bind_of_error hrun).symm.trans h
      exact hgrows

/-- A write that is refused leaves directories that its path or one above it leads to, and nothing
else; and not even those if its name is no name of a file. -/
theorem grown_of_writeText {e : WriteError}
    (h : (host.writeText mode name dir text w).1 = .error e) :
    Grown w.cwd (dir :: dir.parents) w.tree (host.writeText mode name dir text w).2.tree ∧
      ('/' ∈ name.toList → (host.writeText mode name dir text w).2.tree = w.tree) := by
  cases hrun : host.persist mode (protoFileName name) dir (dir.join ⟨protoFileName name⟩)
    (Utf8.encode text) w with
  | mk outcome w' =>
    cases outcome with
    | ok => cases (writeBytes_of_ok hrun).1.symm.trans h
    | error e' =>
      obtain ⟨hgrows, hslash⟩ := grows_of_persist hrun
      rw [Host.writeText, (writeBytes_of_error hrun).2]
      exact ⟨hgrows.tree, fun hname => by rw [hslash hname]⟩

/-! ## Causes -/

section Causes

variable {target : Path} {bytes : List UInt8}

/-- The errors of the steps behind the checks: what the system refuses, or something else that has
the directory's place. -/
inductive FromStorage (dir target : Path) : WriteError → Prop where
  | occupied : FromStorage dir target (.directory dir .occupied)
  | directory (e : Errno) : FromStorage dir target (.directory dir (.system e))
  | opening (e : Errno) : FromStorage dir target (.opening target (.system e))
  | transfer (e : Errno) : FromStorage dir target (.transfer target (.system e))

/-- A program that fails for want of storage only. -/
def FailsInStorage {α : Type} (dir target : Path) (x : ExceptT WriteError (StateM World) α) : Prop :=
  ∀ w, Ends x w (fun _ _ => True) fun e _ => FromStorage dir target e

theorem FailsInStorage.bind {α β : Type} {x : ExceptT WriteError (StateM World) α}
    {f : α → ExceptT WriteError (StateM World) β} (h : FailsInStorage dir target x)
    (hf : ∀ a, FailsInStorage dir target (f a)) : FailsInStorage dir target (x >>= f) :=
  fun w => (h w).andThen hf

/-- What the system refuses is refused for its own reason. -/
theorem failsInStorage_attempt {α : Type} {action : StateM World (Except Errno α)}
    {error : StorageFault → WriteError} (herror : ∀ e, FromStorage dir target (error (.system e))) :
    FailsInStorage dir target (Host.attempt action error) := by
  intro w
  cases hrun : action w with
  | mk outcome w' =>
    cases outcome with
    | ok a => exact .of_ok (attempt_of_ok hrun) trivial
    | error e => exact .of_error (attempt_of_error hrun) (herror e)

theorem failsInStorage_ensureDirectory (dir target : Path) :
    FailsInStorage dir target (host.ensureDirectory dir) := by
  intro w
  cases hentry : w.tree.entryAt? w.cwd dir with
  | some e =>
    by_cases hd : e = .directory
    · exact .of_ok (ensureDirectory_of_directory (hd ▸ hentry)) trivial
    · exact .of_error (ensureDirectory_of_occupied hentry hd) .occupied
  | none => exact (failsInStorage_attempt .directory _).of_eq (ensureDirectory_of_none hentry)

theorem failsInStorage_writeFile (mode : WriteMode) (dir target : Path) (bytes : List UInt8) :
    FailsInStorage dir target (host.writeFile mode dir target bytes) := by
  have transfers (action : StateM World (Except Errno Unit)) :
      FailsInStorage dir target (Host.attempt action (.transfer target)) :=
    failsInStorage_attempt .transfer
  have opens (action : StateM World (Except Errno OpenFile)) :
      FailsInStorage dir target (Host.attempt action (.opening target)) :=
    failsInStorage_attempt .opening
  cases mode with
  | truncate =>
    exact (opens _).bind fun f => (transfers _).bind fun _ => (transfers _).bind fun _ => transfers _
  | atomic =>
    refine (opens _).bind fun f w => .tryCatch ?_
    have fill : FailsInStorage dir target (host.fillAndRename f target bytes) :=
      (transfers _).bind fun _ => (transfers _).bind fun _ => (transfers _).bind fun _ => transfers _
    exact (fill w).mono (fun _ _ => id) fun e w' he => .of_error rfl he

/-- Where the name and the content pass, only storage can refuse a write. -/
theorem fromStorage_of_writeBytes {text : String} {e : WriteError} (hname : '/' ∉ name.toList)
    (hbytes : Utf8.encode text = bytes) (h : (host.writeBytes mode name dir bytes w).1 = .error e) :
    FromStorage dir (dir.join ⟨protoFileName name⟩) e := by
  have hpersist := persist_of_name hname hbytes mode dir (dir.join ⟨protoFileName name⟩) w
  have hfails := (failsInStorage_ensureDirectory dir (dir.join ⟨protoFileName name⟩)).bind fun _ =>
    failsInStorage_writeFile mode dir (dir.join ⟨protoFileName name⟩) bytes
  rcases (hfails w).cases with ⟨_, w', hrun, -⟩ | ⟨e', w', hrun, he'⟩
  · cases (writeBytes_of_ok (hpersist.trans hrun)).1.symm.trans h
  · cases (writeBytes_of_error (hpersist.trans hrun)).1.symm.trans h
    exact he'

/-- Only a name with a slash is blamed for not being a file's. -/
theorem slash_of_notFileName {e : WriteError}
    (h : (host.writeText mode name dir text w).1 = .error e) (he : e.source = some .notFileName) :
    '/' ∈ name.toList := by
  by_contra hname
  cases fromStorage_of_writeBytes hname rfl h <;> cases he

end Causes

/-! ## Writes that succeed -/

/-- Into a directory that takes the file, a text is written. -/
theorem writeText_of_admits (hname : '/' ∉ name.toList) (h : w.tree.Leads w.cwd dir d)
    (hlink : ∀ target, w.tree.get? (d ++ [protoFileName name]) ≠ some (.link target))
    (ha : w.Admits mode dir d (protoFileName name)) (text : String) :
    (host.writeText mode name dir text w).1 = .ok (dir.join ⟨protoFileName name⟩) ∧
      (host.writeText mode name dir text w).2.tree
        = w.tree.put d (protoFileName name) (.file (Utf8.encode text)) := by
  obtain ⟨w', hrun, hcwd, htree⟩ := ensureDirectory_of_leads h
  have hadmits : w'.Admits mode dir d (protoFileName name) :=
    ⟨ha.name, ha.path, htree ▸ ha.place, htree ▸ ha.noDevice, hcwd ▸ ha.temporary⟩
  have hwrite := writeFile_of_admits (htree ▸ hcwd ▸ h) hname (htree ▸ hlink) hadmits
    (Utf8.encode text)
  have hpersist := persist_of_name hname (rfl : Utf8.encode text = _) mode dir
    (dir.join ⟨protoFileName name⟩) w
  rw [bind_of_ok hrun, hwrite] at hpersist
  obtain ⟨hok, hout⟩ := writeBytes_of_ok hpersist
  exact ⟨hok, hout.trans (by rw [htree])⟩

/-- Whoever has written a file by its name alone stands in a directory. -/
theorem directory_of_create {p : Path} {f : OpenFile} {t' : FileTree} (hempty : p.text = "")
    (hname : '/' ∉ name.toList)
    (h : w.tree.create w.cwd (p.join ⟨protoFileName name⟩) = .ok (f, t')) :
    w.tree.get? w.cwd = some .directory := by
  obtain rfl : p = ⟨""⟩ := by rw [← hempty]
  have hslash := slash_mem_protoFileName.not.mpr hname
  have hsteps := walkSteps_join (p := ⟨""⟩) hslash (isStepName_protoFileName name).nonempty
  rcases w.tree.create_cases w.cwd (Path.join ⟨""⟩ ⟨protoFileName name⟩) with
    ⟨e, he⟩ | ⟨reached, -, -, hreach, -⟩
  · cases he.symm.trans h
  by_contra hcwd
  obtain ⟨-, -, hwalk⟩ := reach_eq_ok_iff.mp hreach
  rw [hsteps, isAbsolute_join hslash, show steps ⟨""⟩ = [] from rfl, List.nil_append] at hwalk
  cases (walk_cons_of_not_directory hcwd).symm.trans hwalk

/-- A file has been written into a directory that the path leads to. -/
theorem exists_leads_of_writeFile {bytes : List UInt8} {w' : World} (hname : '/' ∉ name.toList)
    (hleads : dir.text ≠ "" → ∃ d, w.tree.Leads w.cwd dir d)
    (h : host.writeFile mode dir (dir.join ⟨protoFileName name⟩) bytes w = (.ok (), w')) :
    ∃ d, w.tree.Leads w.cwd dir d := by
  by_contra hno
  have hempty : dir.text = "" := by
    by_contra hne
    exact hno (hleads hne)
  cases mode with
  | truncate =>
    rcases writeTruncating_cases w (dir.join ⟨protoFileName name⟩) bytes with
      ⟨f, -, hcreate, -⟩ | ⟨e, he⟩
    · exact hno ⟨w.cwd, by rw [if_pos hempty], directory_of_create hempty hname hcreate⟩
    · cases he.symm.trans h
  | atomic =>
    obtain ⟨e, he⟩ := writeAtomically_of_not_leads (not_exists.mp hno)
      (dir.join ⟨protoFileName name⟩) bytes
    cases he.symm.trans h

theorem cwd_writeBytes {bytes : List UInt8} {outcome : Except WriteError Unit} {w' : World}
    (h : host.persist mode (protoFileName name) dir (dir.join ⟨protoFileName name⟩) bytes w
      = (outcome, w')) : (host.writeBytes mode name dir bytes w).2.cwd = w'.cwd := by
  unfold Host.writeBytes
  rw [bind_apply]
  simp only [ExceptT.run, h]
  cases outcome <;> rfl

/-- What a write into a tree without links has come to: directories were made, and the last of them
took the file. -/
structure Placed (w : World) (mode : WriteMode) (name : String) (dir : Path) (text : String)
    (d : Location) (w₁ : World) (tree : FileTree) : Prop where
  slash : '/' ∉ name.toList
  grows : w.Grows (dir :: dir.parents) w₁
  leads : w₁.tree.Leads w.cwd dir d
  admits : w₁.Admits mode dir d (protoFileName name)
  tree : tree = w₁.tree.put d (protoFileName name) (.file (Utf8.encode text))

namespace Placed

variable {w₁ : World} {tree : FileTree} (h : Placed w mode name dir text d w₁ tree)
  (hl : w.tree.NoLinks)

include h

theorem isFree : w₁.tree.IsFree d (protoFileName name) := ⟨h.leads.directory, h.admits.place⟩

theorem get?_place : tree.get? (d ++ [protoFileName name]) = some (.file (Utf8.encode text)) := by
  rw [h.tree, get?_put h.isFree, if_pos rfl]

/-- The file is there, and directories; all else is as it was. -/
theorem get?_cases {l : Location} {e : Entry} (hsome : tree.get? l = some e) :
    l = d ++ [protoFileName name] ∨ w.tree.get? l = some e ∨ e = .directory := by
  rw [h.tree, get?_put h.isFree] at hsome
  split at hsome
  · next hl => exact .inl hl
  · cases hold : w.tree.get? l with
    | none => exact .inr (.inr (h.grows.tree.newer l e hold hsome).1)
    | some e' => exact .inr (.inl ((h.grows.tree.older l e' hold).symm.trans hsome))

/-- Whatever stood elsewhere stands there still. -/
theorem get?_of_some {l : Location} {e : Entry} (hsome : w.tree.get? l = some e)
    (hne : l ≠ d ++ [protoFileName name]) : tree.get? l = some e := by
  rw [h.tree, get?_put h.isFree, if_neg hne]
  exact h.grows.tree.older l e hsome

include hl

theorem keeps_grown : w₁.tree.Keeps tree := by
  rw [h.tree]
  exact h.admits.keeps_put (h.grows.tree.noLinks hl _) _

/-- Whatever stood in the tree has kept its place. -/
theorem keeps : w.tree.Keeps tree := h.grows.tree.older.keeps.trans (h.keeps_grown hl)

theorem noLinks : tree.NoLinks := by
  rw [h.tree]
  exact noLinks_put (h.grows.tree.noLinks hl) nofun

/-- The target's path leads to the file. -/
theorem follow : tree.follow w.cwd (dir.join ⟨protoFileName name⟩)
    = .ok (d ++ [protoFileName name]) := by
  have hs : FitsStep (protoFileName name) := ⟨isStepName_protoFileName name, h.admits.name⟩
  exact h.leads.follow_join (h.keeps_grown hl) (slash_mem_protoFileName.not.mpr h.slash) hs
    h.admits.path h.get?_place (by simp)

theorem readBytes : tree.readBytes w.cwd (dir.join ⟨protoFileName name⟩)
    = .ok (Utf8.encode text) := by
  rw [FileTree.readBytes, h.follow hl]
  simp only [bind, Except.bind, h.get?_place]
  rfl

/-- The directory takes the same file again, and nothing changes. -/
theorem again {w' : World} (hcwd : w'.cwd = w.cwd) (htree : w'.tree = tree) :
    (host.writeText mode name dir text w').1 = .ok (dir.join ⟨protoFileName name⟩) ∧
      (host.writeText mode name dir text w').2.tree = tree := by
  have hleads : w'.tree.Leads w'.cwd dir d := by
    rw [htree, hcwd]
    exact h.leads.keep (h.keeps_grown hl)
  have hplace : w'.tree.get? (d ++ [protoFileName name]) = some (.file (Utf8.encode text)) := by
    rw [htree, h.get?_place]
  have hadmits : w'.Admits mode dir d (protoFileName name) := by
    refine ⟨h.admits.name, h.admits.path, by simp [hplace], by simp [hplace], fun hm => ?_⟩
    rw [hcwd, ← h.grows.cwd]
    exact h.admits.temporary hm
  obtain ⟨hok, hout⟩ := writeText_of_admits h.slash hleads (by simp [hplace]) hadmits text
  refine ⟨hok, hout.trans ?_⟩
  rw [htree, h.tree, put_put h.isFree (by simp)]

end Placed

/-- A write that succeeds returns the target's path and has placed the text. -/
theorem placed_of_writeText (hl : w.tree.NoLinks) {target : Path}
    (h : (host.writeText mode name dir text w).1 = .ok target) :
    target = dir.join ⟨protoFileName name⟩ ∧
      (host.writeText mode name dir text w).2.cwd = w.cwd ∧
      ∃ d w₁, Placed w mode name dir text d w₁ (host.writeText mode name dir text w).2.tree := by
  have hname : '/' ∉ name.toList := by
    intro hslash
    cases (writeBytes_of_slash hslash).1.symm.trans h
  cases hrun : host.persist mode (protoFileName name) dir (dir.join ⟨protoFileName name⟩)
    (Utf8.encode text) w with
  | mk outcome w' =>
    cases outcome with
    | error e => cases (writeBytes_of_error hrun).1.symm.trans h
    | ok =>
      obtain ⟨hok, htree⟩ := writeBytes_of_ok hrun
      have hcwd := cwd_writeBytes hrun
      cases hok.symm.trans h
      refine ⟨rfl, ?_⟩
      rw [persist_of_name hname rfl] at hrun
      rcases (ends_ensureDirectory w dir).cases with
        ⟨_, w₁, hdir, hgrows, hleads⟩ | ⟨e, w₁, hdir, -⟩
      case inr => cases (bind_of_error hdir).symm.trans hrun
      rw [bind_of_ok hdir] at hrun
      rw [← hgrows.cwd] at hleads
      obtain ⟨d, hd⟩ := exists_leads_of_writeFile hname hleads hrun
      have hlink (target : Path) : w₁.tree.get? (d ++ [protoFileName name]) ≠ some (.link target) :=
        hgrows.tree.noLinks hl _ target
      have hadmits := admits_of_writeFile hd hname hlink hrun
      have hput := (writeFile_of_admits hd hname hlink hadmits (Utf8.encode text)).symm.trans hrun
      cases hput
      exact ⟨hcwd.trans hgrows.cwd, d, w₁, hname, hgrows, hgrows.cwd ▸ hd, hadmits, htree⟩

/-! ## Writes that succeed in any tree -/

end World

open FileTree ProtoScribe.Path

/-- A tree that has gained a file through a path. The path leads to the file, unless the file has
replaced a link: the path may have led through that link itself, as `a.proto/../a.proto` may, and
then it leads nowhere any more. -/
structure FileTree.Delivers (t : FileTree) (cwd : Location) (mode : WriteMode) (p : Path)
    (l : Location) (bytes : List UInt8) (t' : FileTree) : Prop extends t.Gains l bytes t' where
  arrives : t'.follow cwd p = .ok l ∧ t'.readBytes cwd p = .ok bytes ∨
    mode = .atomic ∧ p.steps.getLast? = l.getLast? ∧ ∃ target, t.get? l = some (.link target)

theorem FileTree.Gains.delivers {t t' : FileTree} {cwd l : Location} {mode : WriteMode} {p : Path}
    {bytes : List UInt8} (h : t.Gains l bytes t') (hf : t'.follow cwd p = .ok l) :
    t.Delivers cwd mode p l bytes t' where
  toGains := h
  arrives := by
    refine .inl ⟨hf, ?_⟩
    rw [readBytes, hf]
    simp only [bind, Except.bind, h.place]
    rfl

namespace World

variable {w : World} {mode : WriteMode} {name text : String} {dir : Path}

/-- A write beside the target that succeeds in any tree has delivered the text. -/
theorem delivers_of_writeAtomically {w₁ w' : World} (hgrows : w.Grows (dir :: dir.parents) w₁)
    (hname : '/' ∉ name.toList) {d : Location} (hd : w₁.tree.Leads w.cwd dir d)
    (h : host.writeAtomically dir (dir.join ⟨protoFileName name⟩) (Utf8.encode text) w₁
      = (.ok (), w')) :
    w.tree.Delivers w.cwd .atomic (dir.join ⟨protoFileName name⟩) (d ++ [protoFileName name])
      (Utf8.encode text) w'.tree := by
  have hslash := slash_mem_protoFileName.not.mpr hname
  have hd' : w₁.tree.Leads w₁.cwd dir d := hgrows.cwd.symm ▸ hd
  have hadmits := admits_of_writeAtomically hd' hname h
  have hfree : w₁.tree.IsFree d (protoFileName name) := ⟨hd.directory, hadmits.place⟩
  rcases writeAtomically_cases hd' hname (Utf8.encode text) with hok | ⟨e, he⟩
  case inr => cases he.symm.trans h
  cases hok.symm.trans h
  have hgains : w.tree.Gains (d ++ [protoFileName name]) (Utf8.encode text) _ :=
    hgrows.tree.gains_put hfree
  by_cases hlink : ∃ target, w₁.tree.get? (d ++ [protoFileName name]) = some (.link target)
  · -- The link is older than the directories that have been made.
    obtain ⟨target, he⟩ := hlink
    refine ⟨hgains, .inr ⟨rfl, ?_, target, ?_⟩⟩
    · rw [steps_target hname, List.getLast?_concat, List.getLast?_concat]
    · cases hold : w.tree.get? (d ++ [protoFileName name]) with
      | none => cases (hgrows.tree.newer _ _ hold he).1
      | some e => exact (hgrows.tree.older _ e hold).symm.trans he
  · have hkeeps := hadmits.keeps_put (fun target he => hlink ⟨target, he⟩) (Utf8.encode text)
    have hs : FitsStep (protoFileName name) := ⟨isStepName_protoFileName name, hadmits.name⟩
    exact hgains.delivers (hd.follow_join hkeeps hslash hs hadmits.path hgains.place (by simp))

/-- Links and devices or not, a write that succeeds has delivered the text. -/
theorem delivers_of_persist {w' : World}
    (h : host.persist mode (protoFileName name) dir (dir.join ⟨protoFileName name⟩)
      (Utf8.encode text) w = (.ok (), w')) :
    ∃ l, w.tree.Delivers w.cwd mode (dir.join ⟨protoFileName name⟩) l (Utf8.encode text)
      w'.tree := by
  have hname : '/' ∉ name.toList := by
    intro hslash
    cases (persist_of_not_fileName _ (not_isFileName_of_slash hslash)).symm.trans h
  rw [persist_of_name hname rfl] at h
  rcases (ends_ensureDirectory w dir).cases with
    ⟨_, w₁, hrun, hgrows, hleads⟩ | ⟨e, w₁, hrun, -⟩
  case inr => cases (bind_of_error hrun).symm.trans h
  rw [bind_of_ok hrun] at h
  cases mode with
  | truncate =>
    rcases writeTruncating_cases w₁ (dir.join ⟨protoFileName name⟩) (Utf8.encode text) with
      ⟨f, htakes, hcreate, hok⟩ | ⟨e, he⟩
    · cases hok.symm.trans h
      rw [hgrows.cwd] at hcreate
      exact ⟨_, (hgrows.tree.gains_put htakes.isFree).delivers (follow_of_create hcreate htakes _)⟩
    · cases he.symm.trans h
  | atomic =>
    rw [← hgrows.cwd] at hleads
    have hwrite : host.writeFile .atomic dir (dir.join ⟨protoFileName name⟩) (Utf8.encode text) w₁
        = (.ok (), w') := h
    obtain ⟨d, hd⟩ := exists_leads_of_writeFile hname hleads hwrite
    exact ⟨_, delivers_of_writeAtomically hgrows hname (hgrows.cwd ▸ hd) h⟩

end World

end ProtoScribe
