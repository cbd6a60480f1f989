import ProtoScribe.Proofs.Storage.Directories
import ProtoScribe.Proofs.Write.Ends

/-!
# What decides a write

A write into a tree without links, as a function of what the tree holds: the error that it ends
with, if it does (`Request.error?`), and what the tree holds afterwards (`Request.leaves`).
Nothing is assumed of the characters and the lengths of names and paths, and devices may stand
anywhere.

Where that function looks is plain to see from it, so that writes can be compared without running
them. That the write does as it says is `write_eq`, put together from its steps.
-/

namespace ProtoScribe

open ProtoScribe.Path

/-- What is to be written, where and how. -/
structure Request where
  mode : WriteMode
  name : String
  dir : Path
  bytes : List UInt8
  deriving DecidableEq, Repr

namespace Request

variable (g : Holdings) (cwd : Location) (r : Request)

/-- The path of the file. -/
def target : Path := r.dir.join ⟨protoFileName r.name⟩

/-- The place of the file. -/
def place : Location := cwd ++ r.dir.steps ++ [protoFileName r.name]

/-- Does what is asked for. -/
def write : StateM World (Except WriteError Path) :=
  World.host.writeBytes r.mode r.name r.dir r.bytes

/-! ## Refusals -/

/-- A request that is refused before storage is asked for anything. -/
def premature? : Option WriteError :=
  if '/' ∈ r.name.toList then some (.opening r.target .notFileName)
  else
    match Utf8.decode r.bytes with
    | .error fault => some (.encoding r.target fault)
    | .ok _ => none

/-- Why the directory cannot be had, if it cannot. -/
def directoryFault? : Option StorageFault :=
  match r.dir.refusal? with
  | some e => some (.system e)
  | none => (g.obstacle? cwd r.dir.steps).map fun e =>
    -- With a slash at its end, a path does not lead to what is in the way.
    if e = .alreadyExists ∧ r.dir.endsInSlash = false then .occupied else .system e

/-- The names along which directories are made. -/
def made : List String :=
  if r.dir.refusal? = none then g.front cwd r.dir.steps else []

/-- Why no file can have the path and the name, if none can. -/
def refusal? : Option Errno := r.target.refusalAt? (protoFileName r.name)

/-- Why the file cannot be written in its directory, whose entry of its name is `held`. -/
def fileError? (held : Option Entry) : Option WriteError :=
  match r.mode with
  | .truncate =>
    match r.refusal? with
    | some e => some (.opening r.target (.system e))
    | none =>
      match held with
      | some .directory => some (.opening r.target (.system .isDirectory))
      | some (.device full) =>
        some (.transfer r.target
          (.system (if full ∧ r.bytes ≠ [] then .noSpace else .invalidArgument)))
      | _ => none
  | .atomic =>
    if pathLimit ≤ (FileTree.temporaryPath cwd r.dir (temporaryName 0)).text.utf8ByteSize then
      some (.opening r.target (.system .nameTooLong))
    else
      match r.refusal? with
      | some e => some (.transfer r.target (.system e))
      | none =>
        if held = some .directory then some (.transfer r.target (.system .isDirectory)) else none

/-- The error of the write, if it fails. -/
def error? : Option WriteError :=
  r.premature?.or <| ((r.directoryFault? g cwd).map (.directory r.dir)).or <|
    r.fileError? cwd (g (r.place cwd))

/-- What the write returns. -/
def result : Except WriteError Path := (r.error? g cwd).elim (.ok r.target) .error

/-! ## Traces -/

/-- A place of a directory that is made, or has been there. -/
def IsOnWay (l : Location) : Prop :=
  r.premature? = none ∧ ∃ q, q <+: r.made g cwd ∧ l = cwd ++ q

instance (l : Location) : Decidable (r.IsOnWay g cwd l) :=
  decidable_of_iff (r.premature? = none ∧ ∃ q ∈ (r.made g cwd).inits, l = cwd ++ q) <| by
    simp [IsOnWay]

/-- What the tree holds afterwards. -/
def leaves : Holdings := fun l =>
  if r.error? g cwd = none ∧ l = r.place cwd then some (.file r.bytes)
  else if r.IsOnWay g cwd l then some .directory
  else g l

variable {g cwd r}

theorem leaves_of_error {e : WriteError} (h : r.error? g cwd = some e) (l : Location) :
    r.leaves g cwd l = if r.IsOnWay g cwd l then some .directory else g l := by
  simp [leaves, h]

theorem leaves_of_none (h : r.error? g cwd = none) (l : Location) :
    r.leaves g cwd l =
      if l = r.place cwd then some (.file r.bytes)
      else if r.IsOnWay g cwd l then some .directory
      else g l := by
  simp [leaves, h]

theorem error?_of_premature? {e : WriteError} (h : r.premature? = some e) :
    r.error? g cwd = some e := by
  rw [error?, h, Option.some_or]

/-- A request that is refused at once leaves everything as it is. -/
theorem leaves_of_premature? {e : WriteError} (h : r.premature? = some e) : r.leaves g cwd = g := by
  funext l
  rw [leaves_of_error (error?_of_premature? h), if_neg]
  rintro ⟨hnone, -⟩
  cases h.symm.trans hnone

theorem slash_of_premature? (h : r.premature? = none) : '/' ∉ r.name.toList := by
  unfold premature? at h
  split at h
  · cases h
  · next hname => exact hname

/-- Where there is no fault with the directory, its path fits and all of it is made. -/
theorem made_of_directoryFault? (hp : r.dir.IsPlain) (h : r.directoryFault? g cwd = none) :
    r.dir.Fits ∧ r.made g cwd = r.dir.steps := by
  unfold directoryFault? at h
  unfold made
  split at h
  · cases h
  next hrefusal =>
  rw [if_pos hrefusal]
  rcases g.front_cases cwd r.dir.steps with hall | ⟨s, rest, hcons, -⟩
  · refine ⟨⟨hp, refusal?_eq_none_iff.mp hrefusal, fun s hs => ?_⟩, hall⟩
    exact Holdings.size_of_mem_front (hall ▸ hs)
  · rw [Holdings.obstacle?_of_cons hcons] at h
    cases h

/-- A file that is written has a path and a name that the system takes, and no directory has its
place. -/
theorem of_fileError? {held : Option Entry} (h : r.fileError? cwd held = none) :
    r.refusal? = none ∧ held ≠ some .directory := by
  unfold fileError? at h
  cases hm : r.mode with
  | truncate =>
    rw [hm] at h
    dsimp only at h
    split at h
    · cases h
    · next hrefusal =>
      refine ⟨hrefusal, ?_⟩
      rintro rfl
      cases h
  | atomic =>
    rw [hm] at h
    dsimp only at h
    split at h
    · cases h
    split at h
    · cases h
    next hrefusal =>
    split at h
    · cases h
    · next hdir => exact ⟨hrefusal, hdir⟩

/-- A request that succeeds has passed every stage. -/
theorem error?_eq_none_iff : r.error? g cwd = none ↔
    r.premature? = none ∧ r.directoryFault? g cwd = none ∧
      r.fileError? cwd (g (r.place cwd)) = none := by
  simp [error?, Option.or_eq_none_iff]

/-- The path of a file that is written fits. -/
theorem fits_target_of_error? (hp : r.dir.IsPlain) (h : r.error? g cwd = none) :
    r.target.Fits := by
  obtain ⟨hpremature, hfault, hfile⟩ := error?_eq_none_iff.mp h
  have hname := slash_of_premature? hpremature
  obtain ⟨hu, hlength⟩ := refusalAt?_eq_none_iff.mp (of_fileError? hfile).1
  refine ⟨hp.join (slash_mem_protoFileName.not.mpr hname) (isStepName_protoFileName r.name),
    hu, ?_⟩
  rw [target, steps_target hname, List.forall_mem_append]
  exact ⟨(made_of_directoryFault? hp hfault).1.sizes, by simpa using hlength⟩

end Request

namespace World

open FileTree Holdings Request

variable {w : World} {r : Request} {d : Location}

/-! ## The directory -/

/-- A directory is had unless its path or its names say why not, and it is made as far as they are
clear. -/
theorem ensureDirectory_eq (hl : w.tree.NoLinks) (hcwd : w.tree.get? w.cwd = some .directory)
    (hp : r.dir.IsPlain) :
    ∃ w', host.ensureDirectory r.dir w
        = ((r.directoryFault? w.tree.get? w.cwd).elim (.ok ()) (.error ∘ .directory r.dir), w') ∧
      w'.cwd = w.cwd ∧ w.tree.MadeAlong w'.tree w.cwd (r.made w.tree.get? w.cwd) := by
  unfold directoryFault? made
  cases hrefusal : r.dir.refusal?
  case some e =>
    rw [if_neg (by simp)]
    obtain ⟨w', hrun, hcwd', htree⟩ := ensureDirectory_of_refusal? (w := w) hrefusal
    refine ⟨w', hrun, hcwd', ?_⟩
    rw [htree]
    exact madeAlong_self (by rw [List.append_nil, hcwd])
  have hu := refusal?_eq_none_iff.mp hrefusal
  rw [if_pos rfl]
  cases hentry : w.tree.entryAt? w.cwd r.dir with
  | none =>
    let reported : World := { w with events := w.events ++ [.creatingDirectory r.dir] }
    obtain ⟨tree, hrun, hmade, -⟩ := makesFront (w := reported) hl hcwd hp hu
    refine ⟨{ reported with tree }, (ensureDirectory_of_none hentry).trans ?_, rfl, hmade⟩
    simp only [reported] at hrun
    cases hobstacle : obstacle? w.tree.get? w.cwd r.dir.steps with
    | none =>
      rw [hobstacle] at hrun
      exact attempt_of_ok hrun
    | some e =>
      rw [hobstacle] at hrun
      have hother : ¬(e = .alreadyExists ∧ r.dir.endsInSlash = false) := by
        rintro ⟨rfl, hslash⟩
        obtain ⟨hsizes, e, he, hne⟩ := entry_of_obstacle? hobstacle
        have hfits : r.dir.Fits := ⟨hp, hu, hsizes⟩
        have hempty : r.dir.text ≠ "" := by
          intro hempty
          rw [(steps_eq_nil_iff hp.relative).mpr hempty, List.append_nil, hcwd] at he
          exact hne (Option.some.inj he).symm
        have hsome := (entryAt?_eq_some_iff hl hp).mpr ⟨hempty, hfits, he, by simp [hslash]⟩
        cases hentry.symm.trans hsome
      simp only [Option.map_some, if_neg hother]
      exact attempt_of_error hrun
  | some e =>
    obtain ⟨hne, hfits, he, hslash⟩ := (entryAt?_eq_some_iff hl hp).mp hentry
    by_cases hd : e = .directory
    · subst hd
      have hfront := front_of_directory hfits.sizes he
      refine ⟨w, ?_, rfl, hfront.symm ▸ madeAlong_self he⟩
      rw [ensureDirectory_of_directory hentry, obstacle?_of_front hfront]
      rfl
    · obtain ⟨hobstacle, hfront⟩ := obstacle?_of_entry hfits.sizes hcwd he hd
      have hplain : r.dir.endsInSlash = false := by
        rw [← Bool.not_eq_true]
        exact mt hslash hd
      refine ⟨w, ?_, rfl, madeAlong_self hfront⟩
      rw [ensureDirectory_of_occupied hentry hd, hobstacle, Option.map_some,
        if_pos ⟨rfl, hplain⟩]
      rfl

/-! ## The file -/

section File

variable (h : w.tree.Leads w.cwd r.dir d) (hname : '/' ∉ r.name.toList)
  (hlink : ∀ target, w.tree.get? (d ++ [protoFileName r.name]) ≠ some (.link target))

include h hname hlink

/-- A write in place ends as the file's name decides, and what has that name. -/
theorem writeTruncating_eq (hm : r.mode = .truncate) :
    host.writeTruncating r.target r.bytes w =
      match r.fileError? w.cwd (w.tree.get? (d ++ [protoFileName r.name])) with
      | none => (.ok (), { w with tree := w.tree.put d (protoFileName r.name) (.file r.bytes) })
      | some e => (.error e, w) := by
  have hcreate := h.create_join_eq (slash_mem_protoFileName.not.mpr hname)
    (isStepName_protoFileName r.name) hlink
  unfold fileError?
  rw [hm]
  dsimp only [target, Request.refusal?] at hcreate ⊢
  cases hrefusal : (r.dir.join ⟨protoFileName r.name⟩).refusalAt? (protoFileName r.name)
  case some e =>
    rw [hrefusal] at hcreate
    exact bind_of_error (attempt_of_error (create_of_error hcreate))
  rw [hrefusal] at hcreate
  dsimp only at hcreate ⊢
  cases he : w.tree.get? (d ++ [protoFileName r.name]) with
  | none =>
    rw [he] at hcreate
    exact writeTruncating_of_create (isFree_of_none h.directory he) hcreate
  | some e =>
    rw [he] at hcreate
    cases e with
    | directory => exact bind_of_error (attempt_of_error (create_of_error hcreate))
    | file content => exact writeTruncating_of_create (isFree_of_some he (by simp)) hcreate
    | link target => exact absurd he (hlink target)
    | device full =>
      -- A device may take what is written, but cannot be asked to keep it.
      rw [Host.writeTruncating, bind_of_ok (attempt_of_ok (create_of_ok hcreate))]
      have happend : w.tree.append ⟨d, protoFileName r.name⟩ r.bytes
          = if full ∧ r.bytes ≠ [] then .error .noSpace else .ok w.tree := by
        simp only [append, OpenFile.location, he]
      dsimp only
      split at happend
      · next hfull =>
        rw [if_pos hfull]
        exact bind_of_error (attempt_of_error (append_of_error happend))
      · next hfull =>
        rw [if_neg hfull, bind_of_ok (attempt_of_ok (append_of_ok happend)),
          bind_of_ok (attempt_of_ok (flush_apply _))]
        refine attempt_of_error ((sync_apply _).trans (Prod.ext ?_ rfl))
        simp only [sync, OpenFile.location, he]

omit hlink in
/-- So does a write beside the target. -/
theorem writeAtomically_eq (hm : r.mode = .atomic) :
    host.writeAtomically r.dir r.target r.bytes w =
      match r.fileError? w.cwd (w.tree.get? (d ++ [protoFileName r.name])) with
      | none => (.ok (), { w with tree := w.tree.put d (protoFileName r.name) (.file r.bytes) })
      | some e => (.error e, w) := by
  obtain ⟨n, hfresh, hn, -⟩ := w.tree.exists_freshName d
  have hcreate := h.createTemporary_eq hfresh
  unfold fileError?
  rw [hm]
  dsimp only
  split at hcreate
  · next hlong =>
    rw [if_pos hlong]
    exact bind_of_error (attempt_of_error (createTemporary_of_error hcreate))
  next hshort =>
  have hstep : (w.tree.put d (temporaryName n) (.file r.bytes)).lastStep w.cwd r.target
      = r.refusal?.elim (.ok (some (d, protoFileName r.name))) .error :=
    h.lastStep_join_eq (extends_put hn (.file r.bytes)).keeps
      (slash_mem_protoFileName.not.mpr hname) (isStepName_protoFileName r.name)
  rw [if_neg hshort, writeAtomically_of_createTemporary _ _ h.directory hn hcreate]
  cases hrefusal : r.refusal? with
  | some e =>
    rw [hrefusal] at hstep
    rw [rename, hstep]
    rfl
  | none =>
    rw [hrefusal] at hstep
    rw [h.rename_of_lastStep hn (temporaryName_ne_protoFileName n r.name) hstep]
    by_cases hd : w.tree.get? (d ++ [protoFileName r.name]) = some .directory
    · rw [if_pos hd, if_pos hd]
    · rw [if_neg hd, if_neg hd]

/-- So the file is written, or nothing is. -/
theorem writeFile_eq :
    host.writeFile r.mode r.dir r.target r.bytes w =
      match r.fileError? w.cwd (w.tree.get? (d ++ [protoFileName r.name])) with
      | none => (.ok (), { w with tree := w.tree.put d (protoFileName r.name) (.file r.bytes) })
      | some e => (.error e, w) := by
  unfold Host.writeFile
  cases hm : r.mode with
  | truncate => exact writeTruncating_eq h hname hlink hm
  | atomic => exact writeAtomically_eq h hname hm

end File

/-! ## The whole write -/

/-- A directory that a plain path names is one that it leads to. -/
theorem leads_of_directory {t : FileTree} {cwd : Location} {p : Path} (hp : p.Fits)
    (hd : t.get? (cwd ++ p.steps) = some .directory) : t.Leads cwd p (cwd ++ p.steps) where
  follow := by
    split
    · next he => rw [(steps_eq_nil_iff hp.relative).mpr he, List.append_nil]
    · next hne => exact follow_of_directory hp hne hd
  directory := hd

/-- What a tree holds once the directories have been made. -/
theorem get?_of_made {t : FileTree} (hmade : w.tree.MadeAlong t w.cwd (r.made w.tree.get? w.cwd))
    (hpremature : r.premature? = none) (l : Location) :
    t.get? l = if r.IsOnWay w.tree.get? w.cwd l then some .directory else w.tree.get? l := by
  split
  · next hon =>
    obtain ⟨-, q, hq, rfl⟩ := hon
    exact hmade.directory q hq
  · next hoff => exact hmade.elsewhere l fun q hq hl => hoff ⟨hpremature, q, hq, hl⟩

/-- A request that is not refused at once goes on to the directory, and then to the file. -/
theorem persist_of_premature? (w : World) :
    host.persist r.mode (protoFileName r.name) r.dir r.target r.bytes w =
      match r.premature? with
      | some e => (.error e, w)
      | none => (host.ensureDirectory r.dir >>= fun _ =>
          host.writeFile r.mode r.dir r.target r.bytes) w := by
  unfold premature?
  by_cases hname : '/' ∈ r.name.toList
  · have hf := not_isFileName_of_slash hname
    rw [if_pos hname]
    exact persist_of_not_fileName r.target hf
  · have hf := isFileName_protoFileName_iff.mpr hname
    rw [if_neg hname]
    cases hdecode : Utf8.decode r.bytes with
    | error fault => exact persist_of_not_text r.target hf hdecode
    | ok text => exact persist_of_text r.target hf hdecode

section Write

variable (hl : w.tree.NoLinks) (hcwd : w.tree.get? w.cwd = some .directory) (hp : r.dir.IsPlain)

include hl hp

/-- Once the directory has been made without a fault, the file decides. -/
theorem writeFile_of_made {w' : World} (hpremature : r.premature? = none)
    (hfault : r.directoryFault? w.tree.get? w.cwd = none) (hcwd' : w'.cwd = w.cwd)
    (hmade : w.tree.MadeAlong w'.tree w.cwd (r.made w.tree.get? w.cwd)) :
    ∃ w'', host.writeFile r.mode r.dir r.target r.bytes w'
        = ((r.error? w.tree.get? w.cwd).elim (.ok ()) .error, w'') ∧
      w''.cwd = w.cwd ∧ w''.tree.get? = r.leaves w.tree.get? w.cwd := by
  have hget := get?_of_made hmade hpremature
  obtain ⟨hfits, hall⟩ := made_of_directoryFault? hp hfault
  rw [hall] at hmade
  have hdir := hmade.directory r.dir.steps (List.prefix_refl _)
  have hleads : w'.tree.Leads w'.cwd r.dir (w.cwd ++ r.dir.steps) := by
    rw [hcwd']
    exact leads_of_directory hfits hdir
  have hheld : w'.tree.get? (w.cwd ++ r.dir.steps ++ [protoFileName r.name])
      = w.tree.get? (r.place w.cwd) := hmade.get?_concat
  have herror : r.error? w.tree.get? w.cwd
      = r.fileError? w.cwd (w.tree.get? (r.place w.cwd)) := by
    rw [error?, hpremature, hfault]
    rfl
  have hwrite := writeFile_eq hleads (slash_of_premature? hpremature) fun _ => hmade.noLinks hl _ _
  rw [hcwd', hheld, ← herror] at hwrite
  rw [hwrite]
  cases he : r.error? w.tree.get? w.cwd with
  | some e =>
    refine ⟨w', rfl, hcwd', ?_⟩
    funext l
    rw [hget, leaves_of_error he]
  | none =>
    have hfree : w'.tree.IsFree (w.cwd ++ r.dir.steps) (protoFileName r.name) := by
      refine ⟨hdir, ?_⟩
      rw [hheld]
      exact (of_fileError? (herror ▸ he)).2
    refine ⟨_, rfl, rfl, ?_⟩
    funext l
    rw [leaves_of_none he]
    exact (get?_put hfree _ l).trans (by rw [hget]; rfl)

include hcwd

/-- The checks and steps of a write end as the request's error says, and leave what it says. -/
theorem persist_eq :
    ∃ w', host.persist r.mode (protoFileName r.name) r.dir r.target r.bytes w
        = ((r.error? w.tree.get? w.cwd).elim (.ok ()) .error, w') ∧
      w'.cwd = w.cwd ∧ w'.tree.get? = r.leaves w.tree.get? w.cwd := by
  rw [persist_of_premature?]
  cases hpremature : r.premature? with
  | some e =>
    refine ⟨w, ?_, rfl, (leaves_of_premature? hpremature).symm⟩
    rw [error?_of_premature? hpremature]
    rfl
  | none =>
    obtain ⟨w', hrun, hcwd', hmade⟩ := ensureDirectory_eq hl hcwd hp
    cases hfault : r.directoryFault? w.tree.get? w.cwd with
    | some fault =>
      have herror : r.error? w.tree.get? w.cwd = some (.directory r.dir fault) := by
        rw [error?, hpremature, hfault]
        rfl
      rw [hfault] at hrun
      refine ⟨w', ?_, hcwd', ?_⟩
      · rw [herror]
        exact bind_of_error hrun
      · funext l
        rw [get?_of_made hmade hpremature, leaves_of_error herror]
    | none =>
      rw [hfault] at hrun
      obtain ⟨w'', hwrite, hend⟩ := writeFile_of_made hl hp hpremature hfault hcwd' hmade
      exact ⟨w'', (bind_of_ok hrun).trans hwrite, hend⟩

/-- **What a write does.** It returns what the request's error says, and leaves what the request
says it leaves. -/
theorem write_eq :
    (r.write w).1 = r.result w.tree.get? w.cwd ∧ (r.write w).2.cwd = w.cwd ∧
      (r.write w).2.tree.get? = r.leaves w.tree.get? w.cwd := by
  obtain ⟨w', hrun, hcwd', hleaves⟩ := persist_eq hl hcwd hp
  have hout := cwd_writeBytes hrun
  unfold Request.write result
  cases herror : r.error? w.tree.get? w.cwd with
  | none =>
    rw [herror] at hrun
    obtain ⟨hok, htree⟩ := writeBytes_of_ok hrun
    rw [hok, htree, hleaves]
    exact ⟨rfl, hout.trans hcwd', rfl⟩
  | some e =>
    rw [herror] at hrun
    obtain ⟨hfailed, htree⟩ := writeBytes_of_error hrun
    rw [hfailed, htree, hleaves]
    exact ⟨rfl, hout.trans hcwd', rfl⟩

end Write

end World

end ProtoScribe
