import ProtoScribe.Proofs.Storage.Growth
import ProtoScribe.Proofs.Write.Name
import ProtoScribe.Proofs.Write.Steps

/-!
# When a file can be written

What a directory has to offer for a file to be written into it under a name (`Admits`), in a tree
that may hold links elsewhere. Where it offers that, the content stands at the name's place and all
else is as before (`writeFile_of_admits`); a write that succeeds has found it
(`admits_of_writeFile`); and one that fails has changed nothing, in any tree
(`writeFile_of_error`).
-/

namespace ProtoScribe

namespace FileTree

open ProtoScribe.Path

variable {t t' : FileTree} {cwd dir : Location} {p : Path} {s name : String}

/-! ## Files that are opened -/

/-- A file is opened only if the system takes its name and its path. -/
theorem Leads.isUsable_of_create {f : OpenFile} (h : t.Leads cwd p dir) (hslash : '/' ∉ s.toList)
    (hs : IsStepName s) (hf : t.create cwd (p.join ⟨s⟩) = .ok (f, t')) :
    s.utf8ByteSize ≤ nameLimit ∧ (p.join ⟨s⟩).IsUsable := by
  rcases t.create_cases cwd (p.join ⟨s⟩) with ⟨e, he⟩ | ⟨reached, -, -, hr, -⟩
  · cases he.symm.trans hf
  have hu := (reach_eq_ok_iff.mp hr).2.1
  refine ⟨?_, hu⟩
  by_contra hlong
  obtain ⟨left, hreach⟩ := h.reach_join (Extends.refl t).keeps hslash hs.nonempty hu
  rw [walkSteps_join hslash hs.nonempty, hreach,
    walk_cons_of_long hs h.directory (Nat.not_le.mp hlong)] at hr
  cases hr

end FileTree

namespace World

open FileTree ProtoScribe.Path

variable {w : World} {dir target : Path} {d : Location} {s name : String} {bytes : List UInt8}

/-! ## Writes in place -/

/-- A write in place leaves the content in a file, or fails and leaves all as it was. -/
theorem writeTruncating_cases (w : World) (target : Path) (bytes : List UInt8) :
    (∃ f, w.tree.TakesFile f.dir f.name ∧
        w.tree.create w.cwd target = .ok (f, w.tree.put f.dir f.name (.file [])) ∧
        host.writeTruncating target bytes w
          = (.ok (), { w with tree := w.tree.put f.dir f.name (.file bytes) })) ∨
      ∃ e, host.writeTruncating target bytes w = (.error e, w) := by
  cases hcreate : w.tree.create w.cwd target with
  | error e =>
    exact .inr ⟨_, by
      rw [Host.writeTruncating, bind_of_error (attempt_of_error (create_of_error hcreate))]⟩
  | ok opened =>
    obtain ⟨f, t⟩ := opened
    rcases opened_of_create hcreate with ⟨htakes, rfl⟩ | ⟨rfl, full, hdevice⟩
    · exact .inl ⟨f, htakes, rfl, writeTruncating_of_create htakes.isFree hcreate⟩
    refine .inr ?_
    rw [Host.writeTruncating, bind_of_ok (attempt_of_ok (create_of_ok hcreate))]
    -- A device may take what is written, but cannot be asked to keep it.
    cases happend : w.tree.append f bytes with
    | error e => exact ⟨_, bind_of_error (attempt_of_error (append_of_error happend))⟩
    | ok t' =>
      have ht' : t' = w.tree := by
        rw [append, hdevice] at happend
        dsimp only at happend
        split at happend <;> cases happend
        rfl
      subst ht'
      rw [bind_of_ok (attempt_of_ok (append_of_ok happend)),
        bind_of_ok (attempt_of_ok (flush_apply f))]
      exact ⟨_, attempt_of_error ((sync_apply f).trans (Prod.ext (by rw [sync, hdevice]) rfl))⟩

/-! ## Writes beside the target -/

/-- A write puts the content at the target, or fails and leaves all as it was. -/
theorem writeAtomically_cases (h : w.tree.Leads w.cwd dir d) (hname : '/' ∉ name.toList)
    (bytes : List UInt8) :
    host.writeAtomically dir (dir.join ⟨protoFileName name⟩) bytes w
        = (.ok (), { w with tree := w.tree.put d (protoFileName name) (.file bytes) }) ∨
      ∃ e, host.writeAtomically dir (dir.join ⟨protoFileName name⟩) bytes w = (.error e, w) := by
  obtain ⟨n, hfresh, hn, -⟩ := w.tree.exists_freshName d
  rcases h.createTemporary_cases hfresh with ⟨e, he⟩ | hcreate
  · exact .inr ⟨_, bind_of_error (attempt_of_error (createTemporary_of_error he))⟩
  rw [writeAtomically_of_createTemporary _ _ h.directory hn hcreate]
  rcases h.rename_cases (slash_mem_protoFileName.not.mpr hname) (isStepName_protoFileName name)
    bytes hn (temporaryName_ne_protoFileName n name) with ⟨e, he⟩ | ⟨-, hok⟩
  · exact .inr ⟨_, by rw [he]⟩
  · exact .inl (by rw [hok])

theorem writeAtomically_of_not_leads (h : ∀ d, ¬w.tree.Leads w.cwd dir d) (target : Path)
    (bytes : List UInt8) : ∃ e, host.writeAtomically dir target bytes w = (.error e, w) := by
  obtain ⟨e, he⟩ := exists_createTemporary_error h
  exact ⟨_, bind_of_error (attempt_of_error (createTemporary_of_error he))⟩

/-- A write that fails leaves all as it was, in any tree. -/
theorem writeFile_of_error {mode : WriteMode} {w' : World} {e : WriteError}
    (hname : '/' ∉ name.toList)
    (h : host.writeFile mode dir (dir.join ⟨protoFileName name⟩) bytes w = (.error e, w')) :
    w' = w := by
  cases mode with
  | truncate =>
    rcases writeTruncating_cases w (dir.join ⟨protoFileName name⟩) bytes with
      ⟨f, -, -, hrun⟩ | ⟨e, hrun⟩
    · cases hrun.symm.trans h
    · cases hrun.symm.trans h
      rfl
  | atomic =>
    by_cases hleads : ∃ d, w.tree.Leads w.cwd dir d
    · obtain ⟨d, hleads⟩ := hleads
      rcases writeAtomically_cases hleads hname bytes with hrun | ⟨e, hrun⟩
      · cases hrun.symm.trans h
      · cases hrun.symm.trans h
        rfl
    · obtain ⟨e, hrun⟩ := writeAtomically_of_not_leads (not_exists.mp hleads)
        (dir.join ⟨protoFileName name⟩) bytes
      cases hrun.symm.trans h
      rfl

/-! ## What a directory has to offer -/

/-- A directory `d` that takes a file of the name `s`, to be written through the path `dir`. -/
structure Admits (w : World) (mode : WriteMode) (dir : Path) (d : Location) (s : String) :
    Prop where
  name : s.utf8ByteSize ≤ nameLimit
  /-- No NUL is in the path to the file, and it is not too long. -/
  path : (dir.join ⟨s⟩).IsUsable
  place : w.tree.get? (d ++ [s]) ≠ some .directory
  /-- What is written in place has to last, which no device can promise. -/
  noDevice : mode = .truncate → ∀ full, w.tree.get? (d ++ [s]) ≠ some (.device full)
  /-- A new file needs a path, too. -/
  temporary : mode = .atomic →
    (temporaryPath w.cwd dir (temporaryName 0)).text.utf8ByteSize < pathLimit

/-- Directories and links stay where they are when the file is put, unless it replaces a link. -/
theorem Admits.keeps_put {mode : WriteMode} (ha : w.Admits mode dir d s)
    (hlink : ∀ target, w.tree.get? (d ++ [s]) ≠ some (.link target)) (bytes : List UInt8) :
    w.tree.Keeps (w.tree.put d s (.file bytes)) := by
  refine FileTree.keeps_put trivial fun e he => ?_
  cases e with
  | directory => exact ha.place he
  | link target => exact hlink target he
  | file | device => trivial

section Leads

variable {mode : WriteMode} (h : w.tree.Leads w.cwd dir d) (hname : '/' ∉ name.toList)
  (hlink : ∀ target, w.tree.get? (d ++ [protoFileName name]) ≠ some (.link target))

include h hname hlink

/-- A file whose name fits is opened at the name's place. -/
theorem create_of_admits (ha : w.Admits .truncate dir d (protoFileName name)) :
    w.tree.create w.cwd (dir.join ⟨protoFileName name⟩)
      = .ok (⟨d, protoFileName name⟩, w.tree.put d (protoFileName name) (.file [])) := by
  rw [h.create_join_eq (slash_mem_protoFileName.not.mpr hname) (isStepName_protoFileName name)
    hlink, refusalAt?_eq_none_iff.mpr ⟨ha.path, ha.name⟩]
  dsimp only
  split
  · next hd => exact absurd hd ha.place
  · next full hdevice => exact absurd hdevice (ha.noDevice rfl full)
  · rfl

/-- Where the directory takes a file, the content stands there and nothing else has changed. -/
theorem writeFile_of_admits (ha : w.Admits mode dir d (protoFileName name)) (bytes : List UInt8) :
    host.writeFile mode dir (dir.join ⟨protoFileName name⟩) bytes w
      = (.ok (), { w with tree := w.tree.put d (protoFileName name) (.file bytes) }) := by
  cases mode with
  | truncate =>
    refine writeTruncating_of_create ⟨h.directory, ha.place⟩ ?_
    exact create_of_admits h hname hlink ha
  | atomic =>
    have hslash := slash_mem_protoFileName.not.mpr hname
    have hs : FitsStep (protoFileName name) := ⟨isStepName_protoFileName name, ha.name⟩
    obtain ⟨n, hfresh, hn, -⟩ := w.tree.exists_freshName d
    have hcreate := h.createTemporary_eq hfresh
    rw [if_neg (Nat.not_le.mpr (ha.temporary rfl))] at hcreate
    have hstep := h.lastStep_join_of_isUsable (extends_put hn (.file bytes)).keeps hslash hs ha.path
    show host.writeAtomically dir (dir.join ⟨protoFileName name⟩) bytes w = _
    rw [writeAtomically_of_createTemporary _ _ h.directory hn hcreate,
      h.rename_of_lastStep hn (temporaryName_ne_protoFileName n name) hstep, if_neg ha.place]

/-- What can be written in place is missing, or a file, and can be written to the end. -/
theorem admits_of_writeTruncating {w' : World}
    (hrun : host.writeTruncating (dir.join ⟨protoFileName name⟩) bytes w = (.ok (), w')) :
    w.Admits .truncate dir d (protoFileName name) := by
  have hslash := slash_mem_protoFileName.not.mpr hname
  have hs := isStepName_protoFileName name
  rcases writeTruncating_cases w (dir.join ⟨protoFileName name⟩) bytes with
    ⟨f, htakes, hcreate, -⟩ | ⟨e, he⟩
  case inr => cases he.symm.trans hrun
  have hplace := h.location_of_create hslash hs hlink hcreate
  obtain ⟨hname, hpath⟩ := h.isUsable_of_create hslash hs hcreate
  have htaken : w.tree.get? (d ++ [protoFileName name]) = none ∨
      ∃ content, w.tree.get? (d ++ [protoFileName name]) = some (.file content) :=
    hplace ▸ htakes.place
  refine ⟨hname, hpath, fun hd => ?_, fun _ full hdevice => ?_, by simp⟩
  · rcases htaken with hn | ⟨content, he⟩
    · cases hn.symm.trans hd
    · cases he.symm.trans hd
  · rcases htaken with hn | ⟨content, he⟩
    · cases hn.symm.trans hdevice
    · cases he.symm.trans hdevice

omit hlink in
/-- What can be renamed to the name has had a place beside it before. -/
theorem admits_of_writeAtomically {w' : World}
    (hrun : host.writeAtomically dir (dir.join ⟨protoFileName name⟩) bytes w = (.ok (), w')) :
    w.Admits .atomic dir d (protoFileName name) := by
  have hslash := slash_mem_protoFileName.not.mpr hname
  have hs := isStepName_protoFileName name
  obtain ⟨n, hfresh, hn, -⟩ := w.tree.exists_freshName d
  rcases h.createTemporary_cases hfresh with ⟨e, he⟩ | hcreate
  · cases (bind_of_error (attempt_of_error (createTemporary_of_error he))).symm.trans hrun
  have hwrite := writeAtomically_of_createTemporary (dir.join ⟨protoFileName name⟩) bytes
    h.directory hn hcreate
  rcases h.lastStep_join (extends_put hn (.file bytes)).keeps hslash hs with ⟨e, he⟩ | hstep
  · rw [rename, he] at hwrite
    cases hwrite.symm.trans hrun
  rw [h.rename_of_lastStep hn (temporaryName_ne_protoFileName n name) hstep] at hwrite
  have hplace : w.tree.get? (d ++ [protoFileName name]) ≠ some .directory := by
    intro hd
    rw [if_pos hd] at hwrite
    cases hwrite.symm.trans hrun
  obtain ⟨-, hpath, hfits, -⟩ := walks_of_lastStep hstep
  refine ⟨hfits.size, hpath, hplace, by simp, fun _ => ?_⟩
  rw [h.createTemporary_eq hfresh] at hcreate
  split at hcreate
  · cases hcreate
  · next hsize => exact Nat.not_le.mp hsize

/-- A write that succeeds has found the directory to take the file. -/
theorem admits_of_writeFile {w' : World}
    (hrun : host.writeFile mode dir (dir.join ⟨protoFileName name⟩) bytes w = (.ok (), w')) :
    w.Admits mode dir d (protoFileName name) := by
  cases mode with
  | truncate => exact admits_of_writeTruncating h hname hlink hrun
  | atomic => exact admits_of_writeAtomically h hname hrun

end Leads

end World

end ProtoScribe
