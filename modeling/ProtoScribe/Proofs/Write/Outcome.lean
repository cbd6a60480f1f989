import ProtoScribe.Proofs.Text.Utf8
import ProtoScribe.Proofs.Write.Name
import ProtoScribe.Proofs.Write.Steps

/-!
# The outcome of a write

What a write into a tree without links returns, and what it leaves, in all cases. The name is looked
at first, then the content, then the directory, then what stands at the target; the first of them
that is refused is the error, and the tree is as before. Where none is, the content stands at the
target, the directories on the way are there, and all else is as before.

The paths are such that the system takes them. One that has a NUL is refused by the step that comes
to it, which for a file is the last (`writeBytes_of_refused_target`), so that directories may have
been made for nothing.

Each case is followed through the steps of the write (`ProtoScribe.Proofs.Write.Steps`).
-/

namespace ProtoScribe.World

open FileTree ProtoScribe.Path

variable {w w' : World} {mode : WriteMode} {name : String} {dir : Path} {bytes : List UInt8}

/-! ## The order of the checks -/

section Persist

variable {fileName : String} (target : Path)

theorem persist_of_not_fileName (hf : isFileName fileName = false) :
    host.persist mode fileName dir target bytes w = (.error (.opening target .notFileName), w) := by
  unfold Host.persist
  rw [hf]
  rfl

theorem persist_of_not_text {fault : Utf8.Fault} (hf : isFileName fileName = true)
    (hd : Utf8.decode bytes = .error fault) :
    host.persist mode fileName dir target bytes w = (.error (.encoding target fault), w) := by
  unfold Host.persist
  rw [hf, hd]
  rfl

/-- A name and a content that pass are followed by the directory, and then by the file. -/
theorem persist_of_text {text : String} (hf : isFileName fileName = true)
    (hd : Utf8.decode bytes = .ok text) :
    host.persist mode fileName dir target bytes w =
      (host.ensureDirectory dir >>= fun _ => host.writeFile mode dir target bytes) w := by
  unfold Host.persist
  rw [hf, hd]
  rfl

end Persist

/-- So it is with the file of a logical name and the bytes of a text. -/
theorem persist_of_name {text : String} (hname : '/' ∉ name.toList) (hbytes : Utf8.encode text = bytes)
    (mode : WriteMode) (dir target : Path) (w : World) :
    host.persist mode (protoFileName name) dir target bytes w =
      (host.ensureDirectory dir >>= fun _ => host.writeFile mode dir target bytes) w :=
  persist_of_text target (isFileName_protoFileName_iff.mpr hname) (Utf8.decode_eq_ok_iff.mpr hbytes)

/-- A write that succeeds reports what it has written. -/
theorem writeBytes_apply_of_ok
    (h : host.persist mode (protoFileName name) dir (dir.join ⟨protoFileName name⟩) bytes w
      = (.ok (), w')) :
    host.writeBytes mode name dir bytes w = (.ok (dir.join ⟨protoFileName name⟩),
      { w' with events := w'.events
          ++ [.written (dir.join ⟨protoFileName name⟩) bytes.length mode] }) := by
  unfold Host.writeBytes
  rw [bind_apply]
  simp only [ExceptT.run, h]
  rfl

theorem writeBytes_apply_of_error {e : WriteError}
    (h : host.persist mode (protoFileName name) dir (dir.join ⟨protoFileName name⟩) bytes w
      = (.error e, w')) :
    host.writeBytes mode name dir bytes w
      = (.error e, { w' with events := w'.events ++ [.notWritten e] }) := by
  unfold Host.writeBytes
  rw [bind_apply]
  simp only [ExceptT.run, h]
  rfl

theorem writeBytes_of_ok
    (h : host.persist mode (protoFileName name) dir (dir.join ⟨protoFileName name⟩) bytes w
      = (.ok (), w')) :
    (host.writeBytes mode name dir bytes w).1 = .ok (dir.join ⟨protoFileName name⟩) ∧
      (host.writeBytes mode name dir bytes w).2.tree = w'.tree := by
  rw [writeBytes_apply_of_ok h]
  exact ⟨rfl, rfl⟩

theorem writeBytes_of_error {e : WriteError}
    (h : host.persist mode (protoFileName name) dir (dir.join ⟨protoFileName name⟩) bytes w
      = (.error e, w')) :
    (host.writeBytes mode name dir bytes w).1 = .error e ∧
      (host.writeBytes mode name dir bytes w).2.tree = w'.tree := by
  rw [writeBytes_apply_of_error h]
  exact ⟨rfl, rfl⟩

/-! ## Writes that storage allows -/

/-- A write whose paths the system takes, into a tree without links and not onto a device. The
directory's path is plain. -/
structure AllowsWrite (w : World) (mode : WriteMode) (name : String) (dir : Path) : Prop where
  noLinks : w.tree.NoLinks
  cwd : w.tree.get? w.cwd = some .directory
  plain : dir.IsPlain
  /-- No NUL is in the directory's path or the name, and together they are not too long. -/
  usable : (dir.join ⟨protoFileName name⟩).IsUsable
  sizes : ∀ s ∈ (dir.join ⟨protoFileName name⟩).steps, s.utf8ByteSize ≤ nameLimit
  /-- The new file of an atomic write gets one of the first names that there are. -/
  temporary : mode = .atomic → ∀ n ≤ w.tree.entries.length,
    (temporaryPath w.cwd dir (temporaryName n)).text.utf8ByteSize < pathLimit
  noDevice : ∀ full, w.tree.get? (w.cwd ++ dir.steps ++ [protoFileName name]) ≠ some (.device full)

namespace AllowsWrite

variable (h : w.AllowsWrite mode name dir) (hname : '/' ∉ name.toList)

include h hname

theorem fits_target : (dir.join ⟨protoFileName name⟩).Fits where
  toIsPlain := h.plain.join (slash_mem_protoFileName.not.mpr hname) (isStepName_protoFileName name)
  toIsUsable := h.usable
  sizes := h.sizes

theorem fits_dir : dir.Fits where
  toIsPlain := h.plain
  toIsUsable := h.usable.of_isPrefix (isPrefix_join (slash_mem_protoFileName.not.mpr hname))
  sizes s hs := h.sizes s (steps_target hname ▸ List.mem_append_left _ hs)

omit hname in
/-- What stands at the target is nothing, a file or a directory. -/
theorem place (hd : w.tree.get? (w.cwd ++ dir.steps ++ [protoFileName name]) ≠ some .directory) :
    w.tree.get? (w.cwd ++ dir.steps ++ [protoFileName name]) = none ∨
      ∃ content,
        w.tree.get? (w.cwd ++ dir.steps ++ [protoFileName name]) = some (.file content) := by
  cases he : w.tree.get? (w.cwd ++ dir.steps ++ [protoFileName name]) with
  | none => exact .inl rfl
  | some e =>
    cases e with
    | directory => exact absurd he hd
    | file content => exact .inr ⟨content, rfl⟩
    | link target => exact absurd he (h.noLinks _ target)
    | device full => exact absurd he (h.noDevice full)

end AllowsWrite

/-! ## Each case -/

section Cases

variable {text : String}

theorem writeBytes_of_slash (hname : '/' ∈ name.toList) :
    (host.writeBytes mode name dir bytes w).1
        = .error (.opening (dir.join ⟨protoFileName name⟩) .notFileName) ∧
      (host.writeBytes mode name dir bytes w).2.tree = w.tree := by
  have hf := not_isFileName_of_slash hname
  exact writeBytes_of_error (persist_of_not_fileName _ hf)

theorem writeBytes_of_not_text (hname : '/' ∉ name.toList) (hbytes : ∀ s, Utf8.encode s ≠ bytes) :
    ∃ fault, (host.writeBytes mode name dir bytes w).1
        = .error (.encoding (dir.join ⟨protoFileName name⟩) fault) ∧
      (host.writeBytes mode name dir bytes w).2.tree = w.tree := by
  obtain ⟨fault, hd⟩ := Utf8.exists_decode_eq_error_iff.mpr hbytes
  exact ⟨fault, writeBytes_of_error
    (persist_of_not_text _ (isFileName_protoFileName_iff.mpr hname) hd)⟩

variable (h : w.AllowsWrite mode name dir) (hname : '/' ∉ name.toList)
  (hbytes : Utf8.encode text = bytes)

include h hname hbytes

theorem writeBytes_of_blocked (hb : w.tree.Blocked w.cwd dir.steps) :
    ∃ cause, (host.writeBytes mode name dir bytes w).1 = .error (.directory dir cause) ∧
      (host.writeBytes mode name dir bytes w).2.tree = w.tree := by
  obtain ⟨cause, w', hrun, htree⟩ :=
    ensureDirectory_of_blocked h.noLinks h.cwd (h.fits_dir hname) hb
  refine ⟨cause, htree ▸ writeBytes_of_error ?_⟩
  rw [persist_of_name hname hbytes]
  exact bind_of_error hrun

theorem writeBytes_of_directory
    (hd : w.tree.get? (w.cwd ++ dir.steps ++ [protoFileName name]) = some .directory) :
    (host.writeBytes mode name dir bytes w).1
        = .error (refusedTarget mode (dir.join ⟨protoFileName name⟩) .isDirectory) ∧
      (host.writeBytes mode name dir bytes w).2.tree = w.tree := by
  have hdir := directory_of_append (List.cons_ne_nil _ []) hd
  obtain ⟨w', hrun, hcwd, htree⟩ :=
    ensureDirectory_of_there h.noLinks h.cwd (h.fits_dir hname) hdir
  rw [← htree]
  refine writeBytes_of_error ?_
  rw [persist_of_name hname hbytes, bind_of_ok hrun]
  refine writeFile_of_directory (h.fits_dir hname) (h.fits_target hname) (steps_target hname)
    (endsInSlash_target hname) (fun hm => ?_) (by rw [htree, hcwd, hd])
  rw [hcwd]
  exact h.temporary hm 0 (Nat.zero_le _)

theorem writeBytes_of_not_directory (hb : ¬w.tree.Blocked w.cwd dir.steps)
    (hd : w.tree.get? (w.cwd ++ dir.steps ++ [protoFileName name]) ≠ some .directory) :
    ∃ tree, w.tree.MadeAlong tree w.cwd dir.steps ∧
      tree.TakesFile (w.cwd ++ dir.steps) (protoFileName name) ∧
      (host.writeBytes mode name dir bytes w).1 = .ok (dir.join ⟨protoFileName name⟩) ∧
      (host.writeBytes mode name dir bytes w).2.tree
        = tree.put (w.cwd ++ dir.steps) (protoFileName name) (.file bytes) := by
  obtain ⟨w', hrun, hcwd, hmade⟩ :=
    ensureDirectory_of_not_blocked h.noLinks h.cwd (h.fits_dir hname) hb
  have htakes : w'.tree.TakesFile (w.cwd ++ dir.steps) (protoFileName name) := by
    refine ⟨hmade.directory _ (List.prefix_refl _), ?_⟩
    rw [hmade.get?_concat]
    exact h.place hd
  refine ⟨w'.tree, hmade, htakes, ?_⟩
  rw [← hcwd] at htakes ⊢
  let written : World :=
    { w' with tree := w'.tree.put (w'.cwd ++ dir.steps) (protoFileName name) (.file bytes) }
  suffices hp : host.persist mode (protoFileName name) dir (dir.join ⟨protoFileName name⟩) bytes w
      = (.ok (), written) from writeBytes_of_ok hp
  rw [persist_of_name hname hbytes, bind_of_ok hrun]
  refine writeFile_of_takesFile (h.fits_dir hname) (h.fits_target hname) (steps_target hname)
    (endsInSlash_target hname) (fun hm => ?_) htakes
  rw [hcwd]
  exact h.temporary hm 0 (Nat.zero_le _)

end Cases

/-! ## Paths that are refused -/

section Refused

variable {text : String} {e : Errno} (hname : '/' ∉ name.toList) (hbytes : Utf8.encode text = bytes)

include hname hbytes

/-- A directory is not made whose path the system does not take. -/
theorem writeBytes_of_refused_directory (h : dir.refusal? = some e) :
    (host.writeBytes mode name dir bytes w).1 = .error (.directory dir (.system e)) ∧
      (host.writeBytes mode name dir bytes w).2.tree = w.tree := by
  obtain ⟨w', hrun, -, htree⟩ := ensureDirectory_of_refusal? (w := w) h
  rw [← htree]
  refine writeBytes_of_error ?_
  rw [persist_of_name hname hbytes]
  exact bind_of_error hrun

/-- Nor is a file written whose path it does not take, but its directories have been made by then. -/
theorem writeBytes_of_refused_target (hl : w.tree.NoLinks)
    (hcwd : w.tree.get? w.cwd = some .directory) (hd : dir.Fits)
    (htemporary : mode = .atomic →
      (temporaryPath w.cwd dir (temporaryName 0)).text.utf8ByteSize < pathLimit)
    (hb : ¬w.tree.Blocked w.cwd dir.steps)
    (h : (dir.join ⟨protoFileName name⟩).refusal? = some e) :
    (host.writeBytes mode name dir bytes w).1
        = .error (refusedTarget mode (dir.join ⟨protoFileName name⟩) e) ∧
      w.tree.MadeAlong (host.writeBytes mode name dir bytes w).2.tree w.cwd dir.steps := by
  obtain ⟨w', hrun, hcwd', hmade⟩ := ensureDirectory_of_not_blocked hl hcwd hd hb
  have hthere : w'.tree.get? (w'.cwd ++ dir.steps) = some .directory := by
    rw [hcwd']
    exact hmade.directory dir.steps (List.prefix_refl _)
  have hwrite : host.writeFile mode dir (dir.join ⟨protoFileName name⟩) bytes w' = _ :=
    writeFile_of_refusal? hd (hcwd'.symm ▸ htemporary) hthere h
  have hpersist := (persist_of_name hname hbytes mode dir (dir.join ⟨protoFileName name⟩) w).trans
    ((bind_of_ok hrun).trans hwrite)
  obtain ⟨herror, htree⟩ := writeBytes_of_error hpersist
  rw [herror, htree]
  exact ⟨rfl, hmade⟩

end Refused

/-! ## All cases -/

/-- **The outcome of a write.** A name with a slash is not opened; a content that is no text is not
encoded; a directory that is blocked is not made; a directory at the target is not written to. In
that order, each is the error of the write, and the tree is exactly as before. Otherwise the target's
path is returned, the content stands there, the directories on the way are there, and all else is as
before. -/
theorem writeBytes_outcome (h : w.AllowsWrite mode name dir) (bytes : List UInt8) :
    let fileName := protoFileName name
    let target := dir.join ⟨fileName⟩
    let place := w.cwd ++ dir.steps ++ [fileName]
    let out := host.writeBytes mode name dir bytes w
    ('/' ∈ name.toList → out.1 = .error (.opening target .notFileName) ∧ out.2.tree = w.tree) ∧
    ('/' ∉ name.toList →
      ((∀ text, Utf8.encode text ≠ bytes) →
        ∃ fault, out.1 = .error (.encoding target fault) ∧ out.2.tree = w.tree) ∧
      ((∃ text, Utf8.encode text = bytes) →
        (w.tree.Blocked w.cwd dir.steps →
          ∃ cause, out.1 = .error (.directory dir cause) ∧ out.2.tree = w.tree) ∧
        (¬w.tree.Blocked w.cwd dir.steps →
          (w.tree.get? place = some .directory →
            out.1 = .error (refusedTarget mode target .isDirectory) ∧ out.2.tree = w.tree) ∧
          (w.tree.get? place ≠ some .directory →
            out.1 = .ok target ∧ out.2.tree.get? place = some (.file bytes) ∧
              (∀ q, q <+: dir.steps → out.2.tree.get? (w.cwd ++ q) = some .directory) ∧
              ∀ l, l ≠ place → (∀ q, q <+: dir.steps → l ≠ w.cwd ++ q) →
                out.2.tree.get? l = w.tree.get? l)))) := by
  dsimp only
  refine ⟨writeBytes_of_slash, fun hname => ⟨writeBytes_of_not_text hname, ?_⟩⟩
  rintro ⟨text, hbytes⟩
  refine ⟨writeBytes_of_blocked h hname hbytes, fun hb =>
    ⟨writeBytes_of_directory h hname hbytes, fun hd => ?_⟩⟩
  -- The directories are made first, then the content is put; each place is looked up in turn.
  obtain ⟨tree, hmade, htakes, hok, htree⟩ := writeBytes_of_not_directory h hname hbytes hb hd
  have hget (l : Location) : (host.writeBytes mode name dir bytes w).2.tree.get? l
      = if l = w.cwd ++ dir.steps ++ [protoFileName name] then some (.file bytes)
        else tree.get? l := by
    rw [htree, get?_put htakes.isFree]
  refine ⟨hok, by rw [hget, if_pos rfl], fun q hq => ?_, fun l hl hq => ?_⟩
  · rw [hget, if_neg (concat_ne_append hq).symm, hmade.directory q hq]
  · rw [hget, if_neg hl, hmade.elsewhere l hq]

/-- A content of two bytes, into directories that are missing and are spelled with more slashes than
needed. -/
theorem writeBytes_outcome_missing_directories :
    let w : World := { tree := (default : FileTree).put [] "notes" (.file [0x68, 0x69]) }
    let dir : Path := ⟨"out//gen/"⟩
    let out := host.writeBytes .atomic "a" dir [0xC3, 0xA9] w
    w.AllowsWrite .atomic "a" dir ∧ ¬w.tree.Blocked w.cwd dir.steps ∧
      out.1 = .ok ⟨"out//gen/a.proto"⟩ ∧
      out.2.tree.get? ["out", "gen", "a.proto"] = some (.file [0xC3, 0xA9]) ∧
      out.2.tree.get? ["out"] = some .directory ∧
      out.2.tree.get? ["notes"] = some (.file [0x68, 0x69]) := by
  intro w dir out
  have hl : w.tree.NoLinks := noLinks_put noLinks_default nofun
  have allows : w.AllowsWrite .atomic "a" dir :=
    ⟨hl, by decide, ⟨by decide, by decide⟩, by decide, by decide, fun _ => by decide, by decide⟩
  have free : ¬w.tree.Blocked w.cwd dir.steps := by decide
  have htarget : dir.join ⟨protoFileName "a"⟩ = ⟨"out//gen/a.proto"⟩ := by decide
  have hplace : w.cwd ++ dir.steps ++ [protoFileName "a"] = ["out", "gen", "a.proto"] := by decide
  have outcome := writeBytes_outcome allows [0xC3, 0xA9]
  simp only [htarget, hplace] at outcome
  obtain ⟨hok, hfile, hdir, helse⟩ := ((outcome.2 (by decide)).2 ⟨"é", by decide⟩).2 free |>.2
    (by decide)
  refine ⟨allows, free, hok, hfile, hdir ["out"] (by decide), ?_⟩
  refine (helse ["notes"] (by decide) fun q hq he => ?_).trans (by decide)
  exact absurd (show ["notes"] <+: dir.steps from he ▸ hq) (by decide)

/-- With a NUL in the name, nothing is written into an empty tree, though the directory is made; with
one in the directory's path, not even that. -/
theorem writeBytes_fails_on_nul :
    let w : World := {}
    let out := host.writeBytes .atomic "a\x00" ⟨"out"⟩ [0x78] w
    let target : Path := ⟨"out/a\x00.proto"⟩
    w.tree.NoLinks ∧ w.tree.get? w.cwd = some .directory ∧ Path.IsPlain ⟨"out"⟩ ∧
      '/' ∉ "a\x00".toList ∧ Utf8.encode "x" = [0x78] ∧ ¬w.tree.Blocked w.cwd ["out"] ∧
      w.tree.get? ["out", "a\x00.proto"] = none ∧ target.text.utf8ByteSize = 12 ∧
      out.1 = .error (.transfer target (.system .invalidArgument)) ∧
      out.2.tree.get? ["out"] = some .directory ∧
      (host.writeBytes .truncate "a\x00" ⟨"out"⟩ [0x78] w).1
        = .error (.opening target (.system .invalidArgument)) ∧
      (host.writeBytes .atomic "a" ⟨"o\x00"⟩ [0x78] w).1
        = .error (.directory ⟨"o\x00"⟩ (.system .invalidArgument)) := by
  intro w out target
  have hslash : '/' ∉ "a\x00".toList := by decide
  have hbytes : Utf8.encode "x" = [0x78] := by decide
  have hd : Path.Fits ⟨"out"⟩ := ⟨by decide, by decide, by decide⟩
  have hfree : ¬w.tree.Blocked w.cwd (Path.steps ⟨"out"⟩) := by decide
  have hrefused : (Path.join ⟨"out"⟩ ⟨protoFileName "a\x00"⟩).refusal? = some .invalidArgument :=
    refusal?_of_nul (by decide)
  have htarget : Path.join ⟨"out"⟩ ⟨protoFileName "a\x00"⟩ = target := by decide
  have hname : '/' ∉ "a".toList := by decide
  have hdirectory : Path.refusal? ⟨"o\x00"⟩ = some .invalidArgument := refusal?_of_nul (by decide)
  have hatomic : out.1 = .error (refusedTarget .atomic _ .invalidArgument) ∧ _ :=
    writeBytes_of_refused_target hslash hbytes noLinks_default rfl hd (fun _ => by decide) hfree
      hrefused
  have htruncate : (host.writeBytes .truncate "a\x00" ⟨"out"⟩ [0x78] w).1
      = .error (refusedTarget .truncate _ .invalidArgument) ∧ _ :=
    writeBytes_of_refused_target hslash hbytes noLinks_default rfl hd nofun hfree hrefused
  rw [htarget] at hatomic htruncate
  exact ⟨noLinks_default, rfl, by decide, hslash, hbytes, hfree, by decide, by decide, hatomic.1,
    hatomic.2.directory ["out"] (by decide), htruncate.1,
    (writeBytes_of_refused_directory hname hbytes hdirectory).1⟩

end ProtoScribe.World
