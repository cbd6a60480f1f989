import ProtoScribe.Proofs.Write.Atomic
import ProtoScribe.Proofs.Write.Outcome

/-!
# Where a write leaves its traces

A write into a directory that is there changes one place at most, in any tree. That place is the
target's in the directory, with one exception: a write in place follows a link that stands there, to
wherever it leads. An atomic write replaces the link.
-/

namespace ProtoScribe.World

open FileTree ProtoScribe.Path

variable {w : World} {dir target : Path} {d : Location} {name : String} {bytes : List UInt8}

/-- A directory that is there already is left alone. -/
theorem ensureDirectory_of_leads (h : w.tree.Leads w.cwd dir d) :
    ∃ w', host.ensureDirectory dir w = (.ok (), w') ∧ w'.cwd = w.cwd ∧ w'.tree = w.tree := by
  have hfollow := h.follow
  split at hfollow
  · next hempty =>
    -- The empty path leads nowhere, so the directory is made, which asks for nothing.
    have hrun := makeDirectories_of_empty (w := { w with events := w.events ++
      [.creatingDirectory dir] }) dir.parents hempty
    exact ⟨_, (ensureDirectory_of_none (entryAt?_of_empty hempty)).trans (attempt_of_ok hrun), rfl,
      rfl⟩
  · have hentry : w.tree.entryAt? w.cwd dir = some .directory := by
      rw [entryAt?, hfollow]
      exact h.directory
    exact ⟨w, ensureDirectory_of_directory hentry, rfl, rfl⟩

/-! ## Writes in place -/

/-- What a write in place leaves: no change, or one at the file that was opened. -/
def Truncated (w : World) (target : Path) (w' : World) : Prop :=
  w'.tree = w.tree ∨ ∃ f t, w.tree.create w.cwd target = .ok (f, t) ∧
    w.tree.SameExcept w'.tree f.location

theorem ends_writeTruncating (w : World) (target : Path) (bytes : List UInt8) :
    Ends (host.writeTruncating target bytes) w (fun _ => Truncated w target)
      (fun _ => Truncated w target) := by
  rw [Host.writeTruncating]
  refine .bind (.attempt ?_)
  rcases w.tree.create_cases w.cwd target with ⟨e, he⟩ | ⟨-, f, t, -, hcreate, -, hsame⟩
  · exact .of_error (create_of_error he) (.inl rfl)
  have opened {w' : World} (hw' : w.tree.SameExcept w'.tree f.location) : Truncated w target w' :=
    .inr ⟨f, t, hcreate, hw'⟩
  refine .of_ok (create_of_ok hcreate) (.bind (.attempt ?_))
  -- What is added goes to the file that was opened; flush and sync change nothing.
  cases happend : t.append f bytes with
  | error e => exact .of_error (append_of_error (w := { w with tree := t }) happend) (opened hsame)
  | ok t' =>
    have hsame' := hsame.trans (sameExcept_append happend)
    refine .of_ok (append_of_ok (w := { w with tree := t }) happend) ?_
    refine .bind (.attempt (.of_ok (flush_apply f) (.attempt ?_)))
    cases hsync : t'.sync f with
    | error e =>
      exact .of_error ((sync_apply f).trans (Prod.ext hsync rfl)) (opened hsame')
    | ok => exact .of_ok ((sync_apply f).trans (Prod.ext hsync rfl)) (opened hsame')

/-! ## The file -/

/-- A tree in which nothing has changed but the target's place in the directory, or the place that a
link there leads to, to which only a write in place gets. -/
def Confined (w : World) (mode : WriteMode) (dir : Path) (d : Location) (s : String)
    (t : FileTree) : Prop :=
  ∃ place, w.tree.SameExcept t place ∧
    (place = d ++ [s] ∨
      mode = .truncate ∧ (∃ target, w.tree.get? (d ++ [s]) = some (.link target)) ∧
        ∃ reached, w.tree.reach w.cwd (dir.join ⟨s⟩) (dir.join ⟨s⟩).walkSteps = .ok reached ∧
          reached.location = place)

theorem Confined.of_eq {mode : WriteMode} {s : String} {t : FileTree} (h : t = w.tree) :
    w.Confined mode dir d s t :=
  ⟨d ++ [s], h ▸ .refl _ _, .inl rfl⟩

section Write

variable (h : w.tree.Leads w.cwd dir d) (hname : '/' ∉ name.toList)

include h hname

theorem Truncated.confined {w' : World}
    (hw' : w.Truncated (dir.join ⟨protoFileName name⟩) w') :
    w.Confined .truncate dir d (protoFileName name) w'.tree := by
  have hslash := slash_mem_protoFileName.not.mpr hname
  have hs := isStepName_protoFileName name
  rcases hw' with htree | ⟨f, t, hcreate, hsame⟩
  · exact .of_eq htree
  refine ⟨f.location, hsame, ?_⟩
  by_cases hlink : ∃ target, w.tree.get? (d ++ [protoFileName name]) = some (.link target)
  · rcases w.tree.create_cases w.cwd (dir.join ⟨protoFileName name⟩) with
      ⟨e, he⟩ | ⟨reached, f', t', hreach, hcreate', hplace, -⟩
    · cases he.symm.trans hcreate
    · cases hcreate'.symm.trans hcreate
      exact .inr ⟨rfl, hlink, reached, hreach, hplace.symm⟩
  · exact .inl (h.location_of_create hslash hs (fun target he => hlink ⟨target, he⟩) hcreate)

theorem writeFile_confined (mode : WriteMode) (bytes : List UInt8) :
    w.Confined mode dir d (protoFileName name)
      ((host.writeFile mode dir (dir.join ⟨protoFileName name⟩) bytes).run w).2.tree := by
  cases mode with
  | truncate =>
    exact Truncated.confined h hname (ends_writeTruncating w _ bytes).state
  | atomic =>
    -- A write to the world is one on trial that meets with no mishap.
    obtain ⟨-, hworld, -⟩ := Trial.agrees_writeAtomically dir
      (dir.join ⟨protoFileName name⟩) bytes { world := w } rfl
    obtain ⟨-, hend⟩ := Trial.writeAtomically_cases h hname [] bytes
    rw [hworld] at hend
    show w.Confined .atomic dir d _ ((host.writeAtomically dir _ bytes).run w).2.tree
    rcases hend with ⟨-, hfree, hw'⟩ | ⟨-, hw'⟩
    · rw [hw']
      exact ⟨_, sameExcept_put _ _ _ _, .inl rfl⟩
    · exact .of_eq (by rw [hw'])

end Write

/-! ## The whole write -/

/-- Reports change no tree, so a write leaves the tree that its steps have left. -/
theorem tree_writeBytes (mode : WriteMode) (name : String) (dir : Path) (bytes : List UInt8)
    (w : World) : (host.writeBytes mode name dir bytes w).2.tree =
      ((host.persist mode (protoFileName name) dir (dir.join ⟨protoFileName name⟩) bytes).run
        w).2.tree := by
  cases hrun : (host.persist mode (protoFileName name) dir (dir.join ⟨protoFileName name⟩)
    bytes).run w with
  | mk outcome w' =>
    cases outcome with
    | ok => exact (writeBytes_of_ok hrun).2
    | error e => exact (writeBytes_of_error hrun).2

section Leads

variable (h : w.tree.Leads w.cwd dir d)

include h

/-- Into a directory that is there, a write comes to writing the file, and changes nothing before. -/
theorem tree_writeText (hname : '/' ∉ name.toList) (mode : WriteMode) (text : String) :
    ∃ w', w'.cwd = w.cwd ∧ w'.tree = w.tree ∧ (host.writeText mode name dir text w).2.tree =
      ((host.writeFile mode dir (dir.join ⟨protoFileName name⟩) (Utf8.encode text)).run
        w').2.tree := by
  obtain ⟨w', hrun, hcwd, htree⟩ := ensureDirectory_of_leads h
  refine ⟨w', hcwd, htree, (tree_writeBytes mode name dir _ w).trans ?_⟩
  have hpersist : host.persist mode (protoFileName name) dir (dir.join ⟨protoFileName name⟩)
      (Utf8.encode text) w =
      host.writeFile mode dir (dir.join ⟨protoFileName name⟩) (Utf8.encode text) w' := by
    rw [persist_of_name hname rfl]
    exact bind_of_ok hrun
  exact congrArg (·.2.tree) hpersist

/-- A write in place leaves the content in the file that the target's path leads to. -/
theorem tree_writeText_truncate {text s : String} {elsewhere : Location} {content : List UInt8}
    (hname : '/' ∉ name.toList)
    (hreach : w.tree.reach w.cwd (dir.join ⟨protoFileName name⟩)
      (dir.join ⟨protoFileName name⟩).walkSteps = .ok (.place (elsewhere ++ [s])))
    (hfile : w.tree.get? (elsewhere ++ [s]) = some (.file content)) :
    (host.writeText .truncate name dir text w).2.tree
      = w.tree.put elsewhere s (.file (Utf8.encode text)) := by
  obtain ⟨w', hcwd, htree, hout⟩ := tree_writeText h hname .truncate text
  have hfree : w'.tree.IsFree elsewhere s := isFree_of_some (htree ▸ hfile) (by simp)
  have hcreate : w'.tree.create w'.cwd (dir.join ⟨protoFileName name⟩)
      = .ok (⟨elsewhere, s⟩, w'.tree.put elsewhere s (.file [])) := by
    rw [hcwd, htree]
    exact create_of_file hreach hfile
  rw [hout, ← htree]
  exact congrArg (·.2.tree) (writeTruncating_of_create hfree hcreate)

end Leads

/-- **A write stays where it belongs.** A write into a directory that is there, whether it succeeds
or not, changes one place at most. That is the target's place in the directory, unless the file is
written in place and a link has that place already; then it is where the target's path leads. -/
theorem writeText_confined (h : w.tree.Leads w.cwd dir d) (mode : WriteMode) (name text : String) :
    w.Confined mode dir d (protoFileName name) (host.writeText mode name dir text w).2.tree := by
  by_cases hslash : '/' ∈ name.toList
  · exact .of_eq (writeBytes_of_slash hslash).2
  obtain ⟨w', hcwd, htree, hout⟩ := tree_writeText h hslash mode text
  have hfile := writeFile_confined (w := w') (by rw [htree, hcwd]; exact h) hslash mode
    (Utf8.encode text)
  rw [Confined, htree, hcwd] at hfile
  rw [hout]
  exact hfile

/-! ## A link in the target's place -/

/-- A directory in which a link to a file outside has the place of a target. -/
def linkedTarget : World where
  tree := (((default : FileTree).put [] "out" .directory).put ["out"] "a.proto"
    (.link ⟨"../notes"⟩)).put [] "notes" (.file [0x6F])

theorem leads_linkedTarget : linkedTarget.tree.Leads linkedTarget.cwd ⟨"out"⟩ ["out"] where
  follow := by
    rw [if_neg (by decide)]
    exact follow_of_directory ⟨⟨rfl, by decide⟩, by decide, by decide⟩ (by decide) (by decide)
  directory := by decide

/-- An atomic write takes the link's place, and the file that the link led to is as before. -/
theorem writeText_confined_linkedTarget :
    linkedTarget.tree.Leads linkedTarget.cwd ⟨"out"⟩ ["out"] ∧
      (host.writeText .atomic "a" ⟨"out"⟩ "n" linkedTarget).2.tree.get? ["notes"]
        = some (.file [0x6F]) := by
  refine ⟨leads_linkedTarget, ?_⟩
  obtain ⟨place, hsame, hplace | ⟨hmode, -⟩⟩ :=
    writeText_confined leads_linkedTarget .atomic "a" "n"
  · refine (hsame ["notes"] ?_).trans (by decide)
    rw [hplace]
    decide
  · cases hmode

/-- A write in place gets through the link to the file outside. -/
theorem writeText_follows_link :
    linkedTarget.tree.Leads linkedTarget.cwd ⟨"out"⟩ ["out"] ∧
      ¬∀ l, (∀ child, l ≠ ["out"] ++ [child]) →
        (host.writeText .truncate "a" ⟨"out"⟩ "n" linkedTarget).2.tree.get? l
          = linkedTarget.tree.get? l := by
  refine ⟨leads_linkedTarget, fun hall => ?_⟩
  have fits (s : String) (h : s = "out" ∨ s = "a.proto" ∨ s = "notes") : FitsStep s := by
    rcases h with rfl | rfl | rfl <;> exact ⟨by decide, by decide⟩
  -- From the link the walk goes up again, and on to the file.
  have hlink : linkedTarget.tree.Walks 39 ["out"] ["..", "notes"] 39 ["notes"] := by
    refine .up (by decide) ?_
    exact .enter (e := .file [0x6F]) (by decide) (fits "notes" (by decide)) (by decide) nofun .done
  have hwalks : linkedTarget.tree.Walks linkLimit [] ["out", "a.proto"] 39 ["notes"] := by
    refine .enter (e := .directory) (by decide) (fits "out" (by decide)) (by decide) nofun ?_
    exact .link (by decide) (fits "a.proto" (by decide))
      (show linkedTarget.tree.get? ["out", "a.proto"] = some (.link ⟨"../notes"⟩) by decide) hlink
  have hwrite : (host.writeText .truncate "a" ⟨"out"⟩ "n" linkedTarget).2.tree
      = linkedTarget.tree.put [] "notes" (.file (Utf8.encode "n")) :=
    tree_writeText_truncate leads_linkedTarget (by decide) hwalks.walk_eq
      (show linkedTarget.tree.get? ["notes"] = some (.file [0x6F]) by decide)
  have hnotes := hall ["notes"] (by simp)
  rw [hwrite] at hnotes
  exact absurd hnotes (by decide)

end ProtoScribe.World
