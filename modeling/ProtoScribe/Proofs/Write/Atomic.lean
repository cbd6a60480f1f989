import ProtoScribe.Proofs.Write.Faults
import ProtoScribe.Proofs.Write.Name

/-!
# Atomic writes under mishaps

Whatever befalls the steps of an atomic write, in any tree, the target's entry is the old one or the
whole new file at every moment. The write passes through few trees (`Stage`): the one it started
from, that one with a new file beside the target, and the one with the new content at the target. A
step that fails leaves one of the first two, and the handler removes the new file again.
-/

namespace ProtoScribe.Trial

open FileTree

/-- The trees that an atomic write into a directory passes through. -/
inductive Stage (t : FileTree) (d : Location) (temporary s : String) (bytes : List UInt8) :
    FileTree → Prop where
  | before : Stage t d temporary s bytes t
  | filling (content : List UInt8) :
    Stage t d temporary s bytes (t.put d temporary (.file content))
  | after : t.IsFree d s → Stage t d temporary s bytes (t.put d s (.file bytes))

/-- The target's entry is the old one or the new file at every stage. -/
theorem Stage.get?_target {t t' : FileTree} {d : Location} {temporary s : String}
    {bytes : List UInt8} (hne : temporary ≠ s) (h : Stage t d temporary s bytes t') :
    t'.get? (d ++ [s]) = t.get? (d ++ [s]) ∨ t'.get? (d ++ [s]) = some (.file bytes) := by
  cases h with
  | before => exact .inl rfl
  | filling content => exact .inl (sameExcept_put t d temporary _ _ (by simpa using hne.symm))
  | after hfree => exact .inr (by rw [get?_put hfree, if_pos rfl])

section Steps

variable {w : World} {dir : Path} {d : Location} {temporary s : String} {bytes content : List UInt8}
  {x : Trial}

/-- A trial that has come to a stage of an atomic write. -/
abbrev Passes (w : World) (d : Location) (temporary s : String) (bytes : List UInt8)
    (tree : FileTree) (x : Trial) : Prop :=
  x.At w (Stage w.tree d temporary s bytes) tree

/-- A trial in which the content has got to the target. -/
def Finished (w : World) (d : Location) (temporary s : String) (bytes : List UInt8) (x : Trial) :
    Prop :=
  w.tree.IsFree d s ∧ Passes w d temporary s bytes (w.tree.put d s (.file bytes)) x

/-- A trial in which the new file stands beside the target, with whatever has been written. -/
def Unfinished (w : World) (d : Location) (temporary s : String) (bytes : List UInt8) (x : Trial) :
    Prop :=
  ∃ content, Passes w d temporary s bytes (w.tree.put d temporary (.file content)) x

/-! ## Filling the new file -/

section Fill

variable (hfree : w.tree.IsFree d temporary)

include hfree

theorem exists_appendEach : ∀ (bs content : List UInt8) {x : Trial},
    Passes w d temporary s bytes (w.tree.put d temporary (.file content)) x →
    ∃ x', appendEach ⟨d, temporary⟩ bs x = (.ok (), x') ∧
      Passes w d temporary s bytes (w.tree.put d temporary (.file (content ++ bs))) x'
  | [], content, x, hx =>
    hx.run (World.append_of_ok (append_put hfree)) (.filling _)
  | b :: bs, content, x, hx => by
    obtain ⟨x₁, hrun, hx₁⟩ := hx.run (World.append_of_ok (append_put hfree)) (.filling _)
    obtain ⟨x₂, hrest, hx₂⟩ := exists_appendEach bs (content ++ [b]) hx₁
    refine ⟨x₂, ?_, by simpa using hx₂⟩
    rw [appendEach, bind_apply, hrun]
    exact hrest

/-- An append that fails leaves the new file with whatever has been written. -/
theorem ends_append (hx : Passes w d temporary s bytes (w.tree.put d temporary (.file content)) x)
    (bs : List UInt8) :
    Ends (ExceptT.mk (append ⟨d, temporary⟩ bs)) x
      (fun _ => Passes w d temporary s bytes (w.tree.put d temporary (.file (content ++ bs))))
      (fun _ => Unfinished w d temporary s bytes) := by
  cases hm : x.upcoming with
  | none =>
    obtain ⟨x', hrun, hx'⟩ := exists_appendEach hfree bs content hx.passed
    exact .of_ok ((append_of_none hm).trans hrun) hx'
  | some mishap =>
    obtain ⟨x', hrun, hx'⟩ := exists_appendEach hfree (bs.take mishap.written) content hx.passed
    refine .of_error (append_of_some hm) ⟨content ++ bs.take mishap.written, ?_⟩
    rw [hrun]
    exact hx'

omit hfree in
/-- A step that changes nothing leaves the full file full, whether it fails or not. -/
theorem ends_step_of_keeps {action : StateM World (Except Errno Unit)}
    (hx : Passes w d temporary s bytes (w.tree.put d temporary (.file bytes)) x)
    (haction : ∀ w', w'.tree = w.tree.put d temporary (.file bytes) → action w' = (.ok (), w')) :
    Ends (ExceptT.mk (step action)) x
      (fun _ => Passes w d temporary s bytes (w.tree.put d temporary (.file bytes)))
      (fun _ => Unfinished w d temporary s bytes) := by
  refine hx.ends_step (fun _ _ hx' => ⟨bytes, hx'⟩) fun x₁ hx₁ => ?_
  obtain ⟨x₂, hrun, hx₂⟩ := hx₁.run (haction { w with tree := _ } rfl) (.filling bytes)
  exact .of_ok hrun hx₂

end Fill

/-! ## Putting it in its place -/

variable (h : w.tree.Leads w.cwd dir d) (hslash : '/' ∉ s.toList) (hs : Path.IsStepName s)
  (hn : w.tree.get? (d ++ [temporary]) = none) (hne : temporary ≠ s)

include h hslash hs hn hne

theorem ends_rename (hx : Passes w d temporary s bytes (w.tree.put d temporary (.file bytes)) x) :
    Ends (ExceptT.mk (host.rename ⟨d, temporary⟩ (dir.join ⟨s⟩))) x
      (fun _ => Finished w d temporary s bytes)
      (fun _ => Unfinished w d temporary s bytes) := by
  refine hx.ends_step (fun _ _ hx' => ⟨bytes, hx'⟩) fun x₁ hx₁ => ?_
  rcases h.rename_cases hslash hs bytes hn hne with ⟨e, he⟩ | ⟨hfree, hok⟩
  · obtain ⟨x₂, hrun, hx₂⟩ := hx₁.run (World.rename_of_error he) (.filling bytes)
    exact .of_error hrun ⟨bytes, hx₂⟩
  · obtain ⟨x₂, hrun, hx₂⟩ := hx₁.run (World.rename_of_ok hok) (.after hfree)
    exact .of_ok hrun ⟨hfree, hx₂⟩

/-- The content gets to the target, or the new file is still beside it. -/
theorem ends_fillAndRename
    (hx : Passes w d temporary s bytes (w.tree.put d temporary (.file [])) x) :
    Ends (host.fillAndRename ⟨d, temporary⟩ (dir.join ⟨s⟩) bytes) x
      (fun _ => Finished w d temporary s bytes)
      (fun _ => Unfinished w d temporary s bytes) := by
  have hfree := isFree_of_none h.directory hn
  rw [Host.fillAndRename]
  have hsync (w' : World) (hw' : w'.tree = w.tree.put d temporary (.file bytes)) :
      World.host.sync ⟨d, temporary⟩ w' = (.ok (), w') := by
    rw [World.sync_apply, hw', sync_put hfree]
  refine .bind (.attempt ((ends_append hfree hx bytes).mono (fun _ x₁ hx₁ => ?_) fun _ _ => id))
  have hflush := ends_step_of_keeps hx₁ fun w' _ => World.flush_apply ⟨d, temporary⟩
  refine .bind (.attempt (hflush.mono (fun _ x₂ hx₂ => ?_) fun _ _ => id))
  refine .bind (.attempt ((ends_step_of_keeps hx₂ hsync).mono (fun _ x₃ hx₃ => ?_) fun _ _ => id))
  exact .attempt (ends_rename h hslash hs hn hne hx₃)

/-! ## From the start -/

omit hn hne in
/-- An atomic write puts the content at the target, or leaves all as it was. -/
theorem ends_writeAtomically (hfresh : w.tree.freshName? d = some temporary) (hne : temporary ≠ s)
    (hn : w.tree.get? (d ++ [temporary]) = none) (hx : Passes w d temporary s bytes w.tree x) :
    Ends (host.writeAtomically dir (dir.join ⟨s⟩) bytes) x
      (fun _ => Finished w d temporary s bytes)
      (fun _ => Passes w d temporary s bytes w.tree) := by
  have hfree := isFree_of_none h.directory hn
  rw [Host.writeAtomically]
  refine .bind (.attempt (hx.ends_step (fun _ _ hx' => hx') fun x₁ hx₁ => ?_))
  rcases h.createTemporary_cases hfresh with ⟨e, he⟩ | hok
  · obtain ⟨x₂, hrun, hx₂⟩ := hx₁.run (World.createTemporary_of_error he) .before
    exact .of_error hrun hx₂
  obtain ⟨x₂, hrun, hx₂⟩ := hx₁.run (World.createTemporary_of_ok hok) (.filling [])
  refine .of_ok hrun (.tryCatch ((ends_fillAndRename h hslash hs hn hne hx₂).mono
    (fun _ _ => id) ?_))
  -- The handler removes the new file, however far it has been filled.
  rintro e x₃ ⟨content, hx₃⟩
  have hdiscard : World.host.discard ⟨d, temporary⟩
      { w with tree := w.tree.put d temporary (.file content) }
      = ((), { w with tree := w.tree }) := by
    show ((), { w with tree := (w.tree.put d temporary (.file content)).remove d temporary }) = _
    rw [remove_put hfree hn (by simp)]
  obtain ⟨x₄, hgone, hx₄⟩ := hx₃.run hdiscard .before
  refine .of_error (e := e) ?_ hx₄
  show (_, (run (World.host.discard ⟨d, temporary⟩) x₃).2) = _
  rw [hgone]

end Steps

/-- Where the directory is none, an atomic write fails and has changed nothing at any moment. -/
theorem ends_writeAtomically_of_not_leads {w : World} {dir : Path} {x : Trial}
    (h : ∀ d, ¬w.tree.Leads w.cwd dir d) (target : Path) (bytes : List UInt8)
    (hx : x.At w (· = w.tree) w.tree) :
    Ends (host.writeAtomically dir target bytes) x (fun _ _ => False)
      (fun _ => At w (· = w.tree) w.tree) := by
  obtain ⟨e, he⟩ := exists_createTemporary_error h
  rw [Host.writeAtomically]
  refine .bind (.attempt (hx.ends_step (fun _ _ hx' => hx') fun x₁ hx₁ => ?_))
  obtain ⟨x₂, hrun, hx₂⟩ := hx₁.run (World.createTemporary_of_error he) rfl
  exact .of_error hrun hx₂

/-! ## All mishaps -/

section

variable {w : World} {dir : Path} {d : Location} {name : String}

/-- An atomic write into a directory has passed through its stages, and either the content stands at
the target or the world is as it was. -/
theorem writeAtomically_cases (h : w.tree.Leads w.cwd dir d) (hname : '/' ∉ name.toList)
    (mishaps : List (Option Mishap)) (bytes : List UInt8) :
    let s := protoFileName name
    let out := (host.writeAtomically dir (dir.join ⟨s⟩) bytes).run { world := w, mishaps }
    (∃ temporary, temporary ≠ s ∧ ∀ t ∈ out.2.history, Stage w.tree d temporary s bytes t) ∧
      (out.1 = .ok () ∧ w.tree.IsFree d s ∧
          out.2.world = { w with tree := w.tree.put d s (.file bytes) } ∨
        (∃ e, out.1 = .error e) ∧ out.2.world = w) := by
  intro s out
  obtain ⟨n, hfresh, hn, -⟩ := w.tree.exists_freshName d
  have hne : temporaryName n ≠ s := temporaryName_ne_protoFileName n name
  have hstart : Passes w d (temporaryName n) s bytes w.tree { world := w, mishaps } :=
    ⟨rfl, nofun⟩
  have hend := ends_writeAtomically h (slash_mem_protoFileName.not.mpr hname)
    (isStepName_protoFileName name) hfresh hne hn hstart
  rcases hend.cases with ⟨a, x, hrun, hfree, hx⟩ | ⟨e, x, hrun, hx⟩
  · have hout : out = (.ok a, x) := hrun
    rw [hout]
    exact ⟨⟨_, hne, hx.history⟩, .inl ⟨rfl, hfree, hx.world⟩⟩
  · have hout : out = (.error e, x) := hrun
    rw [hout]
    exact ⟨⟨_, hne, hx.history⟩, .inr ⟨⟨e, rfl⟩, hx.world⟩⟩

/-- What is no directory is not written into, not even for a moment. -/
theorem writeAtomically_of_not_leads (h : ∀ d, ¬w.tree.Leads w.cwd dir d) (target : Path)
    (mishaps : List (Option Mishap)) (bytes : List UInt8) :
    let out := (host.writeAtomically dir target bytes).run { world := w, mishaps }
    (∃ e, out.1 = .error e) ∧ out.2.world.tree = w.tree ∧ ∀ t ∈ out.2.history, t = w.tree := by
  intro out
  have hend := ends_writeAtomically_of_not_leads h target bytes (x := { world := w, mishaps })
    ⟨rfl, nofun⟩
  rcases hend.cases with ⟨-, -, -, hno⟩ | ⟨e, x, hrun, hx⟩
  · exact hno.elim
  · have hout : out = (.error e, x) := hrun
    rw [hout]
    exact ⟨⟨e, rfl⟩, by rw [hx.world], hx.history⟩

end

/-- **An atomic write is all or nothing.** Whichever of its steps fail, and in whatever tree: at
every moment the target's entry is as it was or a file with the whole new content. It is the new one
if the write succeeds and the old one if that fails, so if the two differ, the new one stands there
exactly if the write has succeeded. Afterwards nothing else has changed, and so the new file beside
the target is gone. Where the directory is none, the write fails and there is never any change. -/
theorem writeAtomically_all_or_nothing (w : World) (mishaps : List (Option Mishap)) (dir : Path)
    {name : String} (hname : '/' ∉ name.toList) (bytes : List UInt8) :
    let out := (host.writeAtomically dir (dir.join ⟨protoFileName name⟩) bytes).run
      { world := w, mishaps }
    (∀ d, w.tree.Leads w.cwd dir d →
      let place := d ++ [protoFileName name]
      (∀ t ∈ out.2.history,
        t.get? place = w.tree.get? place ∨ t.get? place = some (.file bytes)) ∧
      (out.1 = .ok () → out.2.world.tree.get? place = some (.file bytes)) ∧
      (∀ e, out.1 = .error e → out.2.world.tree.get? place = w.tree.get? place) ∧
      (w.tree.get? place ≠ some (.file bytes) →
        (out.2.world.tree.get? place = some (.file bytes) ↔ out.1 = .ok ())) ∧
      ∀ l, l ≠ place → out.2.world.tree.get? l = w.tree.get? l) ∧
    ((∀ d, ¬w.tree.Leads w.cwd dir d) →
      (∃ e, out.1 = .error e) ∧ out.2.world.tree = w.tree ∧ ∀ t ∈ out.2.history, t = w.tree) := by
  intro out
  refine ⟨fun d hd => ?_, fun hno => writeAtomically_of_not_leads hno _ mishaps bytes⟩
  intro place
  obtain ⟨⟨temporary, hne, hstages⟩, hend⟩ := writeAtomically_cases hd hname mishaps bytes
  refine ⟨fun t ht => (hstages t ht).get?_target hne, ?_⟩
  rcases hend with ⟨hok, hfree, hworld⟩ | ⟨⟨e, herror⟩, hworld⟩
  · have hget (l : Location) :
        out.2.world.tree.get? l = if l = place then some (.file bytes) else w.tree.get? l := by
      rw [hworld]
      exact get?_put hfree _ l
    have hnew : out.2.world.tree.get? place = some (.file bytes) := by rw [hget, if_pos rfl]
    refine ⟨fun _ => hnew, fun e he => ?_, fun _ => ⟨fun _ => hok, fun _ => hnew⟩, fun l hl => ?_⟩
    · cases hok.symm.trans he
    · rw [hget, if_neg hl]
  · have hfailed : out.1 ≠ .ok () := fun hok => nomatch herror.symm.trans hok
    have htree : out.2.world.tree = w.tree := by rw [hworld]
    refine ⟨fun hok => absurd hok hfailed, fun _ _ => by rw [htree], fun hold => ?_, fun l _ => by
      rw [htree]⟩
    refine ⟨fun hnew => absurd ?_ hold, fun hok => absurd hok hfailed⟩
    rw [← htree]
    exact hnew

/-- A write into the working directory whose append fails after a byte. -/
theorem writeAtomically_all_or_nothing_short_append :
    let w : World := { tree := (default : FileTree).put [] "a.proto" (.file [0x68, 0x69]) }
    let out := (host.writeAtomically ⟨""⟩ ⟨"a.proto"⟩ [0x79, 0x6F]).run
      { world := w, mishaps := [none, some ⟨.noSpace, 1⟩] }
    '/' ∉ "a".toList ∧ w.tree.Leads w.cwd ⟨""⟩ [] ∧
      (∀ t ∈ out.2.history, t.get? ["a.proto"] = some (.file [0x68, 0x69]) ∨
        t.get? ["a.proto"] = some (.file [0x79, 0x6F])) ∧
      out.1 = .error (.transfer ⟨"a.proto"⟩ (.system .noSpace)) ∧
      out.2.world.tree.get? ["a.proto"] = some (.file [0x68, 0x69]) := by
  intro w
  have hname : '/' ∉ "a".toList := by decide
  have hleads : w.tree.Leads w.cwd ⟨""⟩ [] := ⟨by decide, by decide⟩
  have hw : w.tree.get? ["a.proto"] = some (.file [0x68, 0x69]) := by decide
  have htarget : Path.join ⟨""⟩ ⟨protoFileName "a"⟩ = ⟨"a.proto"⟩ := by decide
  have hplace : [] ++ [protoFileName "a"] = ["a.proto"] := by decide
  have herror : ((host.writeAtomically ⟨""⟩ ⟨"a.proto"⟩ [0x79, 0x6F]).run
      { world := w, mishaps := [none, some ⟨.noSpace, 1⟩] }).1
      = .error (.transfer ⟨"a.proto"⟩ (.system .noSpace)) := by decide
  have hall := (writeAtomically_all_or_nothing w [none, some ⟨.noSpace, 1⟩] ⟨""⟩ hname
    [0x79, 0x6F]).1 [] hleads
  simp only [htarget, hplace, hw] at hall
  obtain ⟨hstages, -, hold, -⟩ := hall
  exact ⟨hname, hleads, hstages, herror, hold _ herror⟩

/-- A write that fails may still find the new content at the target: it was there before. -/
theorem writeAtomically_failed_onto_same_content :
    let w : World := { tree := (default : FileTree).put [] "a.proto" (.file [0x78]) }
    let out := (host.writeAtomically ⟨""⟩ ⟨"a.proto"⟩ [0x78]).run
      { world := w, mishaps := [none, none, none, none, some ⟨.nameTooLong, 0⟩] }
    ¬(out.2.world.tree.get? ["a.proto"] = some (.file [0x78]) ↔ out.1 = .ok ()) := by
  decide

end ProtoScribe.Trial
