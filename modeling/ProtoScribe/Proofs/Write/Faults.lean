import ProtoScribe.Proofs.Storage.Commands
import ProtoScribe.Proofs.Write.Mirrors

/-!
# Steps that fail by mishap

A world in which any command may fail for reasons that its tree does not show, and which keeps all
trees that there have been. A file is filled byte by byte, so a mishap finds it partly filled.

Without mishaps a program does there what it does in the world (`Trial.Agrees`), so what holds
whatever befalls holds of a write to the world as well.
-/

namespace ProtoScribe

/-- What makes a step fail, and how many bytes have been written by then. -/
structure Mishap where
  errno : Errno
  written : Nat := 0
  deriving DecidableEq, Repr, Inhabited

/-- A world on trial: the mishaps that await the next steps, and the trees there have been. -/
structure Trial where
  world : World
  /-- One for each step to come, if it meets with one; later steps meet with none. -/
  mishaps : List (Option Mishap) := []
  history : List FileTree := []

namespace Trial

/-- Does what the world does, and keeps the tree that it leaves. -/
def run {α : Type} (action : StateM World α) : StateM Trial α := fun x =>
  let (a, world) := action x.world
  (a, { x with world, history := x.history ++ [world.tree] })

/-- What the next step meets with. -/
def upcoming (x : Trial) : Option Mishap := x.mishaps.head?.join

/-- The trial when the next step has met with that. -/
def passed (x : Trial) : Trial := { x with mishaps := x.mishaps.tail }

/-- Meets with what is upcoming. -/
def next : StateM Trial (Option Mishap) := fun x => (x.upcoming, x.passed)

/-- A step that does nothing if it meets with a mishap. -/
def step {α : Type} (action : StateM World (Except Errno α)) : StateM Trial (Except Errno α) := do
  match ← next with
  | some mishap => return .error mishap.errno
  | none => run action

/-- Adds bytes to the end of an open file, one at a time. -/
def appendEach (f : OpenFile) : List UInt8 → StateM Trial (Except Errno Unit)
  | [] => run (World.host.append f [])
  | b :: bytes => do
    match ← run (World.host.append f [b]) with
    | .ok () => appendEach f bytes
    | .error e => return .error e

/-- Adds bytes to the end of an open file, as far as a mishap lets it. -/
def append (f : OpenFile) (bytes : List UInt8) : StateM Trial (Except Errno Unit) := do
  match ← next with
  | none => appendEach f bytes
  | some mishap =>
    let _ ← appendEach f (bytes.take mishap.written)
    return .error mishap.errno

/-- The surroundings that a world on trial offers. -/
def host : Host OpenFile (StateM Trial) where
  workingDirectory := run World.host.workingDirectory
  isDirectory p := run (World.host.isDirectory p)
  isFile p := run (World.host.isFile p)
  leads p := run (World.host.leads p)
  readBytes p := step (World.host.readBytes p)
  makeDirectory p := step (World.host.makeDirectory p)
  create p := step (World.host.create p)
  createTemporary p := step (World.host.createTemporary p)
  append := append
  flush f := step (World.host.flush f)
  sync f := step (World.host.sync f)
  rename f p := step (World.host.rename f p)
  discard f := run (World.host.discard f)
  report e := run (World.host.report e)

/-! ## Steps -/

variable {x : Trial}

section

variable {α : Type} {action : StateM World (Except Errno α)} {f : OpenFile} {bytes : List UInt8}
  {mishap : Mishap}

theorem step_of_none (h : x.upcoming = none) : step action x = run action x.passed := by
  rw [step, bind_apply, next, h]

theorem step_of_some (h : x.upcoming = some mishap) :
    step action x = (.error mishap.errno, x.passed) := by
  rw [step, bind_apply, next, h]
  rfl

theorem append_of_none (h : x.upcoming = none) :
    append f bytes x = appendEach f bytes x.passed := by
  rw [append, bind_apply, next, h]

theorem append_of_some (h : x.upcoming = some mishap) :
    append f bytes x
      = (.error mishap.errno, (appendEach f (bytes.take mishap.written) x.passed).2) := by
  rw [append, bind_apply, next, h]
  rfl

end

theorem upcoming_of_nil (h : x.mishaps = []) : x.upcoming = none := by
  rw [upcoming, h]
  rfl

theorem passed_of_nil (h : x.mishaps = []) : x.passed = x := by
  rw [passed, h, List.tail_nil, ← h]

/-! ## Trials without mishaps -/

section Agrees

variable {α β : Type}

/-- Without mishaps, a program on trial does what a program does to the world. -/
def Agrees (p : StateM Trial α) (q : StateM World α) : Prop :=
  ∀ x : Trial, x.mishaps = [] →
    (p x).1 = (q x.world).1 ∧ (p x).2.world = (q x.world).2 ∧ (p x).2.mishaps = []

theorem agrees_run (action : StateM World α) : Agrees (run action) action :=
  fun _ hx => ⟨rfl, rfl, hx⟩

theorem agrees_step (action : StateM World (Except Errno α)) : Agrees (step action) action := by
  intro x hx
  rw [step_of_none (upcoming_of_nil hx), passed_of_nil hx]
  exact agrees_run action x hx

theorem agrees_pure (a : α) : Agrees (pure a) (pure a) :=
  fun _ hx => ⟨rfl, rfl, hx⟩

/-- Programs agree if their first steps do and what follows does, whatever those result in. -/
theorem Agrees.bind {p : StateM Trial α} {q : StateM World α} {f : α → StateM Trial β}
    {g : α → StateM World β} (h : Agrees p q) (hf : ∀ a, Agrees (f a) (g a)) :
    Agrees (p >>= f) (q >>= g) := by
  intro x hx
  obtain ⟨ha, hworld, hnone⟩ := h x hx
  rw [bind_apply, bind_apply, ← ha, ← hworld]
  exact hf _ _ hnone

/-- In the world, too, bytes can be added one at a time. -/
theorem append_cons (f : OpenFile) (b : UInt8) (bytes : List UInt8) :
    World.host.append f (b :: bytes) = (do
      match ← World.host.append f [b] with
      | .ok () => World.host.append f bytes
      | .error e => return .error e) := by
  funext w
  have hcons := w.tree.append_cons f b bytes
  rw [bind_apply]
  cases h : w.tree.append f [b] with
  | error e =>
    rw [h] at hcons
    rw [World.append_of_error hcons, World.append_of_error h]
    rfl
  | ok tree =>
    rw [h] at hcons
    rw [World.append_of_ok h]
    show _ = World.host.append f bytes { w with tree }
    cases hrest : tree.append f bytes with
    | error e =>
      have hfirst := FileTree.append_singleton_of_error (hcons.trans hrest)
      rw [h] at hfirst
      cases hfirst
    | ok tree' =>
      rw [World.append_of_ok (hcons.trans hrest)]
      exact (World.append_of_ok (w := { w with tree }) hrest).symm

/-- Filling a file byte by byte comes to filling it at once. -/
theorem agrees_appendEach (f : OpenFile) :
    ∀ bytes, Agrees (appendEach f bytes) (World.host.append f bytes)
  | [] => agrees_run _
  | b :: bytes => by
    rw [append_cons, appendEach]
    refine (agrees_run _).bind fun outcome => ?_
    cases outcome with
    | ok => exact agrees_appendEach f bytes
    | error e => exact agrees_pure _

theorem agrees_append (f : OpenFile) (bytes : List UInt8) :
    Agrees (append f bytes) (World.host.append f bytes) := by
  intro x hx
  rw [append_of_none (upcoming_of_nil hx), passed_of_nil hx]
  exact agrees_appendEach f bytes x hx

/-- A trial of a world that no mishap awaits. -/
def Unhindered (x : Trial) (w : World) : Prop := x.world = w ∧ x.mishaps = []

theorem Agrees.mirrors {p : StateM Trial α} {q : StateM World α} {w : World} (h : Agrees p q)
    (hx : x.Unhindered w) : Mirrors Unhindered p x q w := by
  obtain ⟨rfl, hnone⟩ := hx
  exact h x hnone

theorem agrees_of_mirrors {p : StateM Trial α} {q : StateM World α}
    (h : ∀ x w, Unhindered x w → Mirrors Unhindered p x q w) : Agrees p q :=
  fun x hx => h x x.world ⟨rfl, hx⟩

theorem mirrorsWrites_world : host.MirrorsWrites Unhindered Unhindered (fun _ => True)
    (fun _ => True) (fun _ => True) World.host where
  weaken := id
  isDirectory _ := (agrees_run _).mirrors
  leads _ := (agrees_run _).mirrors
  makeDirectory _ := (agrees_step _).mirrors
  create _ h := ⟨(agrees_step _).mirrors h, fun _ _ => trivial⟩
  createTemporary _ h := ⟨(agrees_step _).mirrors h, fun _ _ => trivial⟩
  append _ := (agrees_append _ _).mirrors
  flush _ := (agrees_step _).mirrors
  sync _ := (agrees_step _).mirrors
  rename _ _ := (agrees_step _).mirrors
  discard _ := (agrees_run _).mirrors
  report _ _ _ _ := (agrees_run _).mirrors
  conclude _ _ _ _ := (agrees_run _).mirrors

/-- A write on trial that meets with no mishap is the write to the world, in either mode. -/
theorem agrees_writeBytes (mode : WriteMode) (name : String) (dir : Path) (bytes : List UInt8) :
    Agrees (host.writeBytes mode name dir bytes) (World.host.writeBytes mode name dir bytes) :=
  agrees_of_mirrors fun _ _ =>
    mirrorsWrites_world.writeBytes trivial trivial mode name (fun _ _ => trivial) trivial

/-- So is the part of it that puts a new file in place of another. -/
theorem agrees_writeAtomically (dir target : Path) (bytes : List UInt8) :
    Agrees (host.writeAtomically dir target bytes).run
      (World.host.writeAtomically dir target bytes).run :=
  agrees_of_mirrors fun _ _ => mirrorsWrites_world.writeAtomically trivial trivial

end Agrees

/-! ## Trees there have been -/

variable {α : Type} {w : World} {stages : FileTree → Prop} {tree tree' : FileTree}

/-- A trial of the world `w` that has come to a tree, having passed through trees of a kind. -/
structure At (w : World) (stages : FileTree → Prop) (tree : FileTree) (x : Trial) : Prop where
  world : x.world = { w with tree }
  history : ∀ t ∈ x.history, stages t

namespace At

theorem passed (hx : x.At w stages tree) : x.passed.At w stages tree :=
  ⟨hx.world, hx.history⟩

theorem run {action : StateM World α} {a : α} (hx : x.At w stages tree)
    (h : action { w with tree } = (a, { w with tree := tree' })) (hs : stages tree') :
    ∃ x', Trial.run action x = (a, x') ∧ x'.At w stages tree' := by
  rw [Trial.run, hx.world, h]
  refine ⟨_, rfl, rfl, fun t ht => ?_⟩
  rcases List.mem_append.mp ht with ht | ht
  · exact hx.history t ht
  · exact List.mem_singleton.mp ht ▸ hs

/-- A mishap leaves the tree as it is; otherwise the step is taken. -/
theorem ends_step {action : StateM World (Except Errno α)} {ok : α → Trial → Prop}
    {failed : Errno → Trial → Prop} (hx : x.At w stages tree)
    (hmishap : ∀ e x', x'.At w stages tree → failed e x')
    (hrun : ∀ x', x'.At w stages tree → Ends (ExceptT.mk (Trial.run action)) x' ok failed) :
    Ends (ExceptT.mk (step action)) x ok failed := by
  cases hm : x.upcoming with
  | none => exact Ends.of_eq (step_of_none hm) (hrun _ hx.passed)
  | some mishap => exact .of_error (step_of_some hm) (hmishap mishap.errno _ hx.passed)

end At

end Trial

end ProtoScribe
