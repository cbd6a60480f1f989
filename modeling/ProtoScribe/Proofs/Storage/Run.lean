import ProtoScribe.Storage.World

/-!
# Programs run on a world

A program over a world's host is a function from worlds to a result and a world. These are the
equations by which such a function is followed step by step: one for a step that succeeds, one for a
step that fails, and the change that each command makes. Those that only follow the steps hold of
programs over any state.
-/

namespace ProtoScribe

/-! ## Steps that may fail -/

section Steps

variable {σ α β ε : Type} {w w' : σ}

theorem bind_apply (x : StateM σ α) (f : α → StateM σ β) (w : σ) :
    (x >>= f) w = f (x w).1 (x w).2 := rfl

/-- A program goes on from where its first step ended. -/
theorem bind_of_ok {x : ExceptT ε (StateM σ) α} {f : α → ExceptT ε (StateM σ) β} {a : α}
    (h : x w = (.ok a, w')) : (x >>= f) w = f a w' := by
  show (ExceptT.bindCont f (x w).1) (x w).2 = _
  rw [h]
  rfl

/-- A program ends where its first step fails. -/
theorem bind_of_error {x : ExceptT ε (StateM σ) α} {f : α → ExceptT ε (StateM σ) β} {e : ε}
    (h : x w = (.error e, w')) : (x >>= f) w = (.error e, w') := by
  show (ExceptT.bindCont f (x w).1) (x w).2 = _
  rw [h]
  rfl

/-- A question is answered where it is asked. -/
theorem ask_bind (x : StateM σ α) (f : α → ExceptT ε (StateM σ) β) (w : σ) :
    ((liftM x : ExceptT ε (StateM σ) α) >>= f) w = f (x w).1 (x w).2 := rfl

theorem tryCatch_of_ok {x : ExceptT ε (StateM σ) α} {f : ε → ExceptT ε (StateM σ) α} {a : α}
    (h : x w = (.ok a, w')) : tryCatch x f w = (.ok a, w') := by
  show ExceptT.tryCatch x f w = _
  rw [ExceptT.tryCatch]
  show (x >>= _ : StateM σ _) w = _
  rw [bind_apply, h]
  rfl

/-- What a failed program left is what its handler finds. -/
theorem tryCatch_of_error {x : ExceptT ε (StateM σ) α} {f : ε → ExceptT ε (StateM σ) α}
    {e : ε} (h : x w = (.error e, w')) : tryCatch x f w = f e w' := by
  show ExceptT.tryCatch x f w = _
  rw [ExceptT.tryCatch]
  show (x >>= _ : StateM σ _) w = _
  rw [bind_apply, h]

theorem attempt_of_ok {action : StateM σ (Except Errno α)} {error : StorageFault → ε} {a : α}
    (h : action w = (.ok a, w')) : Host.attempt action error w = (.ok a, w') := by
  show ((action w).1.mapError _, (action w).2) = _
  rw [h]
  rfl

theorem attempt_of_error {action : StateM σ (Except Errno α)} {error : StorageFault → ε}
    {e : Errno} (h : action w = (.error e, w')) :
    Host.attempt action error w = (.error (error (.system e)), w') := by
  show ((action w).1.mapError _, (action w).2) = _
  rw [h]
  rfl

/-! ## How programs end -/

variable {ok : β → σ → Prop} {failed : ε → σ → Prop}

/-- A program that runs from `w` ends with a result and a state as `ok` says, or with an error and a
state as `failed` says. -/
def Ends (x : ExceptT ε (StateM σ) α) (w : σ) (ok : α → σ → Prop) (failed : ε → σ → Prop) : Prop :=
  match x w with
  | (.ok a, w') => ok a w'
  | (.error e, w') => failed e w'

theorem Ends.of_ok {x : ExceptT ε (StateM σ) β} {b : β} (h : x w = (.ok b, w')) (hok : ok b w') :
    Ends x w ok failed := by
  rw [Ends, h]
  exact hok

theorem Ends.of_error {x : ExceptT ε (StateM σ) β} {e : ε} (h : x w = (.error e, w'))
    (hfailed : failed e w') : Ends x w ok failed := by
  rw [Ends, h]
  exact hfailed

theorem Ends.cases {x : ExceptT ε (StateM σ) β} (h : Ends x w ok failed) :
    (∃ b w', x w = (.ok b, w') ∧ ok b w') ∨ ∃ e w', x w = (.error e, w') ∧ failed e w' := by
  unfold Ends at h
  split at h
  · next b w' hx => exact .inl ⟨b, w', hx, h⟩
  · next e w' hx => exact .inr ⟨e, w', hx, h⟩

/-- Programs that do the same end alike. -/
theorem Ends.of_eq {x y : ExceptT ε (StateM σ) β} (h : x w = y w') (hy : Ends y w' ok failed) :
    Ends x w ok failed := by
  rw [Ends, h]
  exact hy

theorem Ends.mono {x : ExceptT ε (StateM σ) β} {ok' : β → σ → Prop} {failed' : ε → σ → Prop}
    (h : Ends x w ok failed) (hok : ∀ b w', ok b w' → ok' b w')
    (hfailed : ∀ e w', failed e w' → failed' e w') : Ends x w ok' failed' := by
  rcases h.cases with ⟨b, w', hx, hb⟩ | ⟨e, w', hx, he⟩
  · exact .of_ok hx (hok b w' hb)
  · exact .of_error hx (hfailed e w' he)

/-- What a program leaves whether it fails or not. -/
theorem Ends.state {x : ExceptT ε (StateM σ) β} {p : σ → Prop}
    (h : Ends x w (fun _ => p) fun _ => p) : p (x.run w).2 := by
  rcases h.cases with ⟨b, w', hx, hp⟩ | ⟨e, w', hx, hp⟩ <;>
    exact (congrArg Prod.snd hx : (x.run w).2 = w') ▸ hp

/-- What follows a step starts where that has ended, if it has not failed. -/
theorem Ends.bind {x : ExceptT ε (StateM σ) α} {f : α → ExceptT ε (StateM σ) β}
    (h : Ends x w (fun a w' => Ends (f a) w' ok failed) failed) : Ends (x >>= f) w ok failed := by
  rcases h.cases with ⟨a, w', hx, hf⟩ | ⟨e, w', hx, he⟩
  · exact .of_eq (bind_of_ok hx) hf
  · exact .of_error (bind_of_error hx) he

/-- What follows a step may start wherever that has ended. -/
theorem Ends.andThen {x : ExceptT ε (StateM σ) α} {f : α → ExceptT ε (StateM σ) β}
    (h : Ends x w (fun _ _ => True) failed) (hf : ∀ a w', Ends (f a) w' ok failed) :
    Ends (x >>= f) w ok failed :=
  .bind (h.mono (fun a w' _ => hf a w') fun _ _ => id)

/-- A handler starts where what it handles has failed. -/
theorem Ends.tryCatch {x : ExceptT ε (StateM σ) β} {f : ε → ExceptT ε (StateM σ) β}
    (h : Ends x w ok fun e w' => Ends (f e) w' ok failed) :
    Ends (MonadExcept.tryCatch x f) w ok failed := by
  rcases h.cases with ⟨b, w', hx, hb⟩ | ⟨e, w', hx, hf⟩
  · exact .of_ok (tryCatch_of_ok hx) hb
  · exact .of_eq (tryCatch_of_error hx) hf

/-- An attempt ends as what is attempted does, whatever error that makes. -/
theorem Ends.attempt {action : StateM σ (Except Errno β)} {error : StorageFault → ε}
    (h : Ends (ExceptT.mk action) w ok fun e => failed (error (.system e))) :
    Ends (Host.attempt action error) w ok failed := by
  rcases h.cases with ⟨b, w', hx, hb⟩ | ⟨e, w', hx, he⟩
  · exact .of_ok (attempt_of_ok hx) hb
  · exact .of_error (attempt_of_error hx) he

end Steps

namespace World

variable {α : Type} {w w' : World}

/-! ## Commands -/

theorem change_of_ok {f : World → Except Errno (α × FileTree)} {a : α} {tree : FileTree}
    (h : f w = .ok (a, tree)) : change f w = (.ok a, { w with tree }) := by
  rw [change, h]

theorem change_of_error {f : World → Except Errno (α × FileTree)} {e : Errno}
    (h : f w = .error e) : change f w = (.error e, w) := by
  rw [change, h]

/-- A command that has no result but the new tree. -/
theorem command_of_ok {f : World → Except Errno FileTree} {tree : FileTree} (h : f w = .ok tree) :
    change (fun w => return ((), ← f w)) w = (.ok (), { w with tree }) :=
  change_of_ok (by rw [h]; rfl)

theorem command_of_error {f : World → Except Errno FileTree} {e : Errno} (h : f w = .error e) :
    change (fun w => return ((), ← f w)) w = (.error e, w) :=
  change_of_error (by rw [h]; rfl)

theorem of_command_eq_ok {x : Except Errno FileTree} {a : Unit} {u : FileTree}
    (h : (do return ((), ← x) : Except Errno (Unit × FileTree)) = .ok (a, u)) : x = .ok u := by
  cases x with
  | error e => cases h
  | ok t =>
    cases h
    rfl

/-- What a command returns comes with the tree that it leaves. -/
theorem exists_of_change_eq_ok {α : Type} {f : World → Except Errno (α × FileTree)} {a : α}
    (h : (change f w).1 = .ok a) : ∃ u, f w = .ok (a, u) := by
  cases hf : f w with
  | error e =>
    rw [change_of_error hf] at h
    cases h
  | ok made =>
    rw [change_of_ok hf] at h
    cases h
    exact ⟨made.2, rfl⟩

theorem makeDirectory_of_ok {p : Path} {tree : FileTree}
    (h : w.tree.makeDirectory w.cwd p = .ok tree) :
    host.makeDirectory p w = (.ok (), { w with tree }) :=
  command_of_ok (f := fun w => w.tree.makeDirectory w.cwd p) h

theorem makeDirectory_of_error {p : Path} {e : Errno}
    (h : w.tree.makeDirectory w.cwd p = .error e) : host.makeDirectory p w = (.error e, w) :=
  command_of_error (f := fun w => w.tree.makeDirectory w.cwd p) h

theorem create_of_ok {p : Path} {f : OpenFile} {tree : FileTree}
    (h : w.tree.create w.cwd p = .ok (f, tree)) : host.create p w = (.ok f, { w with tree }) :=
  change_of_ok (f := fun w => w.tree.create w.cwd p) h

theorem create_of_error {p : Path} {e : Errno} (h : w.tree.create w.cwd p = .error e) :
    host.create p w = (.error e, w) :=
  change_of_error (f := fun w => w.tree.create w.cwd p) h

theorem createTemporary_of_ok {p : Path} {f : OpenFile} {tree : FileTree}
    (h : w.tree.createTemporary w.cwd p = .ok (f, tree)) :
    host.createTemporary p w = (.ok f, { w with tree }) :=
  change_of_ok (f := fun w => w.tree.createTemporary w.cwd p) h

theorem createTemporary_of_error {p : Path} {e : Errno}
    (h : w.tree.createTemporary w.cwd p = .error e) : host.createTemporary p w = (.error e, w) :=
  change_of_error (f := fun w => w.tree.createTemporary w.cwd p) h

theorem append_of_ok {f : OpenFile} {bytes : List UInt8} {tree : FileTree}
    (h : w.tree.append f bytes = .ok tree) :
    host.append f bytes w = (.ok (), { w with tree }) :=
  command_of_ok (f := fun w => w.tree.append f bytes) h

theorem append_of_error {f : OpenFile} {bytes : List UInt8} {e : Errno}
    (h : w.tree.append f bytes = .error e) : host.append f bytes w = (.error e, w) :=
  command_of_error (f := fun w => w.tree.append f bytes) h

theorem flush_apply (f : OpenFile) : host.flush f w = (.ok (), w) := rfl

theorem sync_apply (f : OpenFile) : host.sync f w = (w.tree.sync f, w) := rfl

theorem rename_of_ok {f : OpenFile} {p : Path} {tree : FileTree}
    (h : w.tree.rename w.cwd f p = .ok tree) : host.rename f p w = (.ok (), { w with tree }) :=
  command_of_ok (f := fun w => w.tree.rename w.cwd f p) h

theorem rename_of_error {f : OpenFile} {p : Path} {e : Errno}
    (h : w.tree.rename w.cwd f p = .error e) : host.rename f p w = (.error e, w) :=
  command_of_error (f := fun w => w.tree.rename w.cwd f p) h

/-! ## Questions -/

theorem isDirectory_apply (p : Path) :
    host.isDirectory p w = (decide (w.tree.entryAt? w.cwd p = some .directory), w) := rfl

theorem leads_apply (p : Path) : host.leads p w = ((w.tree.entryAt? w.cwd p).isSome, w) := rfl

theorem isFile_iff (p : Path) : (host.isFile p w).1 = true ↔
    ∃ content, w.tree.entryAt? w.cwd p = some (.file content) := by
  have hrun : host.isFile p w = (_, w) := rfl
  rw [hrun]
  dsimp only
  cases w.tree.entryAt? w.cwd p with
  | none => simp
  | some e => cases e <;> simp

/-! ## Making directories -/

/-- What could not be made will do if it is there. -/
theorem settleDirectory_of_error (p : Path) (e : Errno) :
    host.settleDirectory p (.error e) w =
      (if w.tree.entryAt? w.cwd p = some .directory then .ok () else .error e, w) := by
  show (if decide (w.tree.entryAt? w.cwd p = some .directory) = true then _ else _ :
    StateM World (Except Errno Unit)) w = _
  by_cases h : w.tree.entryAt? w.cwd p = some .directory <;> simp only [h] <;> rfl

/-- The empty path is where it starts. -/
theorem makeDirectories_of_empty {p : Path} (outer : List Path) (h : p.text = "") :
    host.makeDirectories (p :: outer) w = (.ok (), w) := by
  rw [Host.makeDirectories, if_pos h]
  rfl

/-- A first try that fails otherwise than for want of a parent, or does not fail, settles it. -/
theorem makeDirectories_of_outcome {p : Path} {outer : List Path} {outcome : Except Errno Unit}
    (hne : p.text ≠ "") (ho : outcome ≠ .error .notFound)
    (h : host.makeDirectory p w = (outcome, w')) :
    host.makeDirectories (p :: outer) w = host.settleDirectory p outcome w' := by
  rw [Host.makeDirectories, if_neg hne, bind_apply, h]
  cases outcome with
  | ok => rfl
  | error e =>
    cases e with
    | notFound => exact absurd rfl ho
    | _ => rfl

/-- A directory that was missed is made after the ones around it. -/
theorem makeDirectories_of_notFound {p : Path} {outer : List Path} (hne : p.text ≠ "")
    (h : host.makeDirectory p w = (.error .notFound, w))
    (ho : host.makeDirectories outer w = (.ok (), w')) :
    host.makeDirectories (p :: outer) w
      = host.settleDirectory p (host.makeDirectory p w').1 (host.makeDirectory p w').2 := by
  rw [Host.makeDirectories, if_neg hne, bind_apply, h]
  simp only [bind_apply, ho]

/-- Without those around it, it is not tried again. -/
theorem makeDirectories_of_notFound_of_error {p : Path} {outer : List Path} {e : Errno}
    (hne : p.text ≠ "") (h : host.makeDirectory p w = (.error .notFound, w))
    (ho : host.makeDirectories outer w = (.error e, w')) :
    host.makeDirectories (p :: outer) w = (.error e, w') := by
  rw [Host.makeDirectories, if_neg hne, bind_apply, h]
  simp only [bind_apply, ho]
  rfl

end World

end ProtoScribe
