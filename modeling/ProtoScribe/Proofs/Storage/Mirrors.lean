import ProtoScribe.Proofs.Storage.Run

/-!
# Runs that mirror each other

A program can be run over two hosts, or from two states of one host. The runs mirror each other if
they have the same result and leave states that are related (`Mirrors`). Steps that do make a run
that does, so it is enough to look at each question and command of the hosts once.

What hosts answer alike is split in two: what is read and reported before anything is touched
(`Host.MirrorsReads`), and what touches files (`Host.MirrorsWrites`). Putting a file in place of
another may end the relation that the commands before it need, so there are two relations: `R` as
long as commands follow that take paths, and `S` from then on.
-/

namespace ProtoScribe

section Steps

variable {σ τ α β ε ε' : Type} {R S : σ → τ → Prop} {s : σ} {t : τ}

/-- Two programs run from two states have the same result and leave related states. -/
def Mirrors (R : σ → τ → Prop) (x : StateM σ α) (s : σ) (y : StateM τ α) (t : τ) : Prop :=
  (x s).1 = (y t).1 ∧ R (x s).2 (y t).2

namespace Mirrors

theorem pure (a : α) (h : R s t) : Mirrors R (Pure.pure a) s (Pure.pure a) t := ⟨rfl, h⟩

theorem mono {x : StateM σ α} {y : StateM τ α} (h : Mirrors R x s y t)
    (hRS : ∀ {s t}, R s t → S s t) : Mirrors S x s y t :=
  ⟨h.1, hRS h.2⟩

/-- What follows starts from related states and with the same result. -/
theorem bind {x : StateM σ α} {y : StateM τ α} {f : α → StateM σ β} {g : α → StateM τ β}
    (h : Mirrors R x s y t)
    (hf : ∀ a s' t', (x s).1 = a → R s' t' → Mirrors S (f a) s' (g a) t') :
    Mirrors S (x >>= f) s (y >>= g) t := by
  rw [Mirrors, bind_apply, bind_apply, ← h.1]
  exact hf _ _ _ rfl h.2

/-- A question is answered alike, and what follows may depend on the answer. -/
theorem ask {x : StateM σ α} {y : StateM τ α} {f : α → ExceptT ε (StateM σ) β}
    {g : α → ExceptT ε (StateM τ) β} (h : Mirrors R x s y t)
    (hf : ∀ a s' t', R s' t' → Mirrors S (f a).run s' (g a).run t') :
    Mirrors S ((liftM x : ExceptT ε (StateM σ) α) >>= f).run s
      ((liftM y : ExceptT ε (StateM τ) α) >>= g).run t := by
  have hnext := hf (x s).1 _ _ h.2
  show Mirrors S (f (x s).1).run (x s).2 (g (y t).1).run (y t).2
  rwa [← h.1]

/-- After a step that fails on both sides nothing follows. -/
theorem andThen {x : ExceptT ε (StateM σ) α} {y : ExceptT ε (StateM τ) α}
    {f : α → ExceptT ε (StateM σ) β} {g : α → ExceptT ε (StateM τ) β}
    (h : Mirrors R x.run s y.run t) (hRS : ∀ {s t}, R s t → S s t)
    (hf : ∀ a s' t', (x.run s).1 = .ok a → R s' t' → Mirrors S (f a).run s' (g a).run t') :
    Mirrors S (x >>= f).run s (y >>= g).run t := by
  rw [ExceptT.run_bind, ExceptT.run_bind]
  refine h.bind fun outcome s' t' ho hR => ?_
  cases outcome with
  | ok a => exact hf a s' t' ho hR
  | error e => exact .pure _ (hRS hR)

theorem attempt {x : StateM σ (Except Errno α)} {y : StateM τ (Except Errno α)}
    (h : Mirrors R x s y t) (error : StorageFault → ε) :
    Mirrors R (Host.attempt x error).run s (Host.attempt y error).run t :=
  h.bind fun _ _ _ _ hR => .pure _ hR

theorem attempt_eq_ok {x : StateM σ (Except Errno α)} {error : StorageFault → ε} {a : α}
    (h : ((Host.attempt x error).run s).1 = .ok a) : (x s).1 = .ok a := by
  have hmap : (x s).1.mapError (fun e => error (.system e)) = .ok a := h
  cases hx : (x s).1 with
  | ok b =>
    rw [hx] at hmap
    cases hmap
    rfl
  | error e =>
    rw [hx] at hmap
    cases hmap

theorem adapt {x : ExceptT ε (StateM σ) α} {y : ExceptT ε (StateM τ) α}
    (h : Mirrors R x.run s y.run t) (f : ε → ε') :
    Mirrors R (x.adapt f).run s (y.adapt f).run t :=
  ⟨congrArg (Except.mapError f) h.1, h.2⟩

theorem tryCatch {x : ExceptT ε (StateM σ) α} {y : ExceptT ε (StateM τ) α}
    {f : ε → ExceptT ε (StateM σ) α} {g : ε → ExceptT ε (StateM τ) α}
    (h : Mirrors R x.run s y.run t)
    (hf : ∀ e s' t', R s' t' → Mirrors R (f e).run s' (g e).run t') :
    Mirrors R (MonadExcept.tryCatch x f).run s (MonadExcept.tryCatch y g).run t := by
  show Mirrors R (ExceptT.tryCatch x f) s (ExceptT.tryCatch y g) t
  rw [ExceptT.tryCatch, ExceptT.tryCatch]
  refine Mirrors.bind h fun outcome s' t' _ hR => ?_
  cases outcome with
  | ok a => exact .pure _ hR
  | error e => exact hf e s' t' hR

end Mirrors

end Steps

/-! ## Hosts -/

section Hosts

variable {H σ τ : Type}

/-- Two hosts that answer alike what is read, at paths of a kind, and take reports of some
levels. -/
structure Host.MirrorsReads (R : σ → τ → Prop) (reads : Path → Prop) (tells : Level → Prop)
    (host : Host H (StateM σ)) (host' : Host H (StateM τ)) : Prop where
  workingDirectory {s : σ} {t : τ} (h : R s t) :
    Mirrors R host.workingDirectory s host'.workingDirectory t
  isFile {p : Path} {s : σ} {t : τ} (hp : reads p) (h : R s t) :
    Mirrors R (host.isFile p) s (host'.isFile p) t
  readBytes {p : Path} {s : σ} {t : τ} (hp : reads p) (h : R s t) :
    Mirrors R (host.readBytes p) s (host'.readBytes p) t
  report (e : Event) {s : σ} {t : τ} (he : tells e.level) (h : R s t) :
    Mirrors R (host.report e) s (host'.report e) t

/-- Two hosts that do alike what is done to files, at paths of a kind and with open files of a
kind. -/
structure Host.MirrorsWrites (R S : σ → τ → Prop) (writes : Path → Prop) (holds : H → Prop)
    (tells : Level → Prop) (host : Host H (StateM σ)) (host' : Host H (StateM τ)) : Prop where
  weaken {s : σ} {t : τ} (h : R s t) : S s t
  isDirectory {p : Path} {s : σ} {t : τ} (hp : writes p) (h : R s t) :
    Mirrors R (host.isDirectory p) s (host'.isDirectory p) t
  leads {p : Path} {s : σ} {t : τ} (hp : writes p) (h : R s t) :
    Mirrors R (host.leads p) s (host'.leads p) t
  makeDirectory {p : Path} {s : σ} {t : τ} (hp : writes p) (h : R s t) :
    Mirrors R (host.makeDirectory p) s (host'.makeDirectory p) t
  create {p : Path} {s : σ} {t : τ} (hp : writes p) (h : R s t) :
    Mirrors R (host.create p) s (host'.create p) t ∧ ∀ f, (host.create p s).1 = .ok f → holds f
  createTemporary {p : Path} {s : σ} {t : τ} (hp : writes p) (h : R s t) :
    Mirrors R (host.createTemporary p) s (host'.createTemporary p) t ∧
      ∀ f, (host.createTemporary p s).1 = .ok f → holds f
  append {f : H} {bytes : List UInt8} {s : σ} {t : τ} (hf : holds f) (h : R s t) :
    Mirrors R (host.append f bytes) s (host'.append f bytes) t
  flush {f : H} {s : σ} {t : τ} (hf : holds f) (h : R s t) :
    Mirrors R (host.flush f) s (host'.flush f) t
  sync {f : H} {s : σ} {t : τ} (hf : holds f) (h : R s t) :
    Mirrors R (host.sync f) s (host'.sync f) t
  rename {f : H} {p : Path} {s : σ} {t : τ} (hf : holds f) (hp : writes p) (h : R s t) :
    Mirrors S (host.rename f p) s (host'.rename f p) t
  discard {f : H} {s : σ} {t : τ} (hf : holds f) (h : S s t) :
    Mirrors S (host.discard f) s (host'.discard f) t
  report (e : Event) {s : σ} {t : τ} (he : tells e.level) (h : R s t) :
    Mirrors R (host.report e) s (host'.report e) t
  conclude (e : Event) {s : σ} {t : τ} (he : tells e.level) (h : S s t) :
    Mirrors S (host.report e) s (host'.report e) t

variable {R S : σ → τ → Prop} {reads writes : Path → Prop} {holds : H → Prop}
  {tells : Level → Prop} {host : Host H (StateM σ)} {host' : Host H (StateM τ)} {s : σ} {t : τ}
  {p : Path}

namespace Host.MirrorsReads

theorem readText (m : host.MirrorsReads R reads tells host') (hp : reads p) (h : R s t) :
    Mirrors R (host.readText p) s (host'.readText p) t := by
  refine (m.readBytes hp h).bind fun outcome _ _ _ h => ?_
  cases outcome <;> exact .pure _ h

end Host.MirrorsReads

namespace Host.MirrorsWrites

/-! ### Directories -/

theorem settleDirectory (m : host.MirrorsWrites R S writes holds tells host') (hp : writes p)
    (outcome : Except Errno Unit) (h : R s t) :
    Mirrors R (host.settleDirectory p outcome) s (host'.settleDirectory p outcome) t := by
  cases outcome with
  | ok => exact .pure _ h
  | error e =>
    refine (m.isDirectory hp h).bind fun there _ _ _ h => ?_
    cases there <;> exact .pure _ h

/-- The directories are made one after the other, as the recursion goes. -/
theorem makeDirectories (m : host.MirrorsWrites R S writes holds tells host') :
    ∀ (paths : List Path) {s : σ} {t : τ}, (∀ p ∈ paths, writes p) → R s t →
      Mirrors R (host.makeDirectories paths) s (host'.makeDirectories paths) t
  | [], _, _, _, h => .pure _ h
  | p :: outer, s, t, hp, h => by
    obtain ⟨hp, houter⟩ := List.forall_mem_cons.mp hp
    rw [Host.makeDirectories, Host.makeDirectories]
    split
    · exact .pure _ h
    refine (m.makeDirectory hp h).bind fun outcome _ _ _ h => ?_
    split
    · refine (makeDirectories m outer houter h).bind fun made _ _ _ h => ?_
      cases made with
      | ok => exact (m.makeDirectory hp h).bind fun _ _ _ _ h => m.settleDirectory hp _ h
      | error => exact .pure _ h
    · exact m.settleDirectory hp _ h

theorem makeDirectoryAll (m : host.MirrorsWrites R S writes holds tells host')
    (hp : ∀ q ∈ p :: p.parents, writes q) (h : R s t) :
    Mirrors R (host.makeDirectoryAll p) s (host'.makeDirectoryAll p) t :=
  m.makeDirectories _ hp h

end Host.MirrorsWrites

end Hosts

end ProtoScribe
