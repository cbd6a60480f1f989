import ProtoScribe.Proofs.Storage.Mirrors
import ProtoScribe.Write.Writer

/-!
# Writes that mirror each other

What hosts do alike to files, writers over them do alike. There is one statement for each function
of the writer, and each follows the steps of the function. The relation changes at most once, where
an atomic write puts its file in place.
-/

namespace ProtoScribe.Host.MirrorsWrites

variable {H σ τ : Type} {R S : σ → τ → Prop} {writes : Path → Prop} {holds : H → Prop}
  {tells : Level → Prop} {host : Host H (StateM σ)} {host' : Host H (StateM τ)} {s : σ} {t : τ}
  {dir target : Path} {bytes : List UInt8} {f : H}

theorem ensureDirectory (m : host.MirrorsWrites R S writes holds tells host') (ht : tells .debug)
    (hp : ∀ q ∈ dir :: dir.parents, writes q) (h : R s t) :
    Mirrors R (host.ensureDirectory dir).run s (host'.ensureDirectory dir).run t := by
  have hdir := hp dir List.mem_cons_self
  rw [Host.ensureDirectory, Host.ensureDirectory]
  refine (m.isDirectory hdir h).ask fun there _ _ h => ?_
  cases there with
  | true => exact .pure (Except.ok ()) h
  | false =>
    refine (m.leads hdir h).ask fun taken _ _ h => ?_
    cases taken with
    | true => exact .pure (Except.error _) h
    | false =>
      refine (m.report (.creatingDirectory dir) ht h).ask fun _ _ _ h => ?_
      exact (m.makeDirectoryAll hp h).attempt _

theorem writeTruncating (m : host.MirrorsWrites R S writes holds tells host')
    (hp : writes target) (h : R s t) :
    Mirrors R (host.writeTruncating target bytes).run s
      (host'.writeTruncating target bytes).run t := by
  obtain ⟨hcreate, hholds⟩ := m.create hp h
  refine (hcreate.attempt _).andThen id fun f _ _ hf h => ?_
  have hf := hholds f (Mirrors.attempt_eq_ok hf)
  exact ((m.append hf h).attempt _).andThen id fun _ _ _ _ h =>
    ((m.flush hf h).attempt _).andThen id fun _ _ _ _ h => (m.sync hf h).attempt _

theorem fillAndRename (m : host.MirrorsWrites R S writes holds tells host') (hf : holds f)
    (hp : writes target) (h : R s t) :
    Mirrors S (host.fillAndRename f target bytes).run s
      (host'.fillAndRename f target bytes).run t :=
  ((m.append hf h).attempt _).andThen m.weaken fun _ _ _ _ h =>
    ((m.flush hf h).attempt _).andThen m.weaken fun _ _ _ _ h =>
      ((m.sync hf h).attempt _).andThen m.weaken fun _ _ _ _ h => (m.rename hf hp h).attempt _

theorem writeAtomically (m : host.MirrorsWrites R S writes holds tells host') (hdir : writes dir)
    (hp : writes target) (h : R s t) :
    Mirrors S (host.writeAtomically dir target bytes).run s
      (host'.writeAtomically dir target bytes).run t := by
  obtain ⟨hcreate, hholds⟩ := m.createTemporary hdir h
  refine (hcreate.attempt _).andThen m.weaken fun f _ _ hf h => ?_
  have hf := hholds f (Mirrors.attempt_eq_ok hf)
  refine (m.fillAndRename hf hp h).tryCatch fun e _ _ h => ?_
  exact (m.discard hf h).ask fun _ _ _ h => .pure (Except.error e) h

theorem writeFile (m : host.MirrorsWrites R S writes holds tells host') (mode : WriteMode)
    (hdir : writes dir) (hp : writes target) (h : R s t) :
    Mirrors S (host.writeFile mode dir target bytes).run s
      (host'.writeFile mode dir target bytes).run t := by
  cases mode with
  | truncate => exact (m.writeTruncating hp h).mono m.weaken
  | atomic => exact m.writeAtomically hdir hp h

theorem persist (m : host.MirrorsWrites R S writes holds tells host') (ht : tells .debug)
    (mode : WriteMode) (fileName : String) (hdir : ∀ q ∈ dir :: dir.parents, writes q)
    (hp : writes target) (h : R s t) :
    Mirrors S (host.persist mode fileName dir target bytes).run s
      (host'.persist mode fileName dir target bytes).run t := by
  rw [Host.persist, Host.persist]
  split
  · exact .pure (Except.error _) (m.weaken h)
  split
  · exact .pure (Except.error _) (m.weaken h)
  · refine (m.ensureDirectory ht hdir h).andThen m.weaken fun _ _ _ _ h => ?_
    exact m.writeFile mode (hdir dir List.mem_cons_self) hp h

/-- A write ends with a report on either side, of its success or of its failure. -/
theorem writeBytes (m : host.MirrorsWrites R S writes holds tells host') (ht : tells .debug)
    (hw : tells .info) (mode : WriteMode) (name : String)
    (hdir : ∀ q ∈ dir :: dir.parents, writes q) (hp : writes (dir.join ⟨protoFileName name⟩))
    (h : R s t) :
    Mirrors S (host.writeBytes mode name dir bytes) s (host'.writeBytes mode name dir bytes) t := by
  rw [Host.writeBytes, Host.writeBytes]
  refine (m.persist ht mode _ hdir hp h).bind fun outcome _ _ _ h => ?_
  cases outcome with
  | ok => exact (m.conclude (.written _ _ _) hw h).bind fun _ _ _ _ h => .pure _ h
  | error e => exact (m.conclude (.notWritten e) ht h).bind fun _ _ _ _ h => .pure _ h

end ProtoScribe.Host.MirrorsWrites
