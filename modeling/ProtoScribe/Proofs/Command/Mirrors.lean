import ProtoScribe.Proofs.Command.Stages
import ProtoScribe.Proofs.Write.Mirrors

/-!
# Commands that mirror each other

A command reads its inputs and then acts on them. Hosts that answer alike what is read and do alike
what is done to files have the command end alike, up to its last report (`mirrors_invoke`). The
relation may change between the two stages: what has been read is known by then.
-/

namespace ProtoScribe

open Command

variable {H σ τ : Type} {R S : σ → τ → Prop} {reads writes : Path → Prop} {holds : H → Prop}
  {tells : Level → Prop} {host : Host H (StateM σ)} {host' : Host H (StateM τ)} {s : σ} {t : τ}
  {p : Path}

/-! ## Reading -/

namespace Host.MirrorsReads

variable (m : host.MirrorsReads R reads tells host') (ht : tells .debug)

include m ht

theorem readConfig (hp : reads p) (h : R s t) :
    Mirrors R (host.readConfig p) s (host'.readConfig p) t := by
  refine (m.report (.loadingConfig p) ht h).bind fun _ _ _ _ h => ?_
  refine (m.readText hp h).bind fun text _ _ _ h => ?_
  cases text <;> exact .pure _ h

/-- The paths at which a configuration is looked for. -/
theorem discoverConfig {given : Option Path} {dir : Path} (hgiven : ∀ p, given = some p → reads p)
    (hfallback : given = none → reads (dir.join Config.defaultFile)) (h : R s t) :
    Mirrors R (host.discoverConfig given dir) s (host'.discoverConfig given dir) t := by
  cases given with
  | some p => exact m.readConfig ht (hgiven p rfl) h
  | none =>
    refine (m.isFile (hfallback rfl) h).bind fun there _ _ _ h => ?_
    cases there with
    | true => exact m.readConfig ht (hfallback rfl) h
    | false => exact .pure _ h

omit ht in
theorem hostLoadSchema (hp : reads p) (h : R s t) :
    Mirrors R (host.loadSchema p) s (host'.loadSchema p) t := by
  rw [Host.loadSchema, Host.loadSchema]
  split
  · exact .pure _ h
  · refine (m.readText hp h).bind fun text _ _ _ h => ?_
    cases text <;> exact .pure _ h

theorem loadSchema (hp : reads p) (h : R s t) :
    Mirrors R (Command.loadSchema host p).run s (Command.loadSchema host' p).run t :=
  Mirrors.andThen (m.hostLoadSchema hp h) id fun schema _ _ _ h =>
    (m.report (.loadedSchema p schema.counts) ht h).ask fun _ _ _ h =>
      .pure (Except.ok schema) h

theorem readInputs {i : Invocation} (hconfig : ∀ p, i.config = some p → reads p)
    (hfallback : i.config = none → ∀ dir : Path, reads (dir.join Config.defaultFile))
    (hschema : reads i.schema) (h : R s t) :
    Mirrors R (Command.readInputs host i).run s (Command.readInputs host' i).run t := by
  have hdiscover := (m.workingDirectory h).bind fun dir _ _ _ h =>
    m.discoverConfig ht hconfig (fun hnone => hfallback hnone dir) h
  refine Mirrors.andThen (Mirrors.adapt hdiscover _) id fun c _ _ _ h => ?_
  exact ((m.loadSchema ht hschema h).adapt _).andThen id fun schema _ _ _ h =>
    .pure (Except.ok (c, schema)) h

end Host.MirrorsReads

/-! ## Acting -/

namespace Host.MirrorsWrites

variable (m : host.MirrorsWrites R S writes holds tells host') (ht : tells .debug)

include m ht

theorem render (g : Generator) (schema : Schema) (h : R s t) :
    Mirrors R (host.render g schema) s (host'.render g schema) t := by
  rw [Host.render, Host.render]
  split
  · exact .pure _ h
  · next text _ =>
    cases g.header with
    | none =>
      refine Mirrors.bind (m.report (.emitted schema.counts text.utf8ByteSize) ht h) ?_
      exact fun _ _ _ _ h => .pure _ h
    | some => exact .pure _ h

variable (hw : tells .info)

include hw

theorem generate {g : Generator} {name : String} {dir : Path} {schema : Schema}
    (hdir : ∀ q ∈ dir :: dir.parents, writes q) (hp : writes (dir.join ⟨protoFileName name⟩))
    (h : R s t) :
    Mirrors S (host.generate g name dir schema) s (host'.generate g name dir schema) t := by
  rw [Host.generate, Host.generate]
  refine (m.render ht g schema h).bind fun text _ _ _ h => ?_
  cases text with
  | error => exact .pure _ (m.weaken h)
  | ok text =>
    exact (m.writeBytes ht hw g.mode name hdir hp h).bind fun _ _ _ _ h => .pure _ h

/-- Acting takes no path but the directory to generate into, those above it and the target in it. -/
theorem act {i : Invocation} {inputs : Config × Schema}
    (hpaths : ∀ name given atomic n, i.action = .generate name given atomic →
      logicalName i.schema name = .ok n →
      (∀ q ∈ outputDirectory inputs.1 given :: (outputDirectory inputs.1 given).parents, writes q) ∧
        writes ((outputDirectory inputs.1 given).join ⟨protoFileName n⟩)) (h : R s t) :
    Mirrors S (Command.act host i inputs).run s (Command.act host' i inputs).run t := by
  rw [Command.act, Command.act]
  split
  · exact Mirrors.adapt ((m.render ht _ _ h).mono m.weaken) _
  · next name given atomic haction =>
    cases hn : logicalName i.schema name with
    | error f => exact .pure (Except.error _) (m.weaken h)
    | ok n =>
      obtain ⟨hdir, hp⟩ := hpaths name given atomic n haction hn
      refine Mirrors.andThen (R := R) (.pure (Except.ok n) h) m.weaken fun _ _ _ hok h => ?_
      cases hok
      refine Mirrors.andThen (Mirrors.adapt (m.generate ht hw hdir hp h) _) id
        fun result _ _ _ h => ?_
      cases result with
      | ok path => exact .pure (Except.ok _) h
      | error e => exact .pure (Except.error _) h

end Host.MirrorsWrites

/-! ## Both -/

namespace Command

/-- Commands that are executed alike end alike. -/
theorem mirrors_invoke_of_execute {i : Invocation}
    (h : Mirrors S (execute host i).run s (execute host' i).run t)
    (hreport : ∀ f : Failure, ∀ {s t}, S s t →
      Mirrors S (host.report (.failed f.message)) s (host'.report (.failed f.message)) t) :
    Mirrors S (invoke host i) s (invoke host' i) t := by
  refine h.bind fun outcome _ _ _ h => ?_
  match outcome with
  | .ok output => exact .pure _ h
  | .error .overflow => exact .pure _ h
  | .error (.failed f) => exact (hreport f h).bind fun _ _ _ _ h => .pure _ h

/-- Commands that read alike and then act alike end alike. What acting relies on may be known of
what has been read. -/
theorem mirrors_invoke {i : Invocation} {Q : σ → τ → Prop}
    (hread : Mirrors Q (readInputs host i).run s (readInputs host' i).run t)
    (hact : ∀ inputs s' t', ((readInputs host i).run s).1 = .ok inputs → Q s' t' →
      Mirrors S (act host i inputs).run s' (act host' i inputs).run t')
    (hstop : ∀ {s t}, Q s t → S s t)
    (hreport : ∀ f : Failure, ∀ {s t}, S s t →
      Mirrors S (host.report (.failed f.message)) s (host'.report (.failed f.message)) t) :
    Mirrors S (invoke host i) s (invoke host' i) t := by
  refine mirrors_invoke_of_execute ?_ hreport
  rw [execute_eq, execute_eq]
  exact hread.andThen hstop hact

end Command

end ProtoScribe
