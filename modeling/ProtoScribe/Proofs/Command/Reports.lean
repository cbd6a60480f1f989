import ProtoScribe.Proofs.Command.Agreement
import ProtoScribe.Proofs.Command.Listening
import ProtoScribe.Proofs.Command.Verbosity
import ProtoScribe.Proofs.Write.Ends

/-!
# What a run reports

A command that fails says so once, as the last thing it reports: whatever it calls reports details
only, or, where a file has been written, that it has been (`Concludes`). So of every line that runs
a command the exit code, the output and the last events tell the same story, at every verbosity
(`failures_reported_once`).

The stages are followed in the order in which a command calls them. Each has one statement of how it
ends, by the step lemmas of `World.Ends`; what they tell on the way is the business of `Quietly`. -/

namespace ProtoScribe.Command

open World

variable {w w' : World} {i : Invocation} {before : List Event}

/-! ## Records of writes -/

/-- The last thing reported, after some details, is that a file has been written, and the path that is
told has delivered its bytes. -/
def Records (before : List Event) (w : World) (bytes : List UInt8) (w' : World) : Prop :=
  ∃ during target mode l, Quietly before during ∧
    w'.events = during ++ [.written target bytes.length mode] ∧
    w.tree.Delivers w.cwd mode target l bytes w'.tree

theorem Records.after {w₁ : World} {bytes : List UInt8} (h : Records w₁.events w₁ bytes w')
    (hquiet : Quietly before w₁.events) (hfiles : SameFiles w w₁) : Records before w bytes w' := by
  obtain ⟨during, target, mode, l, hlater, hevents, hdelivers⟩ := h
  rw [hfiles.tree, hfiles.cwd] at hdelivers
  exact ⟨during, target, mode, l, hquiet.trans hlater, hevents, hdelivers⟩

/-- A write records the file that it has written, or tells details only. -/
theorem ends_writeText_reports (mode : WriteMode) (name : String) (dir : Path) (text : String)
    (w : World) :
    Ends (ExceptT.mk (host.writeText mode name dir text)) w
      (fun _ w' => Records w.events w (Utf8.encode text) w')
      (fun _ w' => Quietly w.events w'.events) := by
  have hquiet := quietly_persist mode (protoFileName name) dir (dir.join ⟨protoFileName name⟩)
    (Utf8.encode text) w
  cases hrun : host.persist mode (protoFileName name) dir (dir.join ⟨protoFileName name⟩)
    (Utf8.encode text) w with
  | mk outcome w' =>
    simp only [ExceptT.run, hrun] at hquiet
    cases outcome with
    | error e =>
      refine .of_error (writeBytes_apply_of_error hrun) (hquiet.report rfl)
    | ok =>
      obtain ⟨l, hdelivers⟩ := delivers_of_persist hrun
      exact .of_ok (writeBytes_apply_of_ok hrun) ⟨_, _, _, l, hquiet, rfl, hdelivers⟩

theorem ends_adapt {α ε ε' : Type} {x : ExceptT ε (StateM World) α} {f : ε → ε'}
    {ok : α → World → Prop} {failed : ε' → World → Prop}
    (h : Ends x w ok fun e => failed (f e)) : Ends (x.adapt f) w ok failed := by
  rcases h.cases with ⟨a, w', hx, ha⟩ | ⟨e, w', hx, he⟩
  · exact .of_ok (adapt_of_ok f hx) ha
  · exact .of_error (adapt_of_error f hx) he

/-- What a generator comes to: a text that cannot be rendered, a write that is refused, or one that
is recorded. -/
theorem ends_generate_reports (g : Generator) (name : String) (dir : Path) (s : Schema)
    (w : World) :
    Ends (ExceptT.mk (host.generate g name dir s)) w
      (fun written w' => match written with
        | .ok _ => ∃ text, Records w.events w (Utf8.encode text) w'
        | .error _ => Quietly w.events w'.events)
      (fun _ w' => Quietly w.events w'.events) := by
  have hquiet := quietly_render g s w
  cases ht : g.text s with
  | error e =>
    have hgenerate : host.generate g name dir s w = (.error e, w) := by
      rw [Host.generate, bind_apply, render_of_error ht]
      rfl
    exact .of_error hgenerate (.refl _)
  | ok text =>
    obtain ⟨w₁, hrender, hfiles⟩ := render_of_ok (w := w) ht
    rw [hrender] at hquiet
    have hgenerate : host.generate g name dir s w =
        (.ok (host.writeText g.mode name dir text w₁).1,
          (host.writeText g.mode name dir text w₁).2) := by
      rw [Host.generate, bind_apply, hrender]
      rfl
    rcases (ends_writeText_reports g.mode name dir text w₁).cases with
      ⟨target, w', hwrite, hrecords⟩ | ⟨e, w', hwrite, hdetails⟩
    · have hwrite : host.writeText g.mode name dir text w₁ = (.ok target, w') := hwrite
      rw [hwrite] at hgenerate
      exact .of_ok hgenerate ⟨text, hrecords.after hquiet hfiles⟩
    · have hwrite : host.writeText g.mode name dir text w₁ = (.error e, w') := hwrite
      rw [hwrite] at hgenerate
      exact .of_ok hgenerate (hquiet.trans hdetails)

/-- A command that succeeds has printed, or it has recorded what it has written. -/
theorem ends_act_reports (i : Invocation) (inputs : Config × Schema) (w : World) :
    Ends (act host i inputs) w
      (fun _ w' => i.action = .print ∧ Quietly w.events w'.events ∨
        i.action ≠ .print ∧ ∃ text, Records w.events w (Utf8.encode text) w')
      (fun _ w' => Quietly w.events w'.events) := by
  cases haction : i.action with
  | print =>
    have hquiet := quietly_render (inputs.1.generator false) inputs.2 w
    rw [act, haction]
    refine ends_adapt ?_
    cases hrender : host.render (inputs.1.generator false) inputs.2 w with
    | mk text w' =>
      rw [hrender] at hquiet
      cases text with
      | error e => exact .of_error hrender hquiet
      | ok text => exact .of_ok hrender (.inl ⟨rfl, hquiet⟩)
  | generate name given atomic =>
    cases hn : logicalName i.schema name with
    | error f => exact .of_error (act_of_noName haction hn) (.refl _)
    | ok n =>
      rw [act, haction]
      dsimp only
      rw [hn]
      refine .bind (.of_ok rfl ?_)
      -- A write that is refused comes back as a value, which only now becomes a failure.
      refine .bind (ends_adapt ((ends_generate_reports _ n _ inputs.2 w).mono ?_ fun _ _ => id))
      rintro (e | path) w' hwritten
      · exact .of_error rfl hwritten
      · exact .of_ok rfl (.inr ⟨by simp, hwritten⟩)

theorem ends_execute_reports (i : Invocation) (w : World) :
    Ends (execute host i) w
      (fun _ w' => i.action = .print ∧ Quietly w.events w'.events ∨
        i.action ≠ .print ∧ ∃ text, Records w.events w (Utf8.encode text) w')
      (fun _ w' => Quietly w.events w'.events) := by
  have hquiet := quietly_readInputs i w
  rw [execute_eq]
  rcases (ends_readInputs w i).cases with
    ⟨inputs, w₁, hread, -, hfiles⟩ | ⟨stop, w₁, hread, -, -⟩
  · simp only [ExceptT.run, hread] at hquiet
    refine .of_eq (bind_of_ok hread)
      ((ends_act_reports i inputs w₁).mono ?_ fun _ _ => hquiet.trans)
    rintro _ w' (⟨hprint, hdetails⟩ | ⟨hgenerate, text, hrecords⟩)
    · exact .inl ⟨hprint, hquiet.trans hdetails⟩
    · exact .inr ⟨hgenerate, text, hrecords.after hquiet hfiles⟩
  · simp only [ExceptT.run, hread] at hquiet
    exact .of_error (bind_of_error hread) hquiet

/-! ## How runs end -/

/-- The three ways in which a command ends, with what it has reported by then. -/
inductive Concludes (i : Invocation) (w : World) : Outcome × World → Prop where
  | printed {output : String} {w' : World} (haction : i.action = .print)
      (hquiet : Quietly w.events w'.events) : Concludes i w (⟨.success, output⟩, w')
  | recorded {output : String} {w' : World} {text : String}
      (haction : i.action ≠ .print) (hrecords : Records w.events w (Utf8.encode text) w') :
      Concludes i w (⟨.success, output⟩, w')
  | overflowed {w' : World} (hquiet : Quietly w.events w'.events) :
      Concludes i w ({ status := .overflow }, w')
  | failed {during : List Event} {reason : String} {w' : World}
      (hquiet : Quietly w.events during) (hevents : w'.events = during ++ [.failed reason]) :
      Concludes i w ({ status := .failure }, w')

theorem concludes_invoke (i : Invocation) (w : World) : Concludes i w (invoke host i w) := by
  rcases (ends_execute_reports i w).cases with
    ⟨output, w', hrun, ⟨haction, hquiet⟩ | ⟨haction, text, hrecords⟩⟩ | ⟨stop, w', hrun, hquiet⟩
  · rw [invoke_of_ok hrun]
    exact .printed haction hquiet
  · rw [invoke_of_ok hrun]
    exact .recorded haction hrecords
  · cases stop with
    | overflow =>
      rw [invoke_of_overflow hrun]
      exact .overflowed hquiet
    | failed f =>
      rw [invoke_of_failed hrun]
      exact .failed hquiet rfl

/-! ### What is heard of them -/

theorem reported_failed (verbosity : Nat) (reason : String) :
    Event.reported verbosity [.failed reason] = [.failed reason] := rfl

theorem reported_written {verbosity : Nat} (h : 1 ≤ verbosity) (path : Path) (bytes : Nat)
    (mode : WriteMode) :
    Event.reported verbosity [.written path bytes mode] = [.written path bytes mode] := by
  simp [Event.reported, Event.level, Level.isReported, h]

theorem written_mem_ofLevel {events : List Event} {path : Path} {bytes : Nat} {mode : WriteMode} :
    .written path bytes mode ∈ Event.ofLevel .info events ↔ .written path bytes mode ∈ events := by
  simp [Event.ofLevel, Event.level]

namespace Concludes

variable {o : Outcome} (h : Concludes i w (o, w')) (hnew : w.events = [])

include h hnew

/-- What has not failed has reported no error. -/
theorem ofLevel_error_eq_nil (verbosity : Nat) (hcode : o.status.code ≠ 1) :
    Event.ofLevel .error (Event.reported verbosity w'.events) = [] := by
  cases h with
  | printed _ hquiet | overflowed hquiet =>
    rw [hnew] at hquiet
    exact hquiet.ofLevel_reported_eq_nil .error nofun verbosity
  | recorded _ hrecords =>
    obtain ⟨during, target, mode, l, hquiet, hevents, -⟩ := hrecords
    rw [hnew] at hquiet
    rw [hevents, hquiet.ofLevel_reported .error nofun]
    simp [Event.ofLevel, Event.reported, List.filter_filter, Event.level]
  | failed => exact absurd rfl hcode

/-- What has failed has said so as its last event, and said nothing else that is an error. -/
theorem ofLevel_error_eq_last (verbosity : Nat) (hcode : o.status.code = 1) :
    o.output = "" ∧ ∃ e, Event.ofLevel .error (Event.reported verbosity w'.events) = [e] ∧
      (Event.reported verbosity w'.events).getLast? = some e := by
  cases h with
  | printed | recorded | overflowed => cases hcode
  | @failed during reason _ hquiet hevents =>
    rw [hnew] at hquiet
    refine ⟨rfl, .failed reason, ?_, ?_⟩
    · rw [hevents, hquiet.ofLevel_reported .error nofun, reported_failed]
      rfl
    · rw [hevents, Event.reported_append, reported_failed, List.getLast?_concat]

/-- Whoever hears of files that are written hears of one exactly if one has been generated. -/
theorem ofLevel_info {verbosity : Nat} (hverbosity : 1 ≤ verbosity) :
    (Event.ofLevel .info (Event.reported verbosity w'.events) = [] ∧
        (i.action = .print ∨ o.status.code ≠ 0)) ∨
      ∃ path content mode l,
        Event.ofLevel .info (Event.reported verbosity w'.events)
            = [.written path content.length mode] ∧
          w.tree.Delivers w.cwd mode path l content w'.tree ∧ i.action ≠ .print ∧
          o.status.code = 0 := by
  cases h with
  | printed haction hquiet =>
    rw [hnew] at hquiet
    refine .inl ⟨?_, .inl haction⟩
    exact hquiet.ofLevel_reported_eq_nil .info nofun verbosity
  | overflowed hquiet =>
    rw [hnew] at hquiet
    refine .inl ⟨?_, .inr (by decide)⟩
    exact hquiet.ofLevel_reported_eq_nil .info nofun verbosity
  | failed hquiet hevents =>
    rw [hnew] at hquiet
    refine .inl ⟨?_, .inr (by decide)⟩
    rw [hevents, hquiet.ofLevel_reported .info nofun]
    rfl
  | recorded haction hrecords =>
    obtain ⟨during, target, mode, l, hquiet, hevents, hdelivers⟩ := hrecords
    rw [hnew] at hquiet
    refine .inr ⟨target, _, mode, l, ?_, hdelivers, haction, rfl⟩
    rw [hevents, hquiet.ofLevel_reported .info nofun, reported_written hverbosity]
    rfl

/-- Whoever hears of files that are written does so exactly if one has been generated. -/
theorem written_iff {verbosity : Nat} (hverbosity : 1 ≤ verbosity) :
    (∃ path bytes mode, .written path bytes mode ∈ Event.reported verbosity w'.events) ↔
      (∃ name dir atomic, i.action = .generate name dir atomic) ∧ o.status.code = 0 := by
  rcases h.ofLevel_info hnew hverbosity with
    ⟨hnone, hnot⟩ | ⟨target, content, mode, l, hone, -, haction, hcode⟩
  · refine iff_of_false ?_ ?_
    · rintro ⟨path, bytes, mode, hmem⟩
      rw [← written_mem_ofLevel, hnone] at hmem
      exact List.not_mem_nil hmem
    · rintro ⟨⟨name, dir, atomic, haction⟩, hcode⟩
      rcases hnot with hprint | hcode'
      · cases haction.symm.trans hprint
      · exact hcode' hcode
  · refine iff_of_true ⟨target, content.length, mode, ?_⟩ ⟨?_, hcode⟩
    · rw [← written_mem_ofLevel, hone]
      exact List.mem_singleton_self _
    · cases h : i.action with
      | print => exact absurd h haction
      | generate name dir atomic => exact ⟨name, dir, atomic, rfl⟩

/-- A file that is heard of has been written through its path, with the size that is told. -/
theorem of_written {verbosity : Nat} (hverbosity : 1 ≤ verbosity) {path : Path} {bytes : Nat}
    {mode : WriteMode} (hmem : .written path bytes mode ∈ Event.reported verbosity w'.events) :
    Event.ofLevel .info (Event.reported verbosity w'.events) = [.written path bytes mode] ∧
      ∃ l content, w.tree.Delivers w.cwd mode path l content w'.tree ∧ bytes = content.length := by
  rw [← written_mem_ofLevel] at hmem
  rcases h.ofLevel_info hnew hverbosity with
    ⟨hnone, -⟩ | ⟨target, content, mode, l, hone, hdelivers, -, -⟩
  · rw [hnone] at hmem
    exact absurd hmem List.not_mem_nil
  · rw [hone, List.mem_singleton] at hmem
    cases hmem
    exact ⟨hone, l, content, hdelivers, rfl⟩

end Concludes

/-! ## The law -/

/-- Who asks for less hears of what others hear what matters enough. -/
theorem reported_reported {n n' : Nat} (h : n' ≤ n) (es : List Event) :
    Event.reported n' (Event.reported n es) = Event.reported n' es := by
  rw [Event.reported, Event.reported, List.filter_filter]
  refine List.filter_congr fun e _ => ?_
  cases e.level <;> simp [Level.isReported] <;> omega

/-- **A failure is reported once, and the verbosity only chooses what is heard.** Lines that differ
in words that only raise the verbosity run the same command to the same end, and who asks for less
hears of the same events those that matter enough. A run fails if it reports an error, which is then
the last event and the only error, and has no output; no other run reports one. Who asks for more at
all hears of one file if one has been generated, with the size that it has where its path leads, and
of none otherwise. -/
theorem failures_reported_once (tree : FileTree) (cwd : Location) {words : List String}
    {i : Invocation} (hwords : Request.ofWords words = .run i) :
    let ended (words : List String) := start host words { tree, cwd }
    let status := (ended words).1.status
    let events := (ended words).2.events
    (∀ words', Respelled words words' →
      (∃ n, Request.ofWords words' = .run { i with verbosity := n }) ∧
      (words'.filter fun word => !isVoice word) = words.filter fun word => !isVoice word) ∧
    (∀ words' i', Request.ofWords words' = .run i' →
      (words'.filter fun word => !isVoice word) = (words.filter fun word => !isVoice word) →
      (ended words').1 = (ended words).1 ∧ (ended words').2.tree = (ended words).2.tree ∧
      (i'.verbosity ≤ i.verbosity →
        (ended words').2.events = Event.reported i'.verbosity events)) ∧
    (status.code = 1 ↔
      (∃ e, Event.ofLevel .error events = [e] ∧ events.getLast? = some e) ∧
        (ended words).1.output = "") ∧
    (status.code = 0 ∨ status.code = 101 → Event.ofLevel .error events = []) ∧
    (1 ≤ i.verbosity →
      ((∃ path bytes mode, .written path bytes mode ∈ events) ↔
        (∃ name dir atomic, i.action = .generate name dir atomic) ∧ status.code = 0) ∧
      ∀ path bytes mode, .written path bytes mode ∈ events →
        Event.ofLevel .info events = [.written path bytes mode] ∧
        ∃ l content, tree.Delivers cwd mode path l content (ended words).2.tree ∧
          bytes = content.length) := by
  intro ended status events
  obtain ⟨houtcome, htree, hevents⟩ := start_eq hwords tree cwd
  have hends := concludes_invoke i { tree, cwd }
  cases hinvoke : invoke host i { tree, cwd } with
  | mk o w' =>
    simp only [hinvoke] at houtcome htree hevents hends
    have houtcome : (ended words).1 = o := houtcome
    have hevents : events = Event.reported i.verbosity w'.events := hevents
    have hstatus : status = o.status := congrArg Outcome.status houtcome
    rw [hstatus, hevents, houtcome]
    refine ⟨fun _ hrespelled =>
        ⟨Request.ofWords_respelled hrespelled hwords, hrespelled.filter_eq⟩,
      fun words' i' hwords' hsame => ?_, ⟨fun hcode => ?_, fun ⟨⟨e, herror, _⟩, _⟩ => ?_⟩,
      fun hcode => ?_, fun hverbosity => ?_⟩
    · -- Nothing that a command does depends on its verbosity.
      obtain ⟨houtcome', htree', hevents'⟩ := start_eq hwords' tree cwd
      have hinvoke' : invoke host i' { tree, cwd } = (o, w') := by
        rw [Invocation.eq_of_ofWords hwords hwords' hsame]
        exact hinvoke
      simp only [hinvoke'] at houtcome' htree' hevents'
      exact ⟨houtcome', htree'.trans htree.symm,
        fun hless => hevents'.trans (reported_reported hless _).symm⟩
    · obtain ⟨houtput, hlast⟩ := hends.ofLevel_error_eq_last rfl i.verbosity hcode
      exact ⟨hlast, houtput⟩
    · by_contra hcode
      rw [hends.ofLevel_error_eq_nil rfl i.verbosity hcode] at herror
      cases herror
    · exact hends.ofLevel_error_eq_nil rfl i.verbosity (by omega)
    · refine ⟨hends.written_iff rfl hverbosity, fun path bytes mode hmem => ?_⟩
      obtain ⟨hone, l, content, hdelivers, hbytes⟩ := hends.of_written rfl hverbosity hmem
      exact ⟨hone, l, content, htree ▸ hdelivers, hbytes⟩

/-- A file is generated and reported once, to one who asks for more; one who does not ask hears
nothing of it. -/
theorem failures_reported_once_oneSchema :
    let words := ["-v", "generate", "--schema", "s.json", "--atomic"]
    let quiet := ["generate", "--schema", "s.json", "--atomic"]
    let ended (words : List String) := start host words oneSchema
    Request.ofWords words = .run ⟨1, none, ⟨"s.json"⟩, .generate none none true⟩ ∧
      (ended words).1 = ⟨.success, "OK: wrote ./s.proto\n"⟩ ∧
      (∃ path bytes mode, Event.ofLevel .info (ended words).2.events = [.written path bytes mode] ∧
        ∃ l content, oneSchema.tree.Delivers [] mode path l content (ended words).2.tree ∧
          bytes = content.length) ∧
      (ended quiet).1 = (ended words).1 ∧
      (ended quiet).2.events = Event.reported 0 (ended words).2.events := by
  intro words quiet ended
  have hwords : Request.ofWords words = .run ⟨1, none, ⟨"s.json"⟩, .generate none none true⟩ := by
    decide
  have hquiet : Request.ofWords quiet = .run ⟨0, none, ⟨"s.json"⟩, .generate none none true⟩ := by
    decide
  have houtcome : (ended words).1 = ⟨.success, "OK: wrote ./s.proto\n"⟩ :=
    (start_eq hwords _ _).1.trans (generate_oneSchema 1).1
  obtain ⟨-, hvoices, -, -, hlog⟩ := failures_reported_once oneSchema.tree [] hwords
  obtain ⟨hwritten, hinfo⟩ := hlog (by decide)
  obtain ⟨hsame, -, hheard⟩ := hvoices quiet _ hquiet (by decide)
  have hcode : (ended words).1.status.code = 0 := by rw [houtcome]; rfl
  obtain ⟨path, bytes, mode, hmem⟩ := hwritten.mpr ⟨⟨none, none, true, rfl⟩, hcode⟩
  exact ⟨hwords, houtcome, ⟨path, bytes, mode, hinfo path bytes mode hmem⟩, hsame,
    hheard (by decide)⟩

end ProtoScribe.Command
