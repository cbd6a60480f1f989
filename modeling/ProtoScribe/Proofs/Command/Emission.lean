import ProtoScribe.Proofs.Command.Masking
import ProtoScribe.Proofs.Command.Reports
import ProtoScribe.Proofs.Source.Assembly
import ProtoScribe.Proofs.Yaml.Glyphs

/-!
# When the size of a text is reported

A run reports in the order of its stages (`Stage`): what it reads, what it renders, and what becomes
of that. The first and the last of them add events of their own only (`Adds`); in between there is
one event at most, with the size of what has been rendered (`events_invoke`).

That event is missing where a header precedes the definitions, although they are rendered there as
well. So the size is reported once in each run that renders a text without a header, before anything
is stored, and in no other (`size_reported_once`).
-/

namespace ProtoScribe

/-- The stages of a run that have something to report. -/
inductive Stage where
  | reading
  | rendering
  | ending
  deriving DecidableEq

/-- The stage that reports an event. -/
def Event.stage : Event → Stage
  | loadingConfig _ | loadedSchema _ _ => .reading
  | emitted _ _ => .rendering
  | creatingDirectory _ | written _ _ _ | notWritten _ | failed _ => .ending

namespace World

open Command

variable {c : Config} {s : Schema} {body : String}

/-! ## Reading -/

theorem adds_discoverConfig (given : Option Path) (dir : Path) (w : World) :
    Adds (·.stage = .reading) w.events (host.discoverConfig given dir w).2.events := by
  have hread (p : Path) : Adds (·.stage = .reading) w.events (host.readConfig p w).2.events := by
    rw [readConfig_apply]
    exact (Adds.refl _ _).report rfl
  cases given with
  | some p => exact hread p
  | none =>
    rw [discoverConfig_none]
    split
    · exact hread _
    · exact .refl _ _

theorem adds_loadSchema (p : Path) (w : World) :
    Adds (·.stage = .reading) w.events (loadSchema host p w).2.events := by
  cases hload : (host.loadSchema p w).1 with
  | error e =>
    rw [loadSchema_of_error hload]
    exact .refl _ _
  | ok s =>
    rw [loadSchema_of_ok hload]
    exact (Adds.refl _ _).report rfl

theorem adds_readInputs (i : Invocation) (w : World) :
    Adds (·.stage = .reading) w.events (readInputs host i w).2.events :=
  .bind (adds_discoverConfig i.config w.cwd.path w) fun _ w₁ =>
    .bind (adds_loadSchema i.schema w₁) fun _ _ => .refl _ _

/-! ## Rendering -/

/-- What is reported of the definitions in a text: their size, if the configuration has no header
that says something. -/
def sizeReport (c : Config) (s : Schema) (body : String) : List Event :=
  if c.header.all Header.isEmpty then [.emitted s.counts body.utf8ByteSize] else []

theorem isNone_header_generator (c : Config) (atomic : Bool) :
    (c.generator atomic).header.isNone = c.header.all Header.isEmpty := by
  rw [Config.generator_eq]
  cases c.header with
  | none => rfl
  | some h => cases hempty : h.isEmpty <;> simp [hempty]

theorem elim_render_of_isEmpty (h : c.header.all Header.isEmpty = true) :
    c.header.elim "" Header.render = "" := by
  cases hheader : c.header with
  | none => rfl
  | some header =>
    rw [hheader] at h
    exact header.isEmpty_iff_render_eq.mp h

/-- The header of a configuration stands before the definitions, also where it is dropped for saying
nothing. -/
theorem text_generator_eq (c : Config) (atomic : Bool) (s : Schema) :
    (c.generator atomic).text s =
      (s.render c.indentWidth.toNat).map (c.header.elim "" Header.render ++ ·) := by
  rw [Config.generator_eq, Generator.text]
  cases c.header with
  | none => rfl
  | some h =>
    by_cases hempty : h.isEmpty = true
    · simp [hempty, h.isEmpty_iff_render_eq.mp hempty]
    · simp [hempty]

theorem text_of_body (hbody : s.render c.indentWidth.toNat = .ok body) (atomic : Bool) :
    (c.generator atomic).text s = .ok (c.header.elim "" Header.render ++ body) := by
  rw [text_generator_eq, hbody]
  rfl

theorem render_of_body (hbody : s.render c.indentWidth.toNat = .ok body) (atomic : Bool)
    (w : World) :
    host.render (c.generator atomic) s w =
      (.ok (c.header.elim "" Header.render ++ body),
        { w with events := w.events ++ sizeReport c s body }) := by
  rw [Host.render, text_of_body hbody, isNone_header_generator, sizeReport]
  dsimp only
  cases hempty : c.header.all Header.isEmpty with
  | true =>
    have hall : c.header.elim "" Header.render ++ body = body := by
      rw [elim_render_of_isEmpty hempty, String.empty_append]
    rw [hall]
    rfl
  | false =>
    simp only [Bool.false_eq_true, if_false, List.append_nil]
    rfl

/-! ## Writing -/

/-- What is done to files is not reported as it is done. -/
theorem mirrorsWrites_silent (before : List Event) :
    (host.listening 0).MirrorsWrites (Alike fun _ fs => fs = before) (Alike fun _ fs => fs = before)
      (fun _ => True) (fun _ => True) (fun _ => False) host :=
  mirrorsWrites_listening 0 fun _ _ _ he _ => he.elim

theorem events_makeDirectoryAll (dir : Path) (w : World) :
    (host.makeDirectoryAll dir w).2.events = w.events :=
  ((mirrorsWrites_silent w.events).makeDirectoryAll (fun _ _ => trivial) ⟨rfl, rfl, rfl⟩).2.events

theorem events_writeFile (mode : WriteMode) (dir target : Path) (bytes : List UInt8) (w : World) :
    (host.writeFile mode dir target bytes w).2.events = w.events :=
  ((mirrorsWrites_silent w.events).writeFile mode trivial trivial ⟨rfl, rfl, rfl⟩).2.events

theorem adds_ensureDirectory (dir : Path) (w : World) :
    Adds (·.stage = .ending) w.events (host.ensureDirectory dir w).2.events := by
  rcases hentry : w.tree.entryAt? w.cwd dir with _ | e
  · have hmade := events_makeDirectoryAll dir
      { w with events := w.events ++ [.creatingDirectory dir] }
    rw [ensureDirectory_of_none hentry]
    exact hmade ▸ (Adds.refl _ _).report rfl
  · by_cases he : e = .directory
    · rw [ensureDirectory_of_directory (he ▸ hentry)]
      exact .refl _ _
    · rw [ensureDirectory_of_occupied hentry he]
      exact .refl _ _

theorem adds_persist (mode : WriteMode) (fileName : String) (dir target : Path)
    (bytes : List UInt8) (w : World) :
    Adds (·.stage = .ending) w.events (host.persist mode fileName dir target bytes w).2.events := by
  cases hname : isFileName fileName with
  | false =>
    rw [persist_of_not_fileName target hname]
    exact .refl _ _
  | true =>
    cases hdecode : Utf8.decode bytes with
    | error fault =>
      rw [persist_of_not_text target hname hdecode]
      exact .refl _ _
    | ok text =>
      rw [persist_of_text target hname hdecode]
      refine .bind (adds_ensureDirectory dir w) fun _ w₁ => ?_
      rw [events_writeFile]
      exact .refl _ _

theorem adds_writeText (mode : WriteMode) (name : String) (dir : Path) (text : String) (w : World) :
    Adds (·.stage = .ending) w.events (host.writeText mode name dir text w).2.events := by
  have hpersist := adds_persist mode (protoFileName name) dir (dir.join ⟨protoFileName name⟩)
    (Utf8.encode text) w
  rw [Host.writeText]
  cases hrun : host.persist mode (protoFileName name) dir (dir.join ⟨protoFileName name⟩)
    (Utf8.encode text) w with
  | mk outcome w₁ =>
    rw [hrun] at hpersist
    cases outcome with
    | error e =>
      rw [writeBytes_apply_of_error hrun]
      exact hpersist.report rfl
    | ok =>
      rw [writeBytes_apply_of_ok hrun]
      exact hpersist.report rfl

end World

/-! ## Commands -/

namespace Command

open World FileTree

variable {w : World} {before : List Event} {i : Invocation} {c : Config} {s : Schema}
  {body : String}

/-- With a text to render a command reports the size as far as it does, and then what becomes of the
text. -/
theorem adds_act (hfinds : Finds w i c s) (hbody : s.render c.indentWidth.toNat = .ok body)
    (w' : World) :
    Adds (·.stage = .ending) (w'.events ++ sizeReport c s body)
      (act host i (c, s) w').2.events := by
  let sized : World := { w' with events := w'.events ++ sizeReport c s body }
  cases haction : i.action with
  | print =>
    rw [print_of_render haction (render_of_body hbody false w')]
    exact .refl _ _
  | generate name given atomic =>
    obtain ⟨n, hn⟩ := hfinds.exists_logicalName name
    have hwrite := adds_writeText (c.generator atomic).mode n (outputDirectory c given)
      (c.header.elim "" Header.render ++ body) sized
    rw [act_of_render haction hn (render_of_body hbody atomic w')]
    cases hrun : host.writeText (c.generator atomic).mode n (outputDirectory c given)
      (c.header.elim "" Header.render ++ body) sized with
    | mk outcome w₂ =>
      rw [hrun] at hwrite
      cases outcome <;> exact hwrite

/-- Without a text a command reports nothing of one. -/
theorem act_of_noBody {e : Source.IndentOverflow} (hfinds : Finds w i c s)
    (hbody : s.render c.indentWidth.toNat = .error e) (w' : World) :
    act host i (c, s) w' = (.error .overflow, w') := by
  have htext : (c.generator false).text s = .error e := by
    rw [text_generator_eq, hbody]
    rfl
  cases haction : i.action with
  | print => exact print_of_overflow haction htext
  | generate name given atomic =>
    obtain ⟨n, hn⟩ := hfinds.exists_logicalName name
    exact act_of_overflow haction hn htext

/-- What has failed is reported at the end. -/
theorem adds_invoke (h : Adds (·.stage = .ending) before (execute host i w).2.events) :
    Adds (·.stage = .ending) before (invoke host i w).2.events := by
  cases hrun : execute host i w with
  | mk outcome w' =>
    rw [hrun] at h
    match outcome with
    | .ok output =>
      rw [invoke_of_ok hrun]
      exact h
    | .error .overflow =>
      rw [invoke_of_overflow hrun]
      exact h
    | .error (.failed f) =>
      rw [invoke_of_failed hrun]
      exact h.report rfl

/-- A run reports what it reads, then the size of what it renders as far as it does, and then what
becomes of that. -/
theorem events_invoke (i : Invocation) (w : World) :
    ∃ during, Adds (·.stage = .reading) w.events during ∧
      ((∃ c s body, Finds w i c s ∧ s.render c.indentWidth.toNat = .ok body ∧
          Adds (·.stage = .ending) (during ++ sizeReport c s body) (invoke host i w).2.events) ∨
        (∀ c s body, Finds w i c s → s.render c.indentWidth.toNat ≠ .ok body) ∧
          Adds (·.stage = .ending) during (invoke host i w).2.events) := by
  have hreads := adds_readInputs i w
  rcases (ends_readInputs w i).cases with
    ⟨⟨c, s⟩, w₁, hrun, hfinds, -⟩ | ⟨stop, w₁, hrun, hnone, -⟩
  · rw [hrun] at hreads
    have hexecute : execute host i w = act host i (c, s) w₁ := by rw [execute_eq, bind_of_ok hrun]
    refine ⟨w₁.events, hreads, ?_⟩
    cases hbody : s.render c.indentWidth.toNat with
    | ok body =>
      refine .inl ⟨c, s, body, hfinds, hbody, adds_invoke ?_⟩
      rw [hexecute]
      exact adds_act hfinds hbody w₁
    | error e =>
      refine .inr ⟨fun c' s' body hfinds' => ?_, adds_invoke ?_⟩
      · obtain ⟨rfl, rfl⟩ := hfinds.unique hfinds'
        simp [hbody]
      · rw [hexecute, act_of_noBody hfinds hbody]
        exact .refl _ _
  · rw [hrun] at hreads
    refine ⟨w₁.events, hreads, .inr ⟨fun c s _ hfinds => absurd hfinds (hnone c s), adds_invoke ?_⟩⟩
    rw [execute_eq, bind_of_error hrun]
    exact .refl _ _

/-! ## Runs -/

/-- Whoever asks for details hears everything. -/
theorem reported_eq_self {verbosity : Nat} (h : 2 ≤ verbosity) (events : List Event) :
    Event.reported verbosity events = events := by
  refine List.filter_eq_self.mpr fun e _ => ?_
  cases e.level <;> simp [Level.isReported] <;> omega

/-- Where only what is read and what becomes of a text is reported, no rendering is. -/
theorem stage_ne_rendering {before after : List Event} (h : ∀ e ∈ before, e.stage = .reading)
    (h' : Adds (·.stage = .ending) before after) : ∀ e ∈ after, e.stage ≠ .rendering := by
  obtain ⟨new, rfl, hnew⟩ := h'
  refine List.forall_mem_append.mpr ⟨fun e he => ?_, fun e he => ?_⟩
  · rw [h e he]
    nofun
  · rw [hnew e he]
    nofun

/-- **The size of a text is reported once, if no header precedes the definitions.** Take a line that
runs a command and asks for details. If its schema is found and rendered, what is reported of that
stands between what is reported of the inputs and what is reported of directories, files and
failures. It is one event with the numbers of definitions at the top and the size of their text if
the configuration has no header or an empty one, and none otherwise. Without a text there is none
either. -/
theorem size_reported_once (tree : FileTree) (cwd : Location) {words : List String} {i : Invocation}
    (hwords : Request.ofWords words = .run i) (hverbosity : 2 ≤ i.verbosity) :
    let events := (start host words { tree, cwd }).2.events
    (∀ c s text, Finds { tree, cwd } i c s → (c.generator false).text s = .ok text →
      ∃ body before after, s.render c.indentWidth.toNat = .ok body ∧
        text = c.header.elim "" Header.render ++ body ∧
        events = before
          ++ (if c.header.all Header.isEmpty then [.emitted s.counts body.utf8ByteSize] else [])
          ++ after ∧
        (∀ e ∈ before, e.stage = .reading) ∧ ∀ e ∈ after, e.stage = .ending) ∧
    ((∀ c s text, Finds { tree, cwd } i c s → (c.generator false).text s ≠ .ok text) →
      ∀ e ∈ events, e.stage ≠ .rendering) := by
  intro events
  have hevents : events = (invoke host i { tree, cwd }).2.events :=
    (start_eq hwords tree cwd).2.2.trans (reported_eq_self hverbosity _)
  rw [hevents]
  obtain ⟨during, ⟨before, hduring, hbefore⟩, hends⟩ := events_invoke i { tree, cwd }
  obtain rfl : before = during := hduring.symm
  constructor
  · intro c s text hfinds htext
    rw [text_generator_eq] at htext
    rcases hends with ⟨c', s', body, hfinds', hbody, after, hall, hafter⟩ | ⟨hnone, -⟩
    · obtain ⟨rfl, rfl⟩ := hfinds.unique hfinds'
      rw [hbody] at htext
      exact ⟨body, before, after, hbody, (Except.ok.inj htext).symm, hall, hbefore, hafter⟩
    · cases hbody : s.render c.indentWidth.toNat with
      | error e =>
        rw [hbody] at htext
        cases htext
      | ok body => exact absurd hbody (hnone c s body hfinds)
  · intro hnone
    rcases hends with ⟨c, s, body, hfinds, hbody, -⟩ | ⟨-, hends⟩
    · exact absurd (text_of_body hbody false) (hnone c s _ hfinds)
    · exact stage_ne_rendering hbefore hends

/-- A message is generated. Its size is reported before anything is made or written. -/
theorem size_reported_once_oneSchema :
    let words := ["-vv", "generate", "--schema", "s.json", "--atomic"]
    let i : Invocation := ⟨2, none, ⟨"s.json"⟩, .generate none none true⟩
    Request.ofWords words = .run i ∧ 2 ≤ i.verbosity ∧
      ∃ before after, (start host words oneSchema).2.events
          = before ++ .emitted ⟨1, 0, 0⟩ 15 :: after ∧
        (∀ e ∈ before, e.stage = .reading) ∧ ∀ e ∈ after, e.stage = .ending := by
  intro words i
  have hwords : Request.ofWords words = .run i := by decide
  have htext : (({} : Config).generator false).text { messages := [{ name := "A" }] }
      = .ok "message A \x7b\n\x7d\n\n" := by decide
  have hsize : "message A \x7b\n\x7d\n\n".utf8ByteSize = 15 := by decide
  obtain ⟨hreported, -⟩ := size_reported_once oneSchema.tree [] hwords (by decide)
  obtain ⟨body, before, after, -, hbody, hevents, hbefore, hafter⟩ :=
    hreported {} _ _ (finds_oneSchema 2 i.action) htext
  have hbody : "message A \x7b\n\x7d\n\n" = body := by simpa using hbody
  rw [← hbody, hsize, List.append_assoc] at hevents
  exact ⟨hwords, by decide, before, after, hevents, hbefore, hafter⟩

/-- A directory with a schema of one message, and a configuration with a header. -/
def headedSchema : World := withDefault (.file (Utf8.encode "header: \x7bsyntax: proto3\x7d"))

theorem finds_headedSchema (verbosity : Nat) (action : Action) :
    Finds headedSchema ⟨verbosity, none, ⟨"s.json"⟩, action⟩
      { header := some { dialect := some .proto3 } } { messages := [{ name := "A" }] } where
  config := by
    have hglyphs : Yaml.glyphs? "header: \x7bsyntax: proto3\x7d" = _ :=
      Yaml.glyphs?_of_printable (by simp [Yaml.IsPrintable])
    refine congrArg Prod.fst (discoverConfig_withDefault ?_)
    rw [Config.read, Yaml.read, Yaml.Document.ofText?, hglyphs]
    cbv
  schema := loadSchema_of_name (by decide) (by decide) ⟨by decide, by decide⟩ format?_oneSchema rfl
    read_oneSchema

/-- The same message is printed behind a header, and its size is not reported. -/
theorem size_not_reported_headed :
    let words := ["-vv", "print", "--schema", "s.json"]
    Request.ofWords words = .run ⟨2, none, ⟨"s.json"⟩, .print⟩ ∧
      (start host words headedSchema).1
        = ⟨.success, "syntax = \"proto3\";\n\nmessage A \x7b\n\x7d\n\n"⟩ ∧
      ∀ counts bytes, .emitted counts bytes ∉ (start host words headedSchema).2.events := by
  intro words
  let i : Invocation := ⟨2, none, ⟨"s.json"⟩, .print⟩
  have hi : i.action = .print := rfl
  have hwords : Request.ofWords words = .run i := by decide
  have hfinds := finds_headedSchema 2 i.action
  have hbody : Schema.render 2 { messages := [{ name := "A" }] }
      = .ok "message A \x7b\n\x7d\n\n" := by decide
  have htext := text_of_body (c := { header := some { dialect := some .proto3 } }) hbody false
  obtain ⟨w₁, -, hrun⟩ := execute_of_finds hfinds
  obtain ⟨w₂, -, hprint⟩ := print_of_text (w := w₁) hi htext
  obtain ⟨houtcome, -, hevents⟩ := start_eq hwords headedSchema.tree []
  refine ⟨hwords, houtcome.trans (congrArg Prod.fst (invoke_of_ok (hrun.trans hprint))), ?_⟩
  intro counts bytes hmem
  obtain ⟨during, ⟨before, hduring, hbefore⟩, hends⟩ := events_invoke i headedSchema
  obtain rfl : before = during := hduring.symm
  rw [show (start host words headedSchema).2.events = _ from hevents,
    reported_eq_self (le_refl 2)] at hmem
  rcases hends with ⟨c, s, body, hfinds', -, hends⟩ | ⟨hnone, -⟩
  · obtain ⟨rfl, rfl⟩ := hfinds.unique hfinds'
    rw [sizeReport, if_neg (by decide), List.append_nil] at hends
    exact stage_ne_rendering hbefore hends _ hmem rfl
  · exact hnone _ _ _ hfinds hbody

end Command

end ProtoScribe
