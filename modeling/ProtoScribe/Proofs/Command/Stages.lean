import ProtoScribe.Command.Run
import ProtoScribe.Proofs.Source.Width
import ProtoScribe.Proofs.Storage.Run

/-!
# The stages of a command

A command reads its inputs and then acts on them (`execute_eq`). Reading changes nothing but what
has been reported, and what is read depends on the bytes of the files alone
(`readConfig_apply`, `loadSchema_congr`). Acting renders the schema first; what is refused before
that or by it has touched nothing.
-/

namespace ProtoScribe.Command

section Stages

variable {H : Type} {m : Type → Type} [Monad m]

/-- Finds the configuration of a command and loads its schema. -/
def readInputs (host : Host H m) (i : Invocation) : ExceptT Stop m (Config × Schema) := do
  let c ← (ExceptT.mk (do host.discoverConfig i.config (← host.workingDirectory))).adapt
    fun e => .failed (.config e)
  let schema ← (loadSchema host i.schema).adapt fun e => .failed (.schema i.schema e)
  return (c, schema)

/-- Does what is asked for with what has been read, and returns what there is to say. -/
def act (host : Host H m) (i : Invocation) (inputs : Config × Schema) : ExceptT Stop m String :=
  match i.action with
  | .print => (ExceptT.mk (host.render (inputs.1.generator false) inputs.2)).adapt fun _ => .overflow
  | .generate name dir atomic => do
    let name ← ExceptT.mk (pure ((logicalName i.schema name).mapError .failed))
    let dir := outputDirectory inputs.1 dir
    let result ← (ExceptT.mk
      (host.generate (inputs.1.generator atomic) name dir inputs.2)).adapt fun _ => .overflow
    match result with
    | .ok path => return "OK: wrote " ++ path.text ++ "\n"
    | .error e => throw (.failed (.write name dir e))

/-- A command reads, and then acts. -/
theorem execute_eq [LawfulMonad m] (host : Host H m) (i : Invocation) :
    execute host i = readInputs host i >>= act host i := by
  simp only [execute, perform, readInputs, bind_assoc, pure_bind]
  rfl

end Stages

/-! ## Reading -/

open World

variable {α ε ε' : Type} {w w' : World} {p dir : Path} {i : Invocation} {c : Config} {s : Schema}

theorem adapt_of_ok {x : ExceptT ε (StateM World) α} {a : α} (f : ε → ε')
    (h : x w = (.ok a, w')) : x.adapt f w = (.ok a, w') := by
  show ((x w).1.mapError f, (x w).2) = _
  rw [h]
  rfl

theorem adapt_of_error {x : ExceptT ε (StateM World) α} {e : ε} (f : ε → ε')
    (h : x w = (.error e, w')) : x.adapt f w = (.error (f e), w') := by
  show ((x w).1.mapError f, (x w).2) = _
  rw [h]
  rfl

/-- A world that differs from another at most by what has been reported. -/
structure SameFiles (w w' : World) : Prop where
  tree : w'.tree = w.tree
  cwd : w'.cwd = w.cwd

theorem SameFiles.refl (w : World) : SameFiles w w := ⟨rfl, rfl⟩

theorem SameFiles.trans {w'' : World} (h : SameFiles w w') (h' : SameFiles w' w'') :
    SameFiles w w'' :=
  ⟨h'.tree.trans h.tree, h'.cwd.trans h.cwd⟩

/-- The text of a file, as far as its bytes could be read. -/
def textOf : Except Errno (List UInt8) → Except StorageFault String
  | .error e => .error (.system e)
  | .ok bytes => (Utf8.decode bytes).mapError fun _ => .unreadable

theorem readText_apply (p : Path) (w : World) :
    host.readText p w = (textOf (w.tree.readBytes w.cwd p), w) := by
  rw [Host.readText, bind_apply, show host.readBytes p w = (w.tree.readBytes w.cwd p, w) from rfl]
  cases w.tree.readBytes w.cwd p <;> rfl

/-! ### Configurations -/

theorem readConfig_apply (p : Path) (w : World) :
    host.readConfig p w =
      (match textOf (w.tree.readBytes w.cwd p) with
        | .error fault => .error (.unreadable p fault)
        | .ok text => Config.read text p,
      { w with events := w.events ++ [.loadingConfig p] }) := by
  have hread := readText_apply p { w with events := w.events ++ [.loadingConfig p] }
  rw [Host.readConfig, bind_apply, bind_apply,
    show (host.report (.loadingConfig p) w).2 = { w with events := w.events ++ [.loadingConfig p] }
      from rfl, hread]
  cases textOf (w.tree.readBytes w.cwd p) <;> rfl

theorem discoverConfig_none (dir : Path) (w : World) :
    host.discoverConfig none dir w =
      if (host.isFile (dir.join Config.defaultFile) w).1 then
        host.readConfig (dir.join Config.defaultFile) w else (.ok {}, w) := by
  rw [Host.discoverConfig, bind_apply]
  show (ite _ _ _ : StateM World _) w = _
  split <;> rfl

/-- Looking for a configuration leaves the files as they are. -/
theorem sameFiles_discoverConfig (given : Option Path) (dir : Path) (w : World) :
    SameFiles w (host.discoverConfig given dir w).2 := by
  cases given with
  | some p =>
    show SameFiles w (host.readConfig p w).2
    rw [readConfig_apply]
    exact ⟨rfl, rfl⟩
  | none =>
    rw [discoverConfig_none]
    split
    · rw [readConfig_apply]
      exact ⟨rfl, rfl⟩
    · exact .refl w

/-! ### Schemas -/

theorem hostLoadSchema_apply (p : Path) (w : World) :
    host.loadSchema p w =
      (match p.format? with
        | none => .error (.unsupported p)
        | some format =>
          match textOf (w.tree.readBytes w.cwd p) with
          | .error fault => .error (.unreadable p fault)
          | .ok text => Schema.read format text, w) := by
  rw [Host.loadSchema]
  cases p.format? with
  | none => rfl
  | some format =>
    dsimp only
    rw [bind_apply, readText_apply]
    cases textOf (w.tree.readBytes w.cwd p) <;> rfl

theorem loadSchema_of_ok (hs : (host.loadSchema p w).1 = .ok s) :
    loadSchema host p w = (.ok s, { w with events := w.events ++ [.loadedSchema p s.counts] }) := by
  have hrun : host.loadSchema p w = (.ok s, w) := Prod.ext hs (by rw [hostLoadSchema_apply])
  exact bind_of_ok (x := ExceptT.mk (host.loadSchema p)) hrun

theorem loadSchema_of_error {e : LoadError} (hs : (host.loadSchema p w).1 = .error e) :
    loadSchema host p w = (.error e, w) := by
  have hrun : host.loadSchema p w = (.error e, w) := Prod.ext hs (by rw [hostLoadSchema_apply])
  exact bind_of_error (x := ExceptT.mk (host.loadSchema p)) hrun

/-- A schema is the same wherever the bytes of its file are. -/
theorem loadSchema_congr (h : w'.tree.readBytes w'.cwd p = w.tree.readBytes w.cwd p) :
    (host.loadSchema p w').1 = (host.loadSchema p w).1 := by
  rw [hostLoadSchema_apply, hostLoadSchema_apply, h]

/-! ### Both -/

/-- What a command finds to work on. -/
structure Finds (w : World) (i : Invocation) (c : Config) (s : Schema) : Prop where
  config : (host.discoverConfig i.config w.cwd.path w).1 = .ok c
  schema : (host.loadSchema i.schema w).1 = .ok s

/-- A command finds one thing. -/
theorem Finds.unique {c' : Config} {s' : Schema} (h : Finds w i c s) (h' : Finds w i c' s') :
    c' = c ∧ s' = s :=
  ⟨Except.ok.inj (h'.config.symm.trans h.config), Except.ok.inj (h'.schema.symm.trans h.schema)⟩

/-- Reading inputs leaves the files as they are, and succeeds where there is something to find. -/
theorem ends_readInputs (w : World) (i : Invocation) :
    Ends (readInputs host i) w
      (fun inputs w' => Finds w i inputs.1 inputs.2 ∧ SameFiles w w')
      (fun _ w' => (∀ c s, ¬Finds w i c s) ∧ SameFiles w w') := by
  have hfiles := sameFiles_discoverConfig i.config w.cwd.path w
  cases hdiscover : host.discoverConfig i.config w.cwd.path w with
  | mk found w₁ =>
    rw [hdiscover] at hfiles
    cases found with
    | error e =>
      refine .of_error (bind_of_error (adapt_of_error _ hdiscover)) ⟨fun c s h => ?_, hfiles⟩
      cases (congrArg Prod.fst hdiscover).symm.trans h.config
    | ok c =>
      refine .of_eq (bind_of_ok (adapt_of_ok _ hdiscover)) ?_
      have hload : (host.loadSchema i.schema w₁).1 = (host.loadSchema i.schema w).1 :=
        loadSchema_congr (by rw [hfiles.tree, hfiles.cwd])
      cases hschema : (host.loadSchema i.schema w).1 with
      | error e =>
        have hrun := loadSchema_of_error (hload.trans hschema)
        refine .of_error (bind_of_error (adapt_of_error _ hrun)) ⟨fun c s h => ?_, hfiles⟩
        cases hschema.symm.trans h.schema
      | ok s =>
        have hrun := loadSchema_of_ok (hload.trans hschema)
        refine .of_ok (bind_of_ok (adapt_of_ok _ hrun)) ⟨⟨by rw [hdiscover], hschema⟩, ?_⟩
        exact ⟨hfiles.tree, hfiles.cwd⟩

/-- What is there to be found is read. -/
theorem readInputs_of_finds (h : Finds w i c s) :
    ∃ w', readInputs host i w = (.ok (c, s), w') ∧ SameFiles w w' := by
  rcases (ends_readInputs w i).cases with ⟨⟨c', s'⟩, w', hrun, hfinds, hfiles⟩ | ⟨-, -, -, hno, -⟩
  · obtain ⟨rfl, rfl⟩ := h.unique hfinds
    exact ⟨w', hrun, hfiles⟩
  · exact absurd h (hno c s)

/-- What a command finds is what it acts on. -/
theorem execute_of_finds (h : Finds w i c s) :
    ∃ w', SameFiles w w' ∧ execute host i w = act host i (c, s) w' := by
  obtain ⟨w', hrun, hfiles⟩ := readInputs_of_finds h
  exact ⟨w', hfiles, by rw [execute_eq, bind_of_ok hrun]⟩

/-! ## Acting -/

/-- A text that is rendered is the generator's, whatever its mode of writing. -/
theorem text_generator (c : Config) (atomic : Bool) (s : Schema) :
    (c.generator atomic).text s = (c.generator false).text s := by
  cases h : c.header <;> simp only [Config.generator, h, Option.elim] <;> rfl

theorem render_of_error {g : Generator} {e : Source.IndentOverflow} (h : g.text s = .error e) :
    host.render g s w = (.error e, w) := by
  rw [Host.render, h]
  rfl

theorem render_of_ok {g : Generator} {text : String} (h : g.text s = .ok text) :
    ∃ w', host.render g s w = (.ok text, w') ∧ SameFiles w w' := by
  rw [Host.render, h]
  cases g.header <;> exact ⟨_, rfl, rfl, rfl⟩

section Print

variable (hi : i.action = .print)

include hi

/-- Without a text nothing is printed. -/
theorem print_of_overflow {e : Source.IndentOverflow} (ht : (c.generator false).text s = .error e) :
    act host i (c, s) w = (.error .overflow, w) := by
  rw [act, hi]
  exact adapt_of_error _ (render_of_error ht)

/-- What has been rendered is printed. -/
theorem print_of_render {text : String} {w₁ : World}
    (hrender : host.render (c.generator false) s w = (.ok text, w₁)) :
    act host i (c, s) w = (.ok text, w₁) := by
  rw [act, hi]
  exact adapt_of_ok _ hrender

/-- A text is printed as it is rendered. -/
theorem print_of_text {text : String} (ht : (c.generator false).text s = .ok text) :
    ∃ w₁, SameFiles w w₁ ∧ act host i (c, s) w = (.ok text, w₁) := by
  obtain ⟨w₁, hrender, hfiles⟩ := render_of_ok (w := w) ht
  exact ⟨w₁, hfiles, print_of_render hi hrender⟩

end Print

section Generate

variable {name : Option String} {given : Option Path} {atomic : Bool}
  (hi : i.action = .generate name given atomic)

include hi

/-- Without a name nothing is rendered. -/
theorem act_of_noName {f : Failure} (hn : logicalName i.schema name = .error f) :
    act host i (c, s) w = (.error (.failed f), w) := by
  rw [act, hi]
  dsimp only
  rw [hn]
  rfl

variable {n : String} (hn : logicalName i.schema name = .ok n)

include hn

/-- Without a text nothing is written. -/
theorem act_of_overflow {e : Source.IndentOverflow} (ht : (c.generator false).text s = .error e) :
    act host i (c, s) w = (.error .overflow, w) := by
  rw [← text_generator c atomic] at ht
  have hgenerate : host.generate (c.generator atomic) n (outputDirectory c given) s w
      = (.error e, w) := by
    rw [Host.generate, bind_apply, render_of_error ht]
    rfl
  rw [act, hi]
  dsimp only
  rw [hn]
  exact (bind_of_ok rfl).trans (bind_of_error (adapt_of_error _ hgenerate))

/-- What has been rendered is written from where that has ended. -/
theorem act_of_render {text : String} {w₁ : World}
    (hrender : host.render (c.generator atomic) s w = (.ok text, w₁)) :
    act host i (c, s) w =
      match host.writeText (c.generator atomic).mode n (outputDirectory c given) text w₁ with
      | (.ok path, w') => (.ok ("OK: wrote " ++ path.text ++ "\n"), w')
      | (.error e, w') => (.error (.failed (.write n (outputDirectory c given) e)), w') := by
  have hgenerate : host.generate (c.generator atomic) n (outputDirectory c given) s w =
      (.ok (host.writeText (c.generator atomic).mode n (outputDirectory c given) text w₁).1,
        (host.writeText (c.generator atomic).mode n (outputDirectory c given) text w₁).2) := by
    rw [Host.generate, bind_apply, hrender]
    dsimp only
    rw [bind_apply]
    rfl
  rw [act, hi]
  dsimp only
  rw [hn]
  refine (bind_of_ok rfl).trans ((bind_of_ok (adapt_of_ok _ hgenerate)).trans ?_)
  cases host.writeText (c.generator atomic).mode n (outputDirectory c given) text w₁ with
  | mk outcome w' => cases outcome <;> rfl

/-- A text is written as it is rendered. -/
theorem act_of_text {text : String} (ht : (c.generator false).text s = .ok text) :
    ∃ w₁, SameFiles w w₁ ∧ act host i (c, s) w =
      match host.writeText (c.generator atomic).mode n (outputDirectory c given) text w₁ with
      | (.ok path, w') => (.ok ("OK: wrote " ++ path.text ++ "\n"), w')
      | (.error e, w') => (.error (.failed (.write n (outputDirectory c given) e)), w') := by
  rw [← text_generator c atomic] at ht
  obtain ⟨w₁, hrender, hfiles⟩ := render_of_ok (w := w) ht
  exact ⟨w₁, hfiles, act_of_render hi hn hrender⟩

end Generate

/-- Printing leaves the files as they are. -/
theorem sameFiles_print (hi : i.action = .print) (w : World) :
    SameFiles w (execute host i w).2 := by
  rw [execute_eq]
  rcases (ends_readInputs w i).cases with
    ⟨⟨c, s⟩, w', hrun, -, hfiles⟩ | ⟨stop, w', hrun, -, hfiles⟩
  · cases htext : (c.generator false).text s with
    | error e =>
      rw [bind_of_ok hrun, print_of_overflow hi htext]
      exact hfiles
    | ok text =>
      obtain ⟨w₁, hfiles₁, hact⟩ := print_of_text (w := w') hi htext
      rw [bind_of_ok hrun, hact]
      exact hfiles.trans hfiles₁
  · rw [bind_of_error hrun]
    exact hfiles

/-- Generating stops while the files are as they were, or comes to write the text of what it has
found. -/
theorem execute_generate_cases {name : Option String} {given : Option Path} {atomic : Bool}
    (hi : i.action = .generate name given atomic) (w : World) :
    (∃ stop w', execute host i w = (.error stop, w') ∧ SameFiles w w') ∨
      ∃ c s n text w₁, Finds w i c s ∧ logicalName i.schema name = .ok n ∧
        (c.generator false).text s = .ok text ∧ SameFiles w w₁ ∧
        execute host i w =
          match host.writeText (c.generator atomic).mode n (outputDirectory c given) text w₁ with
          | (.ok path, w') => (.ok ("OK: wrote " ++ path.text ++ "\n"), w')
          | (.error e, w') => (.error (.failed (.write n (outputDirectory c given) e)), w') := by
  rcases (ends_readInputs w i).cases with
    ⟨⟨c, s⟩, w', hrun, hfinds, hfiles⟩ | ⟨stop, w', hrun, -, hfiles⟩
  · have hexecute : execute host i w = act host i (c, s) w' := by rw [execute_eq, bind_of_ok hrun]
    cases hn : logicalName i.schema name with
    | error f => exact .inl ⟨_, w', hexecute.trans (act_of_noName hi hn), hfiles⟩
    | ok n =>
      cases htext : (c.generator false).text s with
      | error e => exact .inl ⟨_, w', hexecute.trans (act_of_overflow hi hn htext), hfiles⟩
      | ok text =>
        obtain ⟨w₁, hfiles₁, hact⟩ := act_of_text (w := w') hi hn htext
        exact .inr ⟨c, s, n, text, w₁, hfinds, rfl, htext, hfiles.trans hfiles₁,
          hexecute.trans hact⟩
  · exact .inl ⟨stop, w', by rw [execute_eq, bind_of_error hrun], hfiles⟩

/-! ## Outcomes -/

/-- The status that a stop comes to. -/
def Stop.status : Stop → Status
  | .failed _ => .failure
  | .overflow => .overflow

theorem invoke_of_ok {output : String} (h : execute host i w = (.ok output, w')) :
    invoke host i w = (⟨.success, output⟩, w') := by
  rw [invoke, bind_apply]
  simp only [ExceptT.run, h]
  rfl

/-- A failure is reported. -/
theorem invoke_of_failed {f : Failure} (h : execute host i w = (.error (.failed f), w')) :
    invoke host i w =
      ({ status := .failure }, { w' with events := w'.events ++ [.failed f.message] }) := by
  rw [invoke, bind_apply]
  simp only [ExceptT.run, h]
  rfl

theorem invoke_of_overflow (h : execute host i w = (.error .overflow, w')) :
    invoke host i w = ({ status := .overflow }, w') := by
  rw [invoke, bind_apply]
  simp only [ExceptT.run, h]
  rfl

/-- A stop says nothing and is reported at most. -/
theorem invoke_of_error {stop : Stop} (h : execute host i w = (.error stop, w')) :
    (invoke host i w).1 = { status := stop.status } ∧ (invoke host i w).2.tree = w'.tree := by
  cases stop with
  | failed f =>
    rw [invoke_of_failed h]
    exact ⟨rfl, rfl⟩
  | overflow =>
    rw [invoke_of_overflow h]
    exact ⟨rfl, rfl⟩

end ProtoScribe.Command
