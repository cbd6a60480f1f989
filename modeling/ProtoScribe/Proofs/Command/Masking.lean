import ProtoScribe.Proofs.Command.Agreement
import ProtoScribe.Proofs.Command.Mirrors
import ProtoScribe.Proofs.Storage.Apart

/-!
# Settings that mask others

A setting has several sources: a flag, a configuration that is asked for, the one that is found in
the working directory, and the default. Whatever comes first masks what comes after it, so the run
of a command does not depend on that.

For flags this is a fact about what is done with a configuration (`perform_congr`). For
configurations it is one about two runs: they go through the same steps over worlds that differ only
in an entry, since no path that they take passes it (`runsAlike_of_given`, `runsAlike_of_masks`).
-/

namespace ProtoScribe

open Command FileTree

/-! ## Configurations -/

/-- A generator has the width and the header of its configuration, and writes as that or the caller
wants it. -/
theorem Config.generator_eq (c : Config) (atomic : Bool) :
    c.generator atomic =
      { width := c.indentWidth
        mode := if atomic || c.atomicWrites then .atomic else .truncate
        header := c.header.bind fun h => if h.isEmpty then none else some h } := by
  cases h : c.header <;> simp only [Config.generator, h] <;> rfl

namespace Command

/-- Two configurations that give an action the same settings, where its flags leave any open. -/
structure Action.Masks (action : Action) (c c' : Config) : Prop where
  indentWidth : c'.indentWidth = c.indentWidth
  header : c'.header = c.header
  outputDir : ∀ name atomic, action = .generate name none atomic → c'.outputDir = c.outputDir
  atomicWrites : ∀ name given, action = .generate name given false →
    c'.atomicWrites = c.atomicWrites

section Perform

variable {H : Type} {m : Type → Type} [Monad m]

/-- How a text is rendered does not depend on how it is written. -/
theorem render_congr (host : Host H m) (s : Schema) {g g' : Generator} (hwidth : g'.width = g.width)
    (hheader : g'.header = g.header) : host.render g' s = host.render g s := by
  have htext : g'.text s = g.text s := by rw [Generator.text, Generator.text, hwidth, hheader]
  rw [Host.render, Host.render, htext, hheader]

/-- What is done with a configuration does not depend on the settings that flags mask. -/
theorem perform_congr (host : Host H m) {action : Action} {c c' : Config} (h : action.Masks c c')
    (schema : Path) : perform host c' schema action = perform host c schema action := by
  cases action with
  | print =>
    have hrender (s : Schema) :
        host.render (c'.generator false) s = host.render (c.generator false) s :=
      render_congr host s (by rw [c.generator_eq, c'.generator_eq, h.indentWidth])
        (by rw [c.generator_eq, c'.generator_eq, h.header])
    simp only [perform, hrender]
  | generate name given atomic =>
    have hdir : outputDirectory c' given = outputDirectory c given := by
      cases given with
      | none => rw [outputDirectory, outputDirectory, h.outputDir name atomic rfl]
      | some dir => rfl
    have hmode : (atomic || c'.atomicWrites) = (atomic || c.atomicWrites) := by
      cases atomic with
      | false => rw [h.atomicWrites name given rfl]
      | true => rfl
    have hgenerator : c'.generator atomic = c.generator atomic := by
      rw [c.generator_eq, c'.generator_eq, h.indentWidth, h.header, hmode]
    simp only [perform, hdir, hgenerator]

end Perform

/-! ## Runs -/

open World

variable {w v w₁ v₁ : World} {place : Location} {i : Invocation} {c c' : Config}

/-- The paths that a command takes once it has a configuration: the one that it reads its schema by,
and those on whose way it makes directories. -/
inductive Invocation.Takes (i : Invocation) (c : Config) : Bool → Path → Prop where
  | schema : Takes i c false i.schema
  | directory {name : Option String} {given : Option Path} {atomic : Bool}
      (haction : i.action = .generate name given atomic) : Takes i c true (outputDirectory c given)
  | target {name : Option String} {given : Option Path} {atomic : Bool} {n : String}
      (haction : i.action = .generate name given atomic) (hn : logicalName i.schema name = .ok n) :
      Takes i c true ((outputDirectory c given).join ⟨protoFileName n⟩)

/-- With a configuration a command does the same to both worlds if its paths do not pass the
place. -/
theorem mirrors_perform (h : w.Apart place (i.Takes c) v) :
    Mirrors (Apart place fun _ _ => False) (perform host c i.schema i.action).run w
      (perform host c i.schema i.action).run v := by
  have hperform : perform host c i.schema i.action =
      (loadSchema host i.schema).adapt (fun e => .failed (.schema i.schema e)) >>=
        fun schema => act host i (c, schema) := rfl
  rw [hperform]
  have hload := (mirrorsReads_apart place (i.Takes c)).loadSchema trivial .schema h
  refine (hload.adapt _).andThen (fun h => h.mono nofun) fun schema _ _ _ h => ?_
  refine (mirrorsWrites_apart place _).act trivial trivial ?_ h.around
  intro name given atomic n haction hn
  exact ⟨fun q hq => ⟨_, .directory haction, hq⟩, _, .target haction hn, List.mem_cons_self⟩

/-- Commands that have come to configurations between which their flags leave no difference. -/
theorem mirrors_execute_of_ok (hc : host.discoverConfig i.config w.cwd.path w = (.ok c, w₁))
    (hc' : host.discoverConfig i.config v.cwd.path v = (.ok c', v₁)) (hmasks : i.action.Masks c c')
    (h : w₁.Apart place (i.Takes c) v₁) :
    Mirrors (Apart place fun _ _ => False) (execute host i).run w (execute host i).run v := by
  have hw : execute host i w = perform host c i.schema i.action w₁ :=
    bind_of_ok (adapt_of_ok _ hc)
  have hv : execute host i v = perform host c' i.schema i.action v₁ :=
    bind_of_ok (adapt_of_ok _ hc')
  rw [perform_congr host hmasks] at hv
  show Mirrors _ (execute host i) w (execute host i) v
  rw [Mirrors, hw, hv]
  exact mirrors_perform h

/-- Commands that have found no configuration for the same reason. -/
theorem mirrors_execute_of_error {e : Config.Error}
    (hc : host.discoverConfig i.config w.cwd.path w = (.error e, w₁))
    (hc' : host.discoverConfig i.config v.cwd.path v = (.error e, v₁))
    (h : w₁.Apart place (fun _ _ => False) v₁) :
    Mirrors (Apart place fun _ _ => False) (execute host i).run w (execute host i).run v := by
  have hw : execute host i w = (.error (.failed (.config e)), w₁) :=
    bind_of_error (adapt_of_error _ hc)
  have hv : execute host i v = (.error (.failed (.config e)), v₁) :=
    bind_of_error (adapt_of_error _ hc')
  show Mirrors _ (execute host i) w (execute host i) v
  rw [Mirrors, hw, hv]
  exact ⟨rfl, h⟩

/-- No path that a command takes with a configuration passes a place. -/
def Invocation.Avoids (i : Invocation) (c : Config) (place : Location) (w : World) : Prop :=
  ∀ making p, i.Takes c making p → place ∉ w.tree.passed making w.cwd p

/-- Two runs of a command that nobody can tell apart who does not look at a place: they end alike,
report the same and leave the same beside the place. -/
def Invocation.RunsAlike (i : Invocation) (place : Location) (w v : World) : Prop :=
  (invoke host i v).1 = (invoke host i w).1 ∧
    (invoke host i w).2.SameBeside place (invoke host i v).2

theorem runsAlike_of_execute
    (h : Mirrors (Apart place fun _ _ => False) (execute host i).run w (execute host i).run v) :
    i.RunsAlike place w v := by
  obtain ⟨houtcome, hworlds⟩ := mirrors_invoke_of_execute h fun f _ _ h =>
    h.report (.failed f.message)
  exact ⟨houtcome.symm, hworlds.sameBeside⟩

/-- What is known of paths before a configuration is looked for is known after that. -/
theorem apart_of_discoverConfig {r r' : Except Config.Error Config} {clear : Bool → Path → Prop}
    (h : w.Apart place (fun _ _ => False) v)
    (hc : host.discoverConfig i.config w.cwd.path w = (r, w₁))
    (hc' : host.discoverConfig i.config v.cwd.path v = (r', v₁)) (hevents : v₁.events = w₁.events)
    (hclear : ∀ making p, clear making p → place ∉ w.tree.passed making w.cwd p) :
    w₁.Apart place clear v₁ := by
  have hw := sameFiles_discoverConfig i.config w.cwd.path w
  have hv := sameFiles_discoverConfig i.config v.cwd.path v
  rw [hc] at hw
  rw [hc'] at hv
  exact ⟨by rw [hw.tree, hv.tree]; exact h.tree, by rw [hw.cwd, hv.cwd, h.cwd], hevents,
    by rw [hw.cwd]; exact h.beside, by rw [hw.tree, hw.cwd]; exact hclear⟩

/-- With a configuration at a path that does not pass the place a command does not look at it. -/
theorem runsAlike_of_given {p : Path} (hp : i.config = some p)
    (h : w.Apart place (fun _ _ => False) v) (hconfig : place ∉ w.tree.passed false w.cwd p)
    (havoids : ∀ c, (host.discoverConfig i.config w.cwd.path w).1 = .ok c → i.Avoids c place w) :
    i.RunsAlike place w v := by
  have hgiven : w.Apart place (fun making q => making = false ∧ q = p) v := by
    refine { h with clear := ?_ }
    rintro making q ⟨rfl, rfl⟩
    exact hconfig
  have hdiscover : Mirrors (Apart place fun making q => making = false ∧ q = p)
      (host.discoverConfig i.config w.cwd.path) w (host.discoverConfig i.config v.cwd.path) v := by
    rw [h.cwd]
    refine (mirrorsReads_apart place _).discoverConfig trivial
      (fun q hq => ⟨rfl, Option.some.inj (hq.symm.trans hp)⟩) (fun hnone => ?_) hgiven
    cases hnone.symm.trans hp
  cases hc : host.discoverConfig i.config w.cwd.path w with
  | mk r w₁ =>
    cases hc' : host.discoverConfig i.config v.cwd.path v with
    | mk r' v₁ =>
      obtain ⟨hresult, hworlds⟩ := hdiscover
      rw [hc, hc'] at hresult hworlds
      obtain rfl : r = r' := hresult
      -- A configuration that cannot be read fails alike in both, before anything else is looked at.
      refine runsAlike_of_execute ?_
      cases r with
      | error e => exact mirrors_execute_of_error hc hc' (hworlds.mono nofun)
      | ok c =>
        have hclear := havoids c (congrArg Prod.fst hc)
        exact mirrors_execute_of_ok hc hc' ⟨rfl, rfl, fun _ _ _ => rfl, fun _ _ _ => rfl⟩
          (apart_of_discoverConfig h hc hc' hworlds.events hclear)

/-- Commands that have come to configurations in the same way do the same if their flags leave no
difference between these. -/
theorem runsAlike_of_masks (h : w.Apart place (fun _ _ => False) v)
    (hc : (host.discoverConfig i.config w.cwd.path w).1 = .ok c)
    (hc' : (host.discoverConfig i.config v.cwd.path v).1 = .ok c')
    (hevents : (host.discoverConfig i.config v.cwd.path v).2.events
      = (host.discoverConfig i.config w.cwd.path w).2.events)
    (hmasks : i.action.Masks c c') (havoids : i.Avoids c place w) : i.RunsAlike place w v := by
  have hw : host.discoverConfig i.config w.cwd.path w = (.ok c, _) := Prod.ext hc rfl
  have hv : host.discoverConfig i.config v.cwd.path v = (.ok c', _) := Prod.ext hc' rfl
  exact runsAlike_of_execute
    (mirrors_execute_of_ok hw hv hmasks (apart_of_discoverConfig h hw hv hevents havoids))

/-! ### The entry of the default configuration -/

theorem temporaryName_ne_defaultFile (n : Nat) : temporaryName n ≠ Config.defaultFile.text := by
  intro h
  have hhead := congrArg (fun s => s.toList.head?) h
  simp [temporaryName, Config.defaultFile] at hhead

theorem beside_defaultConfig (cwd : Location) : cwd.Beside cwd.defaultConfig := by
  intro h
  have hlength := h.length_le
  simp [Location.defaultConfig] at hlength

/-- Worlds that are the same beside a place are apart there if no new file is made at it. -/
theorem apart_of_sameBeside (h : w.SameBeside place v) (hcwd : w.cwd.Beside place)
    (htaken : place = w.cwd.defaultConfig ∨ w.tree.get? place ≠ none ∧ v.tree.get? place ≠ none) :
    w.Apart place (fun _ _ => False) v := by
  refine ⟨⟨h.tree, fun dir n hn => ?_⟩, h.cwd, h.events, hcwd, nofun⟩
  rcases htaken with hdefault | htaken
  · have hlast := List.append_inj_right' (hn.symm.trans hdefault) rfl
    exact absurd (List.singleton_inj.mp hlast) (temporaryName_ne_defaultFile n)
  · exact htaken

/-- What is no file, nor a link to one, is no configuration unless it is asked for. -/
theorem execute_of_noFile (hconfig : i.config = none)
    (hno : ∀ content, w.tree.entryAt? w.cwd (w.cwd.path.join Config.defaultFile)
      ≠ some (.file content)) :
    execute host i w = perform host {} i.schema i.action w := by
  have hfile : ¬(host.isFile (w.cwd.path.join Config.defaultFile) w).1 = true := by
    rw [isFile_iff]
    exact fun ⟨content, he⟩ => hno content he
  have hc : host.discoverConfig i.config w.cwd.path w = (.ok {}, w) := by
    rw [hconfig, discoverConfig_none, if_neg hfile]
  exact bind_of_ok (adapt_of_ok _ hc)

/-- A configuration that is asked for has to be there. -/
theorem invoke_of_missing {p : Path} (hp : i.config = some p)
    (hmissing : w.tree.entryAt? w.cwd p = none) :
    (invoke host i w).1 = { status := .failure } ∧ (invoke host i w).2.tree = w.tree := by
  obtain ⟨e, he⟩ : ∃ e, w.tree.readBytes w.cwd p = .error e := by
    rw [FileTree.entryAt?] at hmissing
    rw [FileTree.readBytes]
    cases hf : w.tree.follow w.cwd p with
    | error e => exact ⟨e, rfl⟩
    | ok l =>
      rw [hf] at hmissing
      have hnone : w.tree.get? l = none := hmissing
      simp only [bind, Except.bind, hnone]
      exact ⟨.notFound, rfl⟩
  have hc : host.discoverConfig i.config w.cwd.path w =
      (.error (.unreadable p (.system e)),
        { w with events := w.events ++ [.loadingConfig p] }) := by
    rw [hp]
    show host.readConfig p w = _
    rw [readConfig_apply, he]
    rfl
  have hexecute : execute host i w = (.error (.failed (.config _)), _) :=
    bind_of_error (adapt_of_error _ hc)
  exact invoke_of_error hexecute

/-! ## The law -/

/-- **Explicit settings mask implicit ones completely.** A command that is given a configuration
runs alike in worlds that differ only in the entry of the default one, whatever stands there, if
none of its paths passes that. A directory that is given masks the configured one, and asking for
atomic writes masks whether the configuration does: in whatever is done with the configurations, and
in whole runs over worlds that differ only in where these are read from. Where none is given, what
is neither a file nor leads to one counts for nothing; one that is given and missing is always a
failure. -/
theorem explicit_settings_mask_implicit (i : Invocation) (w : World) :
    (∀ v p, i.config = some p → w.SameBeside w.cwd.defaultConfig v →
      w.cwd.defaultConfig ∉ w.tree.passed false w.cwd p →
      (∀ c, (host.discoverConfig i.config w.cwd.path w).1 = .ok c →
        i.Avoids c w.cwd.defaultConfig w) →
      i.RunsAlike w.cwd.defaultConfig w v) ∧
    (∀ (c : Config) configured schema name dir atomic,
      perform host { c with outputDir := configured } schema (.generate name (some dir) atomic)
        = perform host c schema (.generate name (some dir) atomic)) ∧
    (∀ (c : Config) configured schema name given,
      perform host { c with atomicWrites := configured } schema (.generate name given true)
        = perform host c schema (.generate name given true)) ∧
    (∀ v place c c', w.SameBeside place v → w.cwd.Beside place →
      (place = w.cwd.defaultConfig ∨ w.tree.get? place ≠ none ∧ v.tree.get? place ≠ none) →
      (host.discoverConfig i.config w.cwd.path w).1 = .ok c →
      (host.discoverConfig i.config v.cwd.path v).1 = .ok c' →
      (host.discoverConfig i.config v.cwd.path v).2.events
        = (host.discoverConfig i.config w.cwd.path w).2.events →
      i.action.Masks c c' → i.Avoids c place w → i.RunsAlike place w v) ∧
    (i.config = none →
      (∀ content, w.tree.entryAt? w.cwd (w.cwd.path.join Config.defaultFile)
        ≠ some (.file content)) →
      execute host i w = perform host {} i.schema i.action w) ∧
    (∀ p, i.config = some p → w.tree.entryAt? w.cwd p = none →
      (invoke host i w).1 = { status := .failure } ∧ (invoke host i w).2.tree = w.tree) := by
  refine ⟨fun v p hp hsame hconfig havoids => ?_, fun c configured schema name dir atomic => ?_,
    fun c configured schema name given => ?_,
    fun v place c c' hsame hcwd htaken hc hc' hevents hmasks havoids => ?_, execute_of_noFile,
    fun p => invoke_of_missing⟩
  · have hapart := apart_of_sameBeside hsame (beside_defaultConfig w.cwd) (.inl rfl)
    exact runsAlike_of_given hp hapart hconfig havoids
  · refine perform_congr host ⟨rfl, rfl, fun name' atomic' h => ?_, fun _ _ _ => rfl⟩ schema
    simp at h
  · refine perform_congr host ⟨rfl, rfl, fun _ _ _ => rfl, fun name' given' h => ?_⟩ schema
    simp at h
  · exact runsAlike_of_masks (apart_of_sameBeside hsame hcwd htaken) hc hc' hevents hmasks havoids

/-! ### A directory with a default configuration -/

/-- The directory with a schema, an empty configuration and an entry for the default one. -/
def withDefault (e : Entry) : World where
  tree := (oneSchema.tree.put [] "c.yaml" (.file [])).put [] "protomak.yaml" e

theorem sameBeside_withDefault (e e' : Entry) :
    (withDefault e).SameBeside ["protomak.yaml"] (withDefault e') where
  tree l hl := by
    have hfree : (oneSchema.tree.put [] "c.yaml" (.file [])).IsFree [] "protomak.yaml" := by decide
    have hne : l ≠ [] ++ ["protomak.yaml"] := fun he => hl (he ▸ List.prefix_refl _)
    rw [withDefault, withDefault, get?_put hfree, get?_put hfree, if_neg hne, if_neg hne]
  cwd := rfl
  events := rfl

theorem noLinks_withDefault {e : Entry} (he : ∀ target, e ≠ .link target) :
    (withDefault e).tree.NoLinks :=
  noLinks_put (noLinks_put noLinks_oneSchema nofun) he

/-- Other names in it do not lead past the entry. -/
theorem not_passed_withDefault {e : Entry} (he : ∀ target, e ≠ .link target) (making : Bool)
    (p : Path) (name : String) (ha : p.isAbsolute = false)
    (hs : p.steps = [name] ∨ p.steps = [".", name]) (hname : FitsStep name)
    (hne : "protomak.yaml" ≠ name) :
    ["protomak.yaml"] ∉ (withDefault e).tree.passed making [] p := by
  have hroot : (withDefault e).tree.IsEntered making [] := .inl rfl
  have hone : (withDefault e).tree.visited making linkLimit [] [name] = [[name]] := by
    rw [visited_name hroot hname (noLinks_withDefault he _), visited, List.nil_append]
  have hpassed : (withDefault e).tree.passed making [] p = [[name]] := by
    rw [passed, ha, if_neg Bool.false_ne_true]
    rcases hs with hs | hs
    · rw [hs, hone]
    · rw [hs, visited_idle hroot (.inr rfl), hone]
  rw [hpassed]
  simpa using hne

/-- Neither do the paths of a command that generates from its schema. -/
theorem avoids_withDefault {e : Entry} (he : ∀ target, e ≠ .link target) (config : Option Path)
    (c : Config) :
    Invocation.Avoids ⟨0, config, ⟨"s.json"⟩, .generate none (some ⟨"."⟩) true⟩ c ["protomak.yaml"]
      (withDefault e) := by
  rintro making p (_ | ⟨haction⟩ | ⟨haction, hn⟩)
  · exact not_passed_withDefault he false ⟨"s.json"⟩ "s.json" (by decide) (.inl (by decide))
      ⟨by decide, by decide⟩ (by decide)
  · cases haction
    have hroot : (withDefault e).tree.IsEntered true [] := .inl rfl
    show ["protomak.yaml"] ∉ (withDefault e).tree.passed true [] ⟨"."⟩
    rw [passed, if_neg (by decide), show Path.steps ⟨"."⟩ = ["."] by decide,
      visited_idle hroot (.inr rfl), visited]
    exact List.not_mem_nil
  · cases haction
    have hname : logicalName ⟨"s.json"⟩ none = .ok "s" := by decide
    cases hname.symm.trans hn
    show ["protomak.yaml"] ∉ (withDefault e).tree.passed true [] (Path.join ⟨"."⟩ _)
    rw [show Path.join ⟨"."⟩ ⟨protoFileName "s"⟩ = ⟨"./s.proto"⟩ by decide]
    exact not_passed_withDefault he true ⟨"./s.proto"⟩ "s.proto" (by decide) (.inr (by decide))
      ⟨by decide, by decide⟩ (by decide)

theorem fitsDefault_root : Location.FitsDefault [] := by
  refine ⟨by decide, fun s hs => ?_⟩
  obtain rfl := List.mem_singleton.mp hs
  exact ⟨by decide, by decide⟩

/-- A text there is read as the configuration. -/
theorem discoverConfig_withDefault {text : String} {c : Config}
    (hread : Config.read text ⟨"/protomak.yaml"⟩ = .ok c) :
    host.discoverConfig none (withDefault (.file (Utf8.encode text))).cwd.path
        (withDefault (.file (Utf8.encode text)))
      = (.ok c, { withDefault (.file (Utf8.encode text)) with
          events := [.loadingConfig ⟨"/protomak.yaml"⟩] }) := by
  have hcwd : Location.IsProper [] := List.forall_mem_nil _
  have hfree : (oneSchema.tree.put [] "c.yaml" (.file [])).IsFree [] "protomak.yaml" := by decide
  have hfile : (withDefault (.file (Utf8.encode text))).tree.get? (Location.defaultConfig [])
      = some (.file (Utf8.encode text)) := by
    rw [withDefault, get?_put hfree]
    rfl
  have hpath : Path.join (Location.path []) Config.defaultFile = ⟨"/protomak.yaml"⟩ := by decide
  have hlinks := noLinks_withDefault (e := .file (Utf8.encode text)) fun _ => by simp
  have hisFile := (isFile_fallback_iff hcwd hlinks).mpr ⟨fitsDefault_root, _, hfile⟩
  have hfollow := follow_fallback hcwd fitsDefault_root hfile fun _ => by simp
  have hbytes : (withDefault (.file (Utf8.encode text))).tree.readBytes []
      (Path.join (Location.path []) Config.defaultFile) = .ok (Utf8.encode text) := by
    rw [readBytes, hfollow]
    simp only [bind, Except.bind, hfile]
    rfl
  have hcwd' : (withDefault (.file (Utf8.encode text))).cwd = [] := rfl
  rw [discoverConfig_none, if_pos hisFile, readConfig_apply, hcwd', hbytes, textOf,
    Utf8.decode_encode, hpath]
  exact Prod.ext hread rfl

/-- What stands at the entry makes no difference to a command with a configuration, what directory
it configures none to one that is given another, and a directory stands for no configuration. -/
theorem explicit_settings_mask_implicit_withDefault :
    let i : Invocation := ⟨0, some ⟨"c.yaml"⟩, ⟨"s.json"⟩, .generate none (some ⟨"."⟩) true⟩
    let j : Invocation := { i with config := none }
    let a : Entry := .file (Utf8.encode "output_dir: a")
    let empty : Entry := .file (Utf8.encode "")
    i.RunsAlike ["protomak.yaml"] (withDefault a) (withDefault .directory) ∧
      j.RunsAlike ["protomak.yaml"] (withDefault a) (withDefault empty) ∧
      execute host j (withDefault .directory)
        = perform host {} j.schema j.action (withDefault .directory) ∧
      (invoke host { i with config := some ⟨"d.yaml"⟩ } (withDefault a)).1
        = { status := .failure } := by
  intro i j a empty
  have ha : ∀ target, a ≠ .link target := by simp [a]
  obtain ⟨hentry, -, -, -, -, -⟩ := explicit_settings_mask_implicit i (withDefault a)
  obtain ⟨-, -, -, hmasks, -, -⟩ := explicit_settings_mask_implicit j (withDefault a)
  obtain ⟨-, -, -, -, hnone, -⟩ := explicit_settings_mask_implicit j (withDefault .directory)
  obtain ⟨-, -, -, -, -, hmissing⟩ :=
    explicit_settings_mask_implicit { i with config := some ⟨"d.yaml"⟩ } (withDefault a)
  refine ⟨?_, ?_, ?_, ?_⟩
  · refine hentry (withDefault .directory) ⟨"c.yaml"⟩ rfl (sameBeside_withDefault a .directory) ?_
      fun c _ => avoids_withDefault ha _ c
    exact not_passed_withDefault ha false ⟨"c.yaml"⟩ "c.yaml" (by decide) (.inl (by decide))
      ⟨by decide, by decide⟩ (by decide)
  · have hc := discoverConfig_withDefault
      (show Config.read "output_dir: a" _ = .ok { outputDir := some ⟨"a"⟩ } by cbv)
    have hc' := discoverConfig_withDefault (show Config.read "" _ = .ok {} by cbv)
    refine hmasks (withDefault empty) ["protomak.yaml"] _ _ (sameBeside_withDefault a empty)
      (beside_defaultConfig []) (.inl rfl) (congrArg Prod.fst hc) (congrArg Prod.fst hc') ?_ ?_
      (avoids_withDefault ha _ _)
    · rw [hc, hc']
    · exact ⟨rfl, rfl, fun _ _ h => by simp [j, i] at h, fun _ _ _ => rfl⟩
  · refine hnone rfl fun content hfile => ?_
    have hlinks := noLinks_withDefault (e := .directory) fun _ => by simp
    have hcwd : (withDefault .directory).cwd.IsProper := List.forall_mem_nil _
    have hisFile := (isFile_iff _).mpr ⟨content, hfile⟩
    obtain ⟨-, content', hentry⟩ := (isFile_fallback_iff hcwd hlinks).mp hisFile
    have hdirectory : (withDefault .directory).tree.get? (Location.defaultConfig [])
        = some .directory := by decide
    cases hdirectory.symm.trans hentry
  · refine (hmissing ⟨"d.yaml"⟩ rfl ?_).1
    have hfits : Path.Fits ⟨"d.yaml"⟩ := ⟨by decide, by decide, by decide⟩
    exact entryAt?_of_none hfits rfl (by decide) (by decide)

end Command

end ProtoScribe
