import ProtoScribe.Proofs.Command.Agreement
import ProtoScribe.Proofs.Path.Extension
import ProtoScribe.Proofs.Write.Naming

/-!
# The name of a generated file

Without a name for it, a file is named after its schema. The extension that tells how to read the
schema and the stem that gives the name are cut from the same file name, so a schema that has been
loaded always has a stem, and the writer takes it (`default_name_of_loaded`). Where the run ends
after that is settled by the text and by storage alone.
-/

namespace ProtoScribe.Command

open World FileTree ProtoScribe.Path

variable {w w' : World} {i : Invocation} {c : Config} {s : Schema} {p : Path}

/-! ## Loading -/

/-- A schema is refused for its name exactly if that has no format, wherever it is. -/
theorem unsupported_iff (p : Path) (w : World) :
    (∃ q, (host.loadSchema p w).1 = .error (.unsupported q)) ↔ ¬p.format?.isSome := by
  rw [hostLoadSchema_apply]
  cases p.format? with
  | none => simp
  | some format =>
    simp only [Option.isSome_some, not_true_eq_false, iff_false, not_exists]
    intro q
    cases textOf (w.tree.readBytes w.cwd p) with
    | error fault => simp
    | ok text =>
      show Schema.read format text ≠ _
      unfold Schema.read
      cases format.read Schema.shape text <;> simp [Except.mapError]

theorem isSome_format?_of_loaded (h : (host.loadSchema p w).1 = .ok s) : p.format?.isSome := by
  by_contra hno
  obtain ⟨q, hq⟩ := (unsupported_iff p w).mpr hno
  cases hq.symm.trans h

/-! ## Generating -/

/-- How generating ends under a name: without a text nothing is touched, storage may refuse the
directory or the target, and otherwise the target has been written. -/
inductive GeneratesAt (w : World) (c : Config) (s : Schema) (mode : WriteMode) (name : String)
    (dir target : Path) : Outcome × World → Prop where
  | overflowed {e : Source.IndentOverflow} {w' : World}
      (htext : (c.generator false).text s = .error e) (htree : w'.tree = w.tree) :
      GeneratesAt w c s mode name dir target ({ status := .overflow }, w')
  | refused {e : WriteError} {w' : World} (he : FromStorage dir target e)
      (hlast : w'.events.getLast? = some (.failed (Failure.write name dir e).message)) :
      GeneratesAt w c s mode name dir target ({ status := .failure }, w')
  | written {text : String} {w' : World} (htext : (c.generator false).text s = .ok text)
      (hlast : w'.events.getLast? = some (.written target (Utf8.encode text).length mode))
      (hcontent : w.tree.NoLinks → w'.tree.readBytes w.cwd target = .ok (Utf8.encode text)) :
      GeneratesAt w c s mode name dir target
        (⟨.success, "OK: wrote " ++ target.text ++ "\n"⟩, w')

/-- A write that succeeds returns the target's path and has reported it last. -/
theorem of_writeText {mode : WriteMode} {name text : String} {dir target : Path}
    (h : host.writeText mode name dir text w = (.ok target, w')) :
    target = dir.join ⟨protoFileName name⟩ ∧
      w'.events.getLast? = some (.written target (Utf8.encode text).length mode) := by
  cases hrun : host.persist mode (protoFileName name) dir (dir.join ⟨protoFileName name⟩)
    (Utf8.encode text) w with
  | mk outcome w₁ =>
    cases outcome with
    | error e => cases (writeBytes_apply_of_error hrun).symm.trans h
    | ok =>
      cases (writeBytes_apply_of_ok hrun).symm.trans h
      exact ⟨rfl, List.getLast?_concat⟩

/-- Under a name without a slash a command that has found its inputs ends in one of these ways. -/
theorem generatesAt_of_finds {name : Option String} {given : Option Path} {atomic : Bool}
    {n : String} (hi : i.action = .generate name given atomic) (hfinds : Finds w i c s)
    (hn : logicalName i.schema name = .ok n) (hslash : '/' ∉ n.toList) :
    GeneratesAt w c s (c.generator atomic).mode n (outputDirectory c given)
      ((outputDirectory c given).join ⟨protoFileName n⟩) (invoke host i w) := by
  obtain ⟨w₁, hfiles, hrun⟩ := execute_of_finds hfinds
  cases htext : (c.generator false).text s with
  | error e =>
    rw [invoke_of_overflow (hrun.trans (act_of_overflow hi hn htext))]
    exact .overflowed htext hfiles.tree
  | ok text =>
    obtain ⟨w₂, hfiles₂, hact⟩ := act_of_text (w := w₁) hi hn htext
    have hsame := hfiles.trans hfiles₂
    cases hwrite : host.writeText (c.generator atomic).mode n (outputDirectory c given) text w₂ with
    | mk outcome w₃ =>
      have houtcome := congrArg Prod.fst hwrite
      rw [hwrite] at hact
      cases outcome with
      | error e =>
        rw [invoke_of_failed (hrun.trans hact)]
        exact .refused (fromStorage_of_writeBytes hslash rfl houtcome) List.getLast?_concat
      | ok target =>
        obtain ⟨rfl, hlast⟩ := of_writeText hwrite
        rw [invoke_of_ok (hrun.trans hact)]
        refine .written htext hlast fun hl => ?_
        have hlinks : w₂.tree.NoLinks := hsame.tree ▸ hl
        obtain ⟨-, -, d, w₄, hplaced⟩ := placed_of_writeText hlinks houtcome
        rw [hwrite] at hplaced
        rw [← hsame.cwd]
        exact hplaced.readBytes hlinks

/-! ## Both -/

/-- **Loading and naming read the same file name.** A schema is refused for its name exactly if the
last component of its path is no stem with a last dot and one of three extensions behind it, in
capitals or not, whatever there is at the path. A schema that is loaded has such a stem. That is the
name where none is given: it is not empty, has no slash and passes the writer's check, and what is
generated is at the directory joined with the stem, which gets the suffix unless it has it. -/
theorem default_name_of_loaded (p : Path) :
    (∀ w : World, (∃ q, (host.loadSchema p w).1 = .error (.unsupported q)) ↔
      ¬∃ stem extension, p.IsNamed stem extension ∧
        extension.map Char.toLower ∈ ["yaml", "yml", "json"]) ∧
    ∀ (w : World) (s : Schema), (host.loadSchema p w).1 = .ok s →
      ∃ stem extension, p.IsNamed stem extension ∧
        extension.map Char.toLower ∈ ["yaml", "yml", "json"] ∧
        logicalName p none = .ok stem ∧ stem ≠ "" ∧ '/' ∉ stem.toList ∧
        isFileName (protoFileName stem) = true ∧
        ∀ (i : Invocation) (given : Option Path) (atomic : Bool) (c : Config), i.schema = p →
          i.action = .generate none given atomic →
          (host.discoverConfig i.config w.cwd.path w).1 = .ok c →
          let dir := outputDirectory c given
          let file := if ".proto".toList <:+ stem.toList then stem else stem ++ ".proto"
          GeneratesAt w c s (c.generator atomic).mode stem dir (dir.join ⟨file⟩)
            (invoke host i w) := by
  refine ⟨fun w => (unsupported_iff p w).trans (not_congr isSome_format?_iff),
    fun w s hloaded => ?_⟩
  obtain ⟨stem, extension, hnamed, hextension⟩ :=
    isSome_format?_iff.mp (isSome_format?_of_loaded hloaded)
  have hname : logicalName p none = .ok stem := by
    rw [logicalName, hnamed.stem?]
    rfl
  refine ⟨stem, extension, hnamed, hextension, hname, hnamed.stem_ne, hnamed.slash_not_mem,
    isFileName_protoFileName_iff.mpr hnamed.slash_not_mem, ?_⟩
  rintro i given atomic c rfl hi hconfig dir file
  have hfile : file = protoFileName stem := by
    by_cases hsuffix : ".proto".toList <:+ stem.toList
    · exact (if_pos hsuffix).trans (protoFileName_of_suffix hsuffix).symm
    · exact (if_neg hsuffix).trans (protoFileName_of_not_suffix hsuffix).symm
  rw [hfile]
  exact generatesAt_of_finds hi ⟨hconfig, hloaded⟩ hname hnamed.slash_not_mem

/-- A directory with a schema of one enum, whose name has the suffix before its extension. -/
def suffixedSchema : World where
  tree := (default : FileTree).put [] "a.proto.JSON"
    (.file (Utf8.encode "\x7b\"enums\":[\x7b\"name\":\"E\"\x7d]\x7d"))

/-- Nothing is added to a stem that has the suffix. A name that begins with its only dot has no
stem, and neither has a path that ends in two of them. -/
theorem default_name_of_loaded_suffixed :
    let s : Schema := { enums := [{ name := "E" }] }
    (host.loadSchema ⟨"a.proto.JSON"⟩ suffixedSchema).1 = .ok s ∧
      logicalName ⟨"a.proto.JSON"⟩ none = .ok "a.proto" ∧
      GeneratesAt suffixedSchema {} s .atomic "a.proto" ⟨"."⟩ ⟨"./a.proto"⟩
        (invoke host ⟨0, none, ⟨"a.proto.JSON"⟩, .generate none none true⟩ suffixedSchema) ∧
      (∃ q, (host.loadSchema ⟨"in/.json"⟩ suffixedSchema).1 = .error (.unsupported q)) ∧
      ∃ q, (host.loadSchema ⟨"a.yaml/.."⟩ suffixedSchema).1 = .error (.unsupported q) := by
  intro s
  let i : Invocation := ⟨0, none, ⟨"a.proto.JSON"⟩, .generate none none true⟩
  have hlinks : suffixedSchema.tree.NoLinks := noLinks_put noLinks_default nofun
  have hcwd : suffixedSchema.cwd.IsProper := List.forall_mem_nil _
  have hnone : suffixedSchema.tree.get? suffixedSchema.cwd.defaultConfig = none := by decide
  have hextension : Path.extension? ⟨"a.proto.JSON"⟩ = some "JSON" := by decide
  have hlower : "JSON".map Char.toLower = "json" := by
    rw [← String.toList_inj, String.toList_map]
    decide
  have hformat : Path.format? ⟨"a.proto.JSON"⟩ = some .json := by
    rw [format?, hextension, Option.bind_some, Format.ofExtension?]
    simp [hlower]
  have hfile : suffixedSchema.tree.get? (suffixedSchema.cwd ++ ["a.proto.JSON"])
      = some (.file (Utf8.encode "\x7b\"enums\":[\x7b\"name\":\"E\"\x7d]\x7d")) := rfl
  have hread : Schema.read .json "\x7b\"enums\":[\x7b\"name\":\"E\"\x7d]\x7d" = .ok s := by cbv
  have hfinds : Finds suffixedSchema i {} s :=
    finds_of_name hcwd hlinks rfl (by simp [hnone]) rfl (by decide) (by decide)
      ⟨by decide, by decide⟩ hformat hfile hread
  have hname : logicalName ⟨"a.proto.JSON"⟩ none = .ok "a.proto" := by decide
  obtain ⟨-, hloaded⟩ := default_name_of_loaded ⟨"a.proto.JSON"⟩
  obtain ⟨stem, extension, -, -, hstem, -, -, -, hgenerates⟩ := hloaded _ _ hfinds.schema
  obtain rfl : stem = "a.proto" := Except.ok.inj (hstem.symm.trans hname)
  have hunnamed {p : Path} (hp : p.extension? = none) :
      ∃ q, (host.loadSchema p suffixedSchema).1 = .error (.unsupported q) := by
    refine ((default_name_of_loaded p).1 suffixedSchema).mpr ?_
    rintro ⟨stem, extension, hnamed, -⟩
    cases hp.symm.trans hnamed.extension?
  exact ⟨hfinds.schema, hname, hgenerates i none true {} rfl rfl hfinds.config,
    hunnamed (by decide), hunnamed (by decide)⟩

end ProtoScribe.Command
