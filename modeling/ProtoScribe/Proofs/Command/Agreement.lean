import ProtoScribe.Proofs.Command.Discovery
import ProtoScribe.Proofs.Write.Ends

/-!
# Generating and printing

Both commands read the same inputs and render the same text. So a file that is generated holds what
would be printed, and what cannot be printed is not generated either (`generate_agrees_with_print`).
-/

namespace ProtoScribe.Command

open World FileTree ProtoScribe.Path

variable {w : World} {i : Invocation} {c : Config} {s : Schema} {d : Location} {n text : String}

/-- A file that has a format has a name to generate under. -/
theorem Finds.exists_logicalName (h : Finds w i c s) (name : Option String) :
    ∃ n, logicalName i.schema name = .ok n := by
  cases name with
  | some n => exact ⟨n, rfl⟩
  | none =>
    have hschema := h.schema
    rw [hostLoadSchema_apply] at hschema
    cases hname : i.schema.fileName? with
    | none => simp [format?, extension?, hname] at hschema
    | some file =>
      obtain ⟨stem, hstem⟩ : ∃ stem, i.schema.stem? = some stem := ⟨_, by rw [stem?, hname]; rfl⟩
      exact ⟨stem, by rw [logicalName, hstem]; rfl⟩

/-- Into a directory that takes the file, the text is generated. -/
theorem invoke_generate {name : Option String} {given : Option Path} {atomic : Bool}
    (hi : i.action = .generate name given atomic) (hfinds : Finds w i c s)
    (hn : logicalName i.schema name = .ok n) (ht : (c.generator false).text s = .ok text)
    (hslash : '/' ∉ n.toList) (hleads : w.tree.Leads w.cwd (outputDirectory c given) d)
    (hlink : ∀ target, w.tree.get? (d ++ [protoFileName n]) ≠ some (.link target))
    (ha : w.Admits (c.generator atomic).mode (outputDirectory c given) d (protoFileName n)) :
    (invoke host i w).1 = ⟨.success,
        "OK: wrote " ++ ((outputDirectory c given).join ⟨protoFileName n⟩).text ++ "\n"⟩ ∧
      (invoke host i w).2.tree = w.tree.put d (protoFileName n) (.file (Utf8.encode text)) := by
  obtain ⟨w', hfiles, hrun⟩ := execute_of_finds hfinds
  obtain ⟨w₁, hfiles₁, hact⟩ := act_of_text (w := w') hi hn ht
  obtain ⟨htree, hcwd⟩ := hfiles.trans hfiles₁
  have hadmits : w₁.Admits (c.generator atomic).mode (outputDirectory c given) d (protoFileName n) :=
    ⟨ha.name, ha.path, htree ▸ ha.place, htree ▸ ha.noDevice, hcwd ▸ ha.temporary⟩
  obtain ⟨hok, hout⟩ := writeText_of_admits hslash (htree ▸ hcwd ▸ hleads) (htree ▸ hlink) hadmits
    text
  have hwrite : host.writeText (c.generator atomic).mode n (outputDirectory c given) text w₁
      = (.ok _, _) := Prod.ext hok rfl
  rw [hwrite] at hact
  rw [invoke_of_ok (hrun.trans hact)]
  exact ⟨rfl, hout.trans (by rw [htree])⟩

/-! ## A run -/

/-- A directory with a schema of one message. -/
def oneSchema : World where
  tree := (default : FileTree).put [] "s.json"
    (.file (Utf8.encode "\x7b\"messages\":[\x7b\"name\":\"A\"\x7d]\x7d"))

theorem noLinks_oneSchema : oneSchema.tree.NoLinks := noLinks_put noLinks_default nofun

theorem format?_oneSchema : Path.format? ⟨"s.json"⟩ = some .json := by cbv

theorem read_oneSchema : Schema.read .json "\x7b\"messages\":[\x7b\"name\":\"A\"\x7d]\x7d"
    = .ok { messages := [{ name := "A" }] } := by cbv

theorem finds_oneSchema (verbosity : Nat) (action : Action) :
    Finds oneSchema ⟨verbosity, none, ⟨"s.json"⟩, action⟩ {} { messages := [{ name := "A" }] } := by
  have hcwd : oneSchema.cwd.IsProper := List.forall_mem_nil _
  have hnone : oneSchema.tree.get? oneSchema.cwd.defaultConfig = none := by decide
  exact finds_of_name hcwd noLinks_oneSchema rfl (by simp [hnone]) rfl (by decide)
    (by decide) ⟨by decide, by decide⟩ format?_oneSchema rfl read_oneSchema

/-- Its file is generated beside it. -/
theorem generate_oneSchema (verbosity : Nat) :
    (invoke host ⟨verbosity, none, ⟨"s.json"⟩, .generate none none true⟩ oneSchema).1
        = ⟨.success, "OK: wrote ./s.proto\n"⟩ ∧
      (invoke host ⟨verbosity, none, ⟨"s.json"⟩, .generate none none true⟩ oneSchema).2.tree
        = oneSchema.tree.put [] "s.proto" (.file (Utf8.encode "message A \x7b\n\x7d\n\n")) := by
  have hhere : oneSchema.tree.Leads [] ⟨"."⟩ [] := by
    refine leads_of_follow (follow_eq_ok_iff.mpr ⟨by decide, by decide, ?_⟩) (by decide)
    show oneSchema.tree.walk linkLimit [] ["."] = _
    rw [walk, if_neg (by decide), if_pos (by decide), walk]
  have hadmits : oneSchema.Admits .atomic ⟨"."⟩ [] "s.proto" :=
    ⟨by decide, by decide, by decide, by simp, fun _ => by decide⟩
  have hname : logicalName ⟨"s.json"⟩ none = .ok "s" := by decide
  have htext : (({} : Config).generator false).text { messages := [{ name := "A" }] }
      = .ok "message A \x7b\n\x7d\n\n" := by decide
  let i : Invocation := ⟨verbosity, none, ⟨"s.json"⟩, .generate none none true⟩
  have hi : i.action = .generate none none true := rfl
  exact invoke_generate hi (finds_oneSchema verbosity i.action) hname htext
    (by decide) hhere (noLinks_oneSchema _) hadmits

/-! ## Two runs -/

/-- What two commands with the same inputs stop at alike, or the text that one prints and the other
writes. -/
theorem stop_or_text {i j : Invocation} {name : Option String} {given : Option Path} {atomic : Bool}
    (hconfig : i.config = j.config) (hschema : i.schema = j.schema)
    (hi : i.action = .generate name given atomic) (hj : j.action = .print) (w : World) :
    (∃ stop w₁ w₂, execute host i w = (.error stop, w₁) ∧ SameFiles w w₁ ∧
        execute host j w = (.error stop, w₂) ∧ SameFiles w w₂) ∨
      ∃ c n text w₁ w₂, execute host j w = (.ok text, w₂) ∧ SameFiles w w₂ ∧ SameFiles w w₁ ∧
        execute host i w =
          match host.writeText (c.generator atomic).mode n (outputDirectory c given) text w₁ with
          | (.ok path, w') => (.ok ("OK: wrote " ++ path.text ++ "\n"), w')
          | (.error e, w') => (.error (.failed (.write n (outputDirectory c given) e)), w') := by
  have hreads : readInputs host i = readInputs host j := by
    simp only [readInputs, hconfig, hschema]
  rcases (ends_readInputs w i).cases with
    ⟨⟨c, s⟩, w', hrun, hfinds, hfiles⟩ | ⟨stop, w', hrun, -, hfiles⟩
  · obtain ⟨n, hn⟩ := hfinds.exists_logicalName name
    have hexecute : execute host i w = act host i (c, s) w' := by rw [execute_eq, bind_of_ok hrun]
    have hexecute' : execute host j w = act host j (c, s) w' := by
      rw [execute_eq, ← hreads, bind_of_ok hrun]
    rw [hexecute, hexecute']
    cases htext : (c.generator false).text s with
    | error e =>
      exact .inl ⟨.overflow, w', w', act_of_overflow hi hn htext, hfiles,
        print_of_overflow hj htext, hfiles⟩
    | ok text =>
      obtain ⟨w₁, hfiles₁, hact⟩ := act_of_text (w := w') hi hn htext
      obtain ⟨w₂, hfiles₂, hprint⟩ := print_of_text (w := w') hj htext
      exact .inr ⟨c, n, text, w₁, w₂, hprint, hfiles.trans hfiles₂, hfiles.trans hfiles₁, hact⟩
  · refine .inl ⟨stop, w', w', ?_, hfiles, ?_, hfiles⟩
    · rw [execute_eq, bind_of_error hrun]
    · rw [execute_eq, ← hreads, bind_of_error hrun]

/-- **Generating agrees with printing.** Take a tree without links, the same configuration and schema
for both commands, and any settings of the file. If a file is generated, its text is printed, byte
for byte. If nothing can be printed, generating ends with the same code and changes nothing. And
printing never changes anything. -/
theorem generate_agrees_with_print (w : World) (hl : w.tree.NoLinks) (verbosity verbosity' : Nat)
    (config : Option Path) (schema : Path) (name : Option String) (dir : Option Path)
    (atomic : Bool) :
    let generated := invoke host ⟨verbosity, config, schema, .generate name dir atomic⟩ w
    let printed := invoke host ⟨verbosity', config, schema, .print⟩ w
    (generated.1.status.code = 0 → printed.1.status.code = 0 ∧
      ∃ target, generated.1.output = "OK: wrote " ++ target.text ++ "\n" ∧
        generated.2.tree.readBytes w.cwd target = .ok (Utf8.encode printed.1.output)) ∧
    (printed.1.status.code = 1 ∨ printed.1.status.code = 101 →
      generated.1.status.code = printed.1.status.code ∧ generated.2.tree = w.tree) ∧
    printed.2.tree = w.tree := by
  intro generated printed
  have hcases := stop_or_text (i := ⟨verbosity, config, schema, .generate name dir atomic⟩)
    (j := ⟨verbosity', config, schema, .print⟩) rfl rfl rfl rfl w
  rcases hcases with
    ⟨stop, w₁, w₂, hgenerate, hfiles₁, hprint, hfiles₂⟩ |
      ⟨c, n, text, w₁, w₂, hprint, hfiles₂, hfiles₁, hgenerate⟩
  · obtain ⟨houtcome, hsame⟩ := invoke_of_error hgenerate
    obtain ⟨houtcome', hsame'⟩ := invoke_of_error hprint
    have hstatus : generated.1.status.code = printed.1.status.code := by
      rw [show generated.1 = _ from houtcome, show printed.1 = _ from houtcome']
    refine ⟨fun hcode => ?_, fun _ => ⟨hstatus, hsame.trans hfiles₁.tree⟩,
      hsame'.trans hfiles₂.tree⟩
    rw [show generated.1 = _ from houtcome] at hcode
    cases stop <;> cases hcode
  · have hprinted : printed = (⟨.success, text⟩, w₂) := invoke_of_ok hprint
    rw [hprinted]
    refine ⟨fun hcode => ⟨rfl, ?_⟩, fun hcode => ?_, hfiles₂.tree⟩
    · cases hwrite : host.writeText (c.generator atomic).mode n (outputDirectory c dir) text w₁ with
      | mk outcome w' =>
        rw [hwrite] at hgenerate
        cases outcome with
        | error e =>
          rw [show generated.1 = _ from (invoke_of_error hgenerate).1] at hcode
          cases hcode
        | ok target =>
          have hgenerated : generated = (⟨.success, _⟩, w') := invoke_of_ok hgenerate
          rw [hgenerated]
          refine ⟨target, rfl, ?_⟩
          have hlinks : w₁.tree.NoLinks := hfiles₁.tree ▸ hl
          obtain ⟨rfl, -, d, w₃, hplaced⟩ := placed_of_writeText hlinks (congrArg Prod.fst hwrite)
          rw [hwrite] at hplaced
          rw [← hfiles₁.cwd]
          exact hplaced.readBytes hlinks
    · rcases hcode with hcode | hcode <;> cases hcode

/-- The message that is printed is in the file that is generated. -/
theorem generate_agrees_with_print_oneSchema :
    let generated := invoke host ⟨2, none, ⟨"s.json"⟩, .generate none none true⟩ oneSchema
    let printed := invoke host ⟨0, none, ⟨"s.json"⟩, .print⟩ oneSchema
    oneSchema.tree.NoLinks ∧ generated.1.status.code = 0 ∧ printed.1.status.code = 0 ∧
      ∃ target, generated.1.output = "OK: wrote " ++ target.text ++ "\n" ∧
        generated.2.tree.readBytes oneSchema.cwd target = .ok (Utf8.encode printed.1.output) := by
  intro generated printed
  have hcode : generated.1.status.code = 0 := by
    rw [show generated.1 = _ from (generate_oneSchema 2).1]
    rfl
  have hagree := generate_agrees_with_print oneSchema noLinks_oneSchema 2 0 none ⟨"s.json"⟩ none none
    true
  exact ⟨noLinks_oneSchema, hcode, hagree.1 hcode⟩

end ProtoScribe.Command
