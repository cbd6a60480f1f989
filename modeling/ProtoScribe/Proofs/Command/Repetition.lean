import ProtoScribe.Proofs.Command.Agreement

/-!
# Generating again

A file that has been generated is generated again by the same command, and then nothing changes
(`generate_again`). The second run reads the tree that the first one left. It finds the same inputs
there: directories have been made, which are no files, and one file has been put, whose name is that
of no schema and not that of the default configuration.
-/

namespace ProtoScribe

open FileTree World Command ProtoScribe.Path

/-! ## Names of schemas -/

/-- The file name of a logical name has the suffix for its extension, if it has one at all. -/
theorem splitAtDot?_protoFileName (name : String) :
    splitAtDot? (protoFileName name) = none ∨
      ∃ stem, splitAtDot? (protoFileName name) = some (stem, "proto") := by
  obtain ⟨front, hfront⟩ := exists_protoFileName name
  have hreverse : (protoFileName name).toList.reverse
      = ['o', 't', 'o', 'r', 'p'] ++ '.' :: front.toList.reverse := by
    rw [hfront, String.toList_append, List.reverse_append]
    rfl
  rw [splitAtDot?, hreverse]
  cases hfront' : front.toList.reverse with
  | nil => exact .inl (by simp)
  | cons c cs => exact .inr ⟨_, by simp; rfl⟩

/-- No schema has it. -/
theorem fileName?_ne_protoFileName {p : Path} {format : Format} (h : p.format? = some format)
    (name : String) : p.fileName? ≠ some (protoFileName name) := by
  intro hfile
  rw [format?, extension?, hfile] at h
  rcases splitAtDot?_protoFileName name with hnone | ⟨stem, hsome⟩
  · simp [hnone] at h
  · simp only [Option.bind_some, hsome, Option.map_some] at h
    have hproto : Format.ofExtension? "proto" = none := by cbv
    cases hproto.symm.trans h

namespace World

variable {w w₁ : World} {mode : WriteMode} {name text : String} {dir p : Path} {d : Location}
  {tree : FileTree} {bytes : List UInt8}

/-! ## What is read again -/

theorem exists_entry_of_readBytes {t : FileTree} {cwd : Location} (h : t.readBytes cwd p = .ok bytes) :
    ∃ l e, t.follow cwd p = .ok l ∧ t.get? l = some e := by
  rw [readBytes] at h
  cases hfollow : t.follow cwd p with
  | error e =>
    rw [hfollow] at h
    cases h
  | ok l =>
    rw [hfollow] at h
    cases he : t.get? l with
    | none => simp [bind, Except.bind, he] at h
    | some e => exact ⟨l, e, rfl, he⟩

/-- Where the path does not lead to the new file, the same bytes are read. -/
theorem Placed.readBytes_of_ok (h : Placed w mode name dir text d w₁ tree) (hl : w.tree.NoLinks)
    (hread : w.tree.readBytes w.cwd p = .ok bytes)
    (hne : ∀ l, w.tree.follow w.cwd p = .ok l → l ≠ d ++ [protoFileName name]) :
    tree.readBytes w.cwd p = .ok bytes := by
  obtain ⟨l, e, hfollow, he⟩ := exists_entry_of_readBytes hread
  rw [FileTree.readBytes, hfollow] at hread
  rw [FileTree.readBytes, (h.keeps hl).follow hfollow]
  simp only [bind, Except.bind, he, h.get?_of_some he (hne l hfollow)] at hread ⊢
  exact hread

end World

namespace Command

variable {w w' w₁ : World} {i : Invocation} {c : Config} {s : Schema} {mode : WriteMode}
  {n text : String} {dir : Path} {d : Location}

/-- A schema that is found has been read from a file with a format. -/
theorem Finds.read_schema (h : Finds w i c s) :
    ∃ format bytes, i.schema.format? = some format ∧
      w.tree.readBytes w.cwd i.schema = .ok bytes := by
  have hschema := h.schema
  rw [hostLoadSchema_apply] at hschema
  cases hformat : i.schema.format? with
  | none => simp [hformat] at hschema
  | some format =>
    cases hread : w.tree.readBytes w.cwd i.schema with
    | error e => simp [hformat, hread, textOf] at hschema
    | ok bytes => exact ⟨format, bytes, rfl, rfl⟩

/-- So has a configuration that is given. -/
theorem Finds.read_config {p : Path} (h : Finds w i c s) (hp : i.config = some p) :
    ∃ bytes, w.tree.readBytes w.cwd p = .ok bytes := by
  have hconfig := h.config
  rw [hp, show host.discoverConfig (some p) w.cwd.path w = host.readConfig p w from rfl,
    readConfig_apply] at hconfig
  cases hread : w.tree.readBytes w.cwd p with
  | error e => simp [hread, textOf] at hconfig
  | ok bytes => exact ⟨bytes, rfl⟩

/-- A command that has generated a file finds again what it found before, unless the file has the
place of the configuration that is given. -/
theorem Finds.again (h : Finds w i c s) (hl : w.tree.NoLinks) (hcwd : w.cwd.IsProper)
    (hplaced : Placed w mode n dir text d w₁ w'.tree) (hcwd' : w'.cwd = w.cwd)
    (hconfig : ∀ p, i.config = some p → ∀ l, w.tree.follow w.cwd p = .ok l →
      l ≠ d ++ [protoFileName n]) : Finds w' i c s where
  config := by
    cases hgiven : i.config with
    | some p =>
      obtain ⟨bytes, hread⟩ := h.read_config hgiven
      have hread' := hplaced.readBytes_of_ok hl hread (hconfig p hgiven)
      have hfound := h.config
      rw [hgiven, show host.discoverConfig (some p) w.cwd.path w = host.readConfig p w from rfl,
        readConfig_apply, hread] at hfound
      rw [show host.discoverConfig (some p) w'.cwd.path w' = host.readConfig p w' from rfl,
        readConfig_apply, hcwd', hread']
      exact hfound
    | none =>
      have hne : w.cwd.defaultConfig ≠ d ++ [protoFileName n] := by
        intro he
        have hlast := (List.append_inj' he rfl).2
        rw [List.cons.injEq] at hlast
        have hchar := getLast?_protoFileName n
        rw [← hlast.1] at hchar
        exact absurd hchar (by decide)
      have hfound := h.config
      rw [hgiven] at hfound
      refine (discoverConfig_none_congr hcwd hl hcwd' (hplaced.noLinks hl) fun content => ?_).trans
        hfound
      constructor
      · intro he
        rcases hplaced.get?_cases he with hplace | hold | hdirectory
        · exact absurd hplace hne
        · exact hold
        · cases hdirectory
      · exact fun he => hplaced.get?_of_some he hne
  schema := by
    obtain ⟨format, bytes, hformat, hread⟩ := h.read_schema
    have hread' := hplaced.readBytes_of_ok hl hread fun l hfollow hplace => by
      cases hfile : i.schema.fileName? with
      | none => simp [format?, extension?, hfile] at hformat
      | some file =>
        obtain ⟨x, rfl⟩ := exists_of_follow hl hfile hfollow
        have hlast := (List.append_inj' hplace rfl).2
        rw [List.cons.injEq] at hlast
        exact fileName?_ne_protoFileName hformat n (hlast.1 ▸ hfile)
    exact (loadSchema_congr (by rw [hcwd', hread', hread])).trans h.schema

/-! ## What is generated again -/

theorem placed_of_sameFiles {w₂ : World} {tree : FileTree} (hfiles : SameFiles w w₂)
    (h : Placed w₂ mode n dir text d w₁ tree) : Placed w mode n dir text d w₁ tree where
  slash := h.slash
  grows := ⟨h.grows.cwd.trans hfiles.cwd, hfiles.tree ▸ hfiles.cwd ▸ h.grows.tree⟩
  leads := hfiles.cwd ▸ h.leads
  admits := h.admits
  tree := h.tree

/-- What a run that has generated a file has found and done. -/
structure Generated (w : World) (i : Invocation) (name : Option String) (given : Option Path)
    (atomic : Bool) (c : Config) (s : Schema) (n text : String) (d : Location) (w₁ : World) :
    Prop where
  finds : Finds w i c s
  name : logicalName i.schema name = .ok n
  rendered : (c.generator false).text s = .ok text
  outcome : (invoke host i w).1 = ⟨.success,
    "OK: wrote " ++ ((outputDirectory c given).join ⟨protoFileName n⟩).text ++ "\n"⟩
  cwd : (invoke host i w).2.cwd = w.cwd
  placed : Placed w (c.generator atomic).mode n (outputDirectory c given) text d w₁
    (invoke host i w).2.tree

theorem generated_of_invoke {name : Option String} {given : Option Path} {atomic : Bool}
    (hi : i.action = .generate name given atomic) (hl : w.tree.NoLinks)
    (hok : (invoke host i w).1.status.code = 0) :
    ∃ c s n text d w₁, Generated w i name given atomic c s n text d w₁ := by
  have hgoes (stop : Stop) (w' : World) : execute host i w ≠ (.error stop, w') := by
    intro hstop
    rw [(invoke_of_error hstop).1] at hok
    cases stop <;> cases hok
  rcases execute_generate_cases hi w with
    ⟨stop, w', hstop, -⟩ | ⟨c, s, n, text, w₂, hfinds, hn, htext, hfiles, hrun⟩
  · exact absurd hstop (hgoes stop w')
  · cases hwrite : host.writeText (c.generator atomic).mode n (outputDirectory c given) text w₂ with
    | mk outcome w₃ =>
      rw [hwrite] at hrun
      cases outcome with
      | error e => exact absurd hrun (hgoes _ _)
      | ok target =>
        obtain ⟨rfl, hcwd, d, w₁, hplaced⟩ := placed_of_writeText (hfiles.tree ▸ hl)
          (congrArg Prod.fst hwrite)
        rw [hwrite] at hcwd hplaced
        have hinvoke := invoke_of_ok hrun
        refine ⟨c, s, n, text, d, w₁, hfinds, hn, htext, by rw [hinvoke], ?_, ?_⟩
        · rw [hinvoke, ← hfiles.cwd]
          exact hcwd
        · rw [hinvoke]
          exact placed_of_sameFiles hfiles hplaced

/-- **Generating is idempotent.** Take a tree without links and a command that generates a file in
it. If the configuration that is given, if one is, has not been replaced by the file, then the same
command ends the same way once more, says the same, and leaves the tree exactly as it is. -/
theorem generate_again (w : World) (hl : w.tree.NoLinks) (hcwd : w.cwd.IsProper) (i : Invocation)
    (name : Option String) (dir : Option Path) (atomic : Bool)
    (hi : i.action = .generate name dir atomic) :
    let first := invoke host i w
    let second := invoke host i first.2
    first.1.status.code = 0 →
      (∀ p target, i.config = some p → first.1.output = "OK: wrote " ++ target.text ++ "\n" →
        first.2.tree.follow w.cwd p ≠ first.2.tree.follow w.cwd target) →
      second.1.status.code = 0 ∧ second.1.output = first.1.output ∧
        second.2.tree = first.2.tree := by
  intro first second hok hconfig
  obtain ⟨c, s, n, text, d, w₁, hgenerated⟩ := generated_of_invoke hi hl hok
  have hplaced := hgenerated.placed
  have houtcome : first.1 = _ := hgenerated.outcome
  have hfinds : Finds first.2 i c s := by
    refine hgenerated.finds.again hl hcwd hplaced hgenerated.cwd fun p hp l hfollow hplace => ?_
    refine hconfig p ((outputDirectory c dir).join ⟨protoFileName n⟩) hp (by rw [houtcome]) ?_
    exact ((hplaced.keeps hl).follow (hplace ▸ hfollow)).trans (hplaced.follow hl).symm
  obtain ⟨w', hfiles, hrun⟩ := execute_of_finds hfinds
  obtain ⟨w₂, hfiles₂, hact⟩ := act_of_text (w := w') hi hgenerated.name hgenerated.rendered
  have hsame := hfiles.trans hfiles₂
  obtain ⟨hwritten, htree⟩ := hplaced.again hl (hsame.cwd.trans hgenerated.cwd) hsame.tree
  have hwrite : host.writeText (c.generator atomic).mode n (outputDirectory c dir) text w₂
      = (.ok _, _) := Prod.ext hwritten rfl
  rw [hwrite] at hact
  have hsecond : second = (⟨.success, _⟩, _) := invoke_of_ok (hrun.trans hact)
  rw [hsecond, houtcome]
  exact ⟨rfl, rfl, htree⟩

/-- Once its file is generated, the schema of one message changes nothing more. -/
theorem generate_again_oneSchema :
    let i : Invocation := ⟨0, none, ⟨"s.json"⟩, .generate none none true⟩
    let first := invoke host i oneSchema
    oneSchema.tree.NoLinks ∧ oneSchema.cwd.IsProper ∧ first.1.status.code = 0 ∧
      (invoke host i first.2).1.output = "OK: wrote ./s.proto\n" ∧
      (invoke host i first.2).2.tree = first.2.tree := by
  intro i first
  have houtcome : first.1 = _ := (generate_oneSchema 0).1
  have hproper : oneSchema.cwd.IsProper := nofun
  have hcode : first.1.status.code = 0 := by
    rw [houtcome]
    rfl
  obtain ⟨-, houtput, htree⟩ := generate_again oneSchema noLinks_oneSchema hproper i none none true
    rfl hcode nofun
  exact ⟨noLinks_oneSchema, hproper, hcode, houtput.trans (by rw [houtcome]), htree⟩

end Command

end ProtoScribe
