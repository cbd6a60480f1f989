import ProtoScribe.Proofs.Command.Discovery
import ProtoScribe.Proofs.Write.Ends

/-!
# Runs that fail

A run that does not end well takes nothing away, in any tree (`files_of_failed_run`). What it may
leave are directories on the way to the one that it was to write into. It does so only if that
directory was made and then the file refused, so a run that fails before leaves all as it was.
-/

namespace ProtoScribe.Command

open World FileTree

variable {w w' : World} {i : Invocation} {c : Config} {s : Schema}

/-! ## Failures -/

/-- A failure for want of a configuration, of a schema, or of a name that is a file's. -/
def Failure.IsEarly : Failure → Prop
  | .config _ | .schema _ _ | .noName _ => True
  | .write _ _ e => e.source = some .notFileName

/-- A command line that asks to generate into a directory. -/
def GeneratesInto (w : World) (words : List String) (dir : Path) : Prop :=
  ∃ i c name given atomic, Request.ofWords words = .run i ∧
    i.action = .generate name given atomic ∧
    (host.discoverConfig i.config w.cwd.path w).1 = .ok c ∧ dir = outputDirectory c given

/-- What a command that stops leaves: all as it was, or directories for a file that was refused. -/
def Leaves (w : World) (i : Invocation) (stop : Stop) (w' : World) : Prop :=
  w'.tree = w.tree ∨
    ∃ c name given atomic n e, i.action = .generate name given atomic ∧
      (host.discoverConfig i.config w.cwd.path w).1 = .ok c ∧
      stop = .failed (.write n (outputDirectory c given) e) ∧ e.source ≠ some .notFileName ∧
      Grown w.cwd (outputDirectory c given :: (outputDirectory c given).parents) w.tree w'.tree

/-- A write that is refused leaves all as it was if its name is blamed. -/
theorem leaves_of_refused {name : Option String} {given : Option Path} {atomic : Bool}
    {mode : WriteMode} {n text : String} {e : WriteError} (hi : i.action = .generate name given atomic)
    (hc : (host.discoverConfig i.config w.cwd.path w).1 = .ok c) (hfiles : SameFiles w w')
    (h : (host.writeText mode n (outputDirectory c given) text w').1 = .error e) :
    Leaves w i (.failed (.write n (outputDirectory c given) e))
      (host.writeText mode n (outputDirectory c given) text w').2 := by
  obtain ⟨hgrown, hslash⟩ := grown_of_writeText h
  rw [hfiles.tree, hfiles.cwd] at hgrown
  by_cases he : e.source = some .notFileName
  · exact .inl ((hslash (slash_of_notFileName h he)).trans hfiles.tree)
  · exact .inr ⟨c, name, given, atomic, n, e, hi, hc, rfl, he, hgrown⟩

/-- A command stops before anything is written, or because the file is refused. -/
theorem ends_execute (w : World) (i : Invocation) :
    Ends (execute host i) w (fun _ _ => True) (Leaves w i) := by
  cases hi : i.action with
  | print =>
    have hfiles := sameFiles_print hi w
    cases hrun : execute host i w with
    | mk outcome w' =>
      rw [hrun] at hfiles
      cases outcome with
      | ok text => exact .of_ok hrun trivial
      | error stop => exact .of_error hrun (.inl hfiles.tree)
  | generate name given atomic =>
    rcases execute_generate_cases hi w with
      ⟨stop, w', hrun, hfiles⟩ | ⟨c, s, n, text, w₁, hfinds, -, -, hfiles, hrun⟩
    · exact .of_error hrun (.inl hfiles.tree)
    · cases hwrite : host.writeText (c.generator atomic).mode n (outputDirectory c given) text w₁ with
      | mk outcome w₂ =>
        rw [hwrite] at hrun
        cases outcome with
        | ok path => exact .of_ok hrun trivial
        | error e =>
          have hleaves := leaves_of_refused hi hfinds.config hfiles (by rw [hwrite])
          rw [hwrite] at hleaves
          exact .of_error hrun hleaves

/-! ## Failed runs -/

/-- A run that fails has changed nothing, or it has come to a file that was refused. -/
theorem refused_of_failed_run {words : List String} (h : (run host words w).1.status.code ≠ 0) :
    (run host words w).2.tree = w.tree ∨
      (run host words w).1.status.code = 1 ∧
        ∃ i c name given atomic n e, Request.ofWords words = .run i ∧
          i.action = .generate name given atomic ∧
          (host.discoverConfig i.config w.cwd.path w).1 = .ok c ∧
          ((execute host i).run w).1 = .error (.failed (.write n (outputDirectory c given) e)) ∧
          e.source ≠ some .notFileName ∧
          Grown w.cwd (outputDirectory c given :: (outputDirectory c given).parents) w.tree
            (run host words w).2.tree := by
  rw [run] at h ⊢
  cases hrequest : Request.ofWords words with
  | help | version =>
    rw [hrequest] at h
    exact absurd rfl h
  | misuse => exact .inl rfl
  | run i =>
    rw [hrequest] at h
    simp only [respond] at h ⊢
    rcases (ends_execute w i).cases with ⟨output, w', hrun, -⟩ | ⟨stop, w', hrun, hleaves⟩
    · rw [invoke_of_ok hrun] at h
      exact absurd rfl h
    · obtain ⟨houtcome, htree⟩ := invoke_of_error hrun
      rw [houtcome, htree]
      rcases hleaves with hsame | ⟨c, name, given, atomic, n, e, hi, hc, rfl, he, hgrown⟩
      · exact .inl hsame
      · exact .inr ⟨rfl, i, c, name, given, atomic, n, e, rfl, hi, hc, congrArg Prod.fst hrun, he,
          hgrown⟩

/-- **A failed run leaves the files intact.** In any tree, links included, and whatever is asked for:
if a run ends with another code than 0, all entries are there as before. Whatever is new is a
directory, and the directory to generate into, or one above it in its path, leads there. Nothing is
new after a misuse, after an overflow, or for want of a configuration, a schema or a file's name. -/
theorem files_of_failed_run (w : World) (words : List String)
    (h : (run host words w).1.status.code ≠ 0) :
    let out := run host words w
    (∀ l e, w.tree.get? l = some e → out.2.tree.get? l = some e) ∧
    (∀ l e, w.tree.get? l = none → out.2.tree.get? l = some e →
      e = .directory ∧ ∃ dir, GeneratesInto w words dir ∧
        ∃ q ∈ dir :: dir.parents, out.2.tree.follow w.cwd q = .ok l) ∧
    (out.1.status.code = 2 ∨ out.1.status.code = 101 → out.2.tree = w.tree) ∧
    ∀ i f, Request.ofWords words = .run i → ((execute host i).run w).1 = .error (.failed f) →
      f.IsEarly → out.2.tree = w.tree := by
  intro out
  rcases refused_of_failed_run h with
    htree | ⟨hcode, i, c, name, given, atomic, n, e, hwords, hi, hc, hstop, he, hgrown⟩
  · refine ⟨fun l e hl => ?_, fun l e hnone hsome => ?_, fun _ => htree, fun _ _ _ _ _ => htree⟩
    · rw [htree, hl]
    · rw [htree, hnone] at hsome
      cases hsome
  · refine ⟨hgrown.older, fun l e hnone hsome => ?_, fun hcodes => ?_, fun j f hj hf hearly => ?_⟩
    · obtain ⟨hdir, q, hq, hfollow⟩ := hgrown.newer l e hnone hsome
      exact ⟨hdir, _, ⟨i, c, name, given, atomic, hwords, hi, hc, rfl⟩, q, hq, hfollow⟩
    · rcases hcodes with h2 | h101
      · cases hcode.symm.trans h2
      · cases hcode.symm.trans h101
    · cases hwords.symm.trans hj
      cases hstop.symm.trans hf
      exact absurd hearly he

/-- The schema's own file is given for the directory, and is there as before. -/
theorem files_of_failed_run_into_file :
    let w : World := { tree := (default : FileTree).put [] "s.json" (.file [0x7B, 0x7D]) }
    let words := ["generate", "--schema", "s.json", "--output-dir", "s.json"]
    (run host words w).1.status.code ≠ 0 ∧
      (run host words w).2.tree.get? ["s.json"] = some (.file [0x7B, 0x7D]) := by
  intro w words
  have hl : w.tree.NoLinks := noLinks_put noLinks_default (by simp)
  have hcode : (run host words w).1.status.code ≠ 0 := by
    let i : Invocation := ⟨0, none, ⟨"s.json"⟩, .generate none (some ⟨"s.json"⟩) false⟩
    have hwords : Request.ofWords words = .run i := by cbv
    have hcwd : w.cwd.IsProper := List.forall_mem_nil _
    have hnone : w.tree.get? w.cwd.defaultConfig = none := by decide
    have hformat : Path.format? ⟨"s.json"⟩ = some .json := by cbv
    have hread : Schema.read .json "\x7b\x7d" = .ok {} := by cbv
    have hfinds : Finds w i {} {} := finds_of_name hcwd hl rfl (by simp [hnone]) rfl (by decide)
      (by decide) ⟨by decide, by decide⟩ hformat rfl hread
    have hname : logicalName i.schema none = .ok "s" := by decide
    have htext : (({} : Config).generator false).text {} = .ok "" := by decide
    obtain ⟨w', hfiles, hrun⟩ := execute_of_finds hfinds
    obtain ⟨w₁, hfiles₁, hact⟩ := act_of_text (w := w') (i := i) rfl hname htext
    obtain ⟨htree, hcwd'⟩ := hfiles.trans hfiles₁
    have allows : w₁.AllowsWrite .truncate "s" ⟨"s.json"⟩ :=
      ⟨htree ▸ hl, by rw [htree, hcwd']; decide, ⟨by decide, by decide⟩, by decide, by decide, by simp,
        by rw [htree, hcwd']; decide⟩
    obtain ⟨cause, herror, -⟩ := writeBytes_of_blocked allows (by decide)
      (rfl : Utf8.encode "" = _)
      (by rw [htree, hcwd']; decide)
    have hwrite : host.writeText (({} : Config).generator false).mode "s"
        (outputDirectory {} (some ⟨"s.json"⟩)) "" w₁ = (.error _, _) := Prod.ext herror rfl
    rw [hwrite] at hact
    rw [run, hwords]
    simp only [respond]
    rw [(invoke_of_error (hrun.trans hact)).1]
    exact Nat.one_ne_zero
  exact ⟨hcode, (files_of_failed_run w words hcode).1 _ _ (by decide)⟩

end ProtoScribe.Command
