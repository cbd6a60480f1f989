import ProtoScribe.Proofs.Storage.Links

/-!
# Walks that names decide

Names lead to what stands at their end (`walk_of_entry`), and where there are no links they lead
nowhere else (`Walks.along_names`). The file name of a path is the last of its steps that moves a
walk, so whatever the path leads to has that name (`exists_of_follow`).
-/

namespace ProtoScribe

/-! ## The last name of a path -/

namespace Path

variable {p : Path} {file : String}

theorem component?_eq_none_iff {segment : String} :
    component? segment = none ↔ isIdle segment = true := by
  rw [component?]
  split
  · next h => simp [h]
  · next h => split <;> simp [h]

theorem of_component?_eq_name {segment : String} (h : component? segment = some (.name file)) :
    segment = file ∧ IsStepName file := by
  rw [component?] at h
  split at h
  · cases h
  next hidle =>
  split at h
  · cases h
  next hup =>
  cases h
  simp only [isIdle, Bool.or_eq_true, decide_eq_true_eq, not_or] at hidle
  exact ⟨rfl, hidle.1, hidle.2, hup⟩

/-- The root and the place where a path starts are no names. -/
theorem getLast?_of_fileName? (h : p.fileName? = some file) :
    (p.segments.filterMap component?).getLast? = some (.name file) := by
  rw [fileName?] at h
  split at h
  · next s hlast =>
    cases h
    rw [components] at hlast
    cases hs : p.segments with
    | nil => simp [hs] at hlast
    | cons first later =>
      rw [hs] at hlast
      dsimp only at hlast
      rw [show first :: later = [first] ++ later from rfl, List.filterMap_append]
      rw [List.getLast?_append] at hlast ⊢
      cases hlater : (later.filterMap component?).getLast? with
      | some c =>
        rw [hlater] at hlast
        exact hlast
      | none =>
        -- Nothing behind the first segment counts, so that is the name.
        rw [hlater] at hlast
        rw [Option.none_or] at hlast ⊢
        split at hlast
        · cases hlast
        split at hlast
        · cases hlast
        · cases hfirst : component? first with
          | none => simp [hfirst] at hlast
          | some c => simpa [hfirst] using hlast
  · cases h

/-- Behind the file name a path has only segments that change nothing. -/
theorem exists_segments_of_fileName? (h : p.fileName? = some file) :
    ∃ before after, p.segments = before ++ file :: after ∧ (∀ s ∈ after, isIdle s = true) ∧
      IsStepName file := by
  have hlast := getLast?_of_fileName? h
  rw [List.getLast?_filterMap, List.findSome?_eq_some_iff] at hlast
  obtain ⟨after, segment, before, hreverse, hsegment, hafter⟩ := hlast
  obtain ⟨rfl, hname⟩ := of_component?_eq_name hsegment
  refine ⟨before.reverse, after.reverse, ?_, fun s hs => ?_, hname⟩
  · rw [← List.reverse_reverse p.segments, hreverse]
    simp
  · exact component?_eq_none_iff.mp (hafter s (List.mem_reverse.mp hs))

/-- A walk along the path takes the file name as its last step that moves it. -/
theorem exists_walkSteps_of_fileName? (h : p.fileName? = some file) :
    ∃ before after, p.walkSteps = before ++ [file] ++ after ∧ (∀ s ∈ after, s = "" ∨ s = ".") ∧
      IsStepName file := by
  obtain ⟨before, after, hsegments, hidle, hname⟩ := exists_segments_of_fileName? h
  have hafter (s : String) (hs : s ∈ after) : s = "" ∨ s = "." := by
    simpa [isIdle] using hidle s hs
  refine ⟨before.filter (· ≠ ""), after.filter (· ≠ "") ++ if p.endsInSlash then [""] else [], ?_,
    fun s hs => ?_, hname⟩
  · rw [walkSteps, steps, hsegments, List.filter_append, List.filter_cons_of_pos (by
      simpa using hname.nonempty)]
    simp
  · rcases List.mem_append.mp hs with hs | hs
    · exact hafter s (List.mem_of_mem_filter hs)
    · split at hs
      · exact .inl (List.mem_singleton.mp hs)
      · cases hs

end Path

namespace FileTree

variable {t : FileTree} {cwd here there : Location} {p : Path} {file : String} {budget left : Nat}
  {steps : List String} {e : Entry}

/-! ## Names -/

/-- Names lead to what stands at their end. -/
theorem walk_of_entry (hs : ∀ s ∈ steps, FitsStep s) (he : t.get? (here ++ steps) = some e)
    (hlink : ∀ target, e ≠ .link target) :
    t.walk budget here steps = .ok (.place (here ++ steps)) := by
  rcases List.eq_nil_or_concat' steps with rfl | ⟨first, s, rfl⟩
  · rw [walk, List.append_nil]
  rw [← List.append_assoc] at he ⊢
  have hd := directory_of_append (List.cons_ne_nil s []) he
  obtain ⟨hfirst, hlast⟩ := List.forall_mem_append.mp hs
  rw [walk_of_directory hfirst hd, walk_cons_of_some (hlast s List.mem_cons_self) hd he hlink, walk]

/-- The file of a name in the working directory is read by its name. -/
theorem readBytes_of_name {name : String} {bytes : List UInt8} (hslash : '/' ∉ name.toList)
    (hnul : '\x00' ∉ name.toList) (hs : FitsStep name)
    (he : t.get? (cwd ++ [name]) = some (.file bytes)) :
    t.readBytes cwd ⟨name⟩ = .ok bytes := by
  have hsteps : Path.walkSteps ⟨name⟩ = [name] := by
    simpa [show Path.steps ⟨""⟩ = [] by decide, Path.join, Path.isAbsolute_of_not_mem hslash]
      using Path.walkSteps_join (p := ⟨""⟩) hslash hs.nonempty
  have hfollow : t.follow cwd ⟨name⟩ = .ok (cwd ++ [name]) := by
    have hsize : name.utf8ByteSize < pathLimit := Nat.lt_of_le_of_lt hs.size (by decide)
    refine follow_eq_ok_iff.mpr ⟨hs.nonempty, ⟨hnul, hsize⟩, ?_⟩
    rw [hsteps, Path.isAbsolute_of_not_mem hslash]
    exact walk_of_entry (List.forall_mem_singleton.mpr hs) he (by simp)
  rw [readBytes, hfollow]
  simp only [bind, Except.bind, he]
  rfl

/-- Where there are no links, a walk along names gets to where they lead and nowhere else. -/
theorem Walks.along_names (h : t.Walks budget here steps left there) (hl : t.NoLinks)
    (hs : ∀ s ∈ steps, Path.IsStepName s) :
    there = here ++ steps ∧ ∀ s ∈ steps, FitsStep s := by
  induction h with
  | done => simp
  | idle hd hidle _ ih =>
    have hname := hs _ List.mem_cons_self
    exact absurd hidle (by simp [hname.nonempty, hname.ne_dot])
  | up hd _ ih => exact absurd rfl (hs _ List.mem_cons_self).ne_up
  | @enter budget left here there s rest e hd hfits he hlink hwalks ih =>
    obtain ⟨rfl, hrest⟩ := ih fun s' hs' => hs s' (List.mem_cons_of_mem s hs')
    exact ⟨by simp, List.forall_mem_cons.mpr ⟨hfits, hrest⟩⟩
  | link hd hfits he _ ih => exact absurd he (hl _ _)

/-! ## File names -/

/-- Steps that change nothing lead to where they start. -/
theorem Walks.idle_steps (h : t.Walks budget here steps left there)
    (hs : ∀ s ∈ steps, s = "" ∨ s = ".") : there = here := by
  induction h with
  | done => rfl
  | idle _ _ _ ih => exact ih fun s hs' => hs s (List.mem_cons_of_mem _ hs')
  | up _ _ _ => exact absurd (hs _ List.mem_cons_self) (by decide)
  | enter _ hfits _ _ _ _ | link _ hfits _ _ _ =>
    exact absurd (hs _ List.mem_cons_self) (by simp [hfits.nonempty, hfits.ne_dot])

/-- Where there are no links, a path leads to something of its file name. -/
theorem exists_of_follow (hl : t.NoLinks) (hfile : p.fileName? = some file)
    (h : t.follow cwd p = .ok there) : ∃ dir, there = dir ++ [file] := by
  obtain ⟨before, after, hsteps, hafter, hname⟩ := Path.exists_walkSteps_of_fileName? hfile
  obtain ⟨left, hwalks⟩ := walks_of_walk (follow_eq_ok_iff.mp h).2.2
  rw [hsteps] at hwalks
  obtain ⟨m, between, hfirst, hrest⟩ := hwalks.split
  obtain rfl := hrest.idle_steps hafter
  obtain ⟨m', dir, -, hlast⟩ := hfirst.split
  obtain ⟨rfl, -⟩ := hlast.along_names hl (by simpa using hname)
  exact ⟨dir, rfl⟩

end FileTree

end ProtoScribe
