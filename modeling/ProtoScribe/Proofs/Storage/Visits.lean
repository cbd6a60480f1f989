import ProtoScribe.Proofs.Storage.Growth

/-!
# Where walks pass

What a path leads to depends on no more than the entries that its walk looks at on the way, one for
each name (`visited`, and `passed` for a path). Whoever makes directories as they are missed looks
further than whoever only asks, since the walk then goes on behind a name that is missing.

Puts do not send walks to other places, except that a directory is walked into where nothing was
(`narrows_put`). And the paths above another take its first steps, so they pass no place that it
does not (`passed_subset_of_mem_parents`).
-/

namespace ProtoScribe

namespace FileTree

variable {t t' : FileTree} {making making' : Bool} {budget left : Nat} {here there : Location}
  {s : String} {steps rest : List String}

/-! ## The places that a walk looks at -/

/-- Whether a walk goes on from a place: from a directory, and from nothing where directories are
made as they are missed. -/
def IsEntered (t : FileTree) (making : Bool) (l : Location) : Prop :=
  t.get? l = some .directory ∨ making ∧ t.get? l = none

instance (t : FileTree) (making : Bool) (l : Location) : Decidable (t.IsEntered making l) :=
  inferInstanceAs (Decidable (_ ∨ _))

/-- The places that a walk looks at, one for each name on its way. -/
def visited (t : FileTree) (making : Bool) (budget : Nat) (here : Location) (steps : List String) :
    List Location :=
  match steps with
  | [] => []
  | s :: rest =>
    if ¬t.IsEntered making here then []
    else if s = "" ∨ s = "." then visited t making budget here rest
    else if s = ".." then visited t making budget here.dropLast rest
    else if nameLimit < s.utf8ByteSize then []
    else
      match t.get? (here ++ [s]) with
      | some (.link target) =>
        match budget with
        | 0 => [here ++ [s]]
        | budget + 1 => (here ++ [s]) ::
          visited t making budget (if target.isAbsolute then [] else here) (target.walkSteps ++ rest)
      | _ => (here ++ [s]) :: visited t making budget (here ++ [s]) rest
termination_by (budget, steps.length)

theorem visited_idle (hd : t.IsEntered making here) (hs : s = "" ∨ s = ".") :
    t.visited making budget here (s :: rest) = t.visited making budget here rest := by
  rw [visited, if_neg (not_not.mpr hd), if_pos hs]

theorem visited_up (hd : t.IsEntered making here) :
    t.visited making budget here (".." :: rest) = t.visited making budget here.dropLast rest := by
  rw [visited, if_neg (not_not.mpr hd), if_neg (by decide), if_pos rfl]

theorem visited_name (hd : t.IsEntered making here) (hs : FitsStep s)
    (hl : ∀ target, t.get? (here ++ [s]) ≠ some (.link target)) :
    t.visited making budget here (s :: rest)
      = (here ++ [s]) :: t.visited making budget (here ++ [s]) rest := by
  rw [visited, if_neg (not_not.mpr hd), if_neg (by simp [hs.nonempty, hs.ne_dot]), if_neg hs.ne_up,
    if_neg (Nat.not_lt.mpr hs.size)]
  split
  · next target he => exact absurd he (hl target)
  · rfl

theorem visited_link {target : Path} (hd : t.IsEntered making here) (hs : FitsStep s)
    (he : t.get? (here ++ [s]) = some (.link target)) :
    t.visited making (budget + 1) here (s :: rest) = (here ++ [s]) ::
      t.visited making budget (if target.isAbsolute then [] else here)
        (target.walkSteps ++ rest) := by
  rw [visited, if_neg (not_not.mpr hd), if_neg (by simp [hs.nonempty, hs.ne_dot]), if_neg hs.ne_up,
    if_neg (Nat.not_lt.mpr hs.size), he]

/-- A name is looked at wherever it is looked for. -/
theorem mem_visited (hd : t.IsEntered making here) (hs : FitsStep s) :
    here ++ [s] ∈ t.visited making budget here (s :: rest) := by
  rw [visited, if_neg (not_not.mpr hd), if_neg (by simp [hs.nonempty, hs.ne_dot]), if_neg hs.ne_up,
    if_neg (Nat.not_lt.mpr hs.size)]
  split
  · split <;> exact List.mem_cons_self
  · exact List.mem_cons_self

/-- A slash at the end is no name. -/
theorem visited_slash (t : FileTree) (making : Bool) (budget : Nat) (here : Location)
    (steps : List String) :
    t.visited making budget here (steps ++ [""]) = t.visited making budget here steps := by
  fun_induction visited t making budget here steps with
  | case1 budget here =>
    rw [List.nil_append, visited]
    split
    · rfl
    · rw [if_pos (.inl rfl), visited]
  | case2 budget here s steps hd => rw [List.cons_append, visited, if_pos hd]
  | case3 budget here s steps hd hs ih => rw [List.cons_append, visited_idle (not_not.mp hd) hs, ih]
  | case4 budget here steps hd _ ih => rw [List.cons_append, visited_up (not_not.mp hd), ih]
  | case5 budget here s steps hd hidle hup hsize =>
    rw [List.cons_append, visited, if_neg hd, if_neg hidle, if_neg hup, if_pos hsize]
  | case6 here s steps hd hidle hup hsize target he =>
    rw [List.cons_append, visited, if_neg hd, if_neg hidle, if_neg hup, if_neg hsize, he]
  | case7 here s steps hd hidle hup hsize target he budget ih =>
    have hs := fitsStep_of_not_idle hidle hup hsize
    rw [List.cons_append, visited_link (not_not.mp hd) hs he, ← List.append_assoc]
    exact congrArg _ ih
  | case8 budget here s steps hd hidle hup hsize hl ih =>
    have hs := fitsStep_of_not_idle hidle hup hsize
    rw [List.cons_append, visited_name (not_not.mp hd) hs hl, ih]

/-- A walk that goes further has been to all the places of the shorter one. -/
theorem visited_append_subset (t : FileTree) (making : Bool) (budget : Nat) (here : Location)
    (steps rest : List String) :
    t.visited making budget here steps ⊆ t.visited making budget here (steps ++ rest) := by
  fun_induction visited t making budget here steps with
  | case1 | case2 => exact List.nil_subset _
  | case3 budget here s steps hd hs ih =>
    rw [List.cons_append, visited_idle (not_not.mp hd) hs]
    exact ih
  | case4 budget here steps hd _ ih =>
    rw [List.cons_append, visited_up (not_not.mp hd)]
    exact ih
  | case5 => exact List.nil_subset _
  | case6 here s steps hd hidle hup hsize target he =>
    have hs := fitsStep_of_not_idle hidle hup hsize
    exact List.cons_subset.mpr ⟨mem_visited (not_not.mp hd) hs, List.nil_subset _⟩
  | case7 here s steps hd hidle hup hsize target he budget ih =>
    have hs := fitsStep_of_not_idle hidle hup hsize
    rw [List.cons_append, visited_link (not_not.mp hd) hs he, ← List.append_assoc]
    exact List.cons_subset_cons _ ih
  | case8 budget here s steps hd hidle hup hsize hl ih =>
    have hs := fitsStep_of_not_idle hidle hup hsize
    rw [List.cons_append, visited_name (not_not.mp hd) hs hl]
    exact List.cons_subset_cons _ ih

/-- What is looked at from the place that steps lead to is looked at on the way through it. -/
theorem Walks.visited_subset (h : t.Walks budget here steps left there) (making : Bool)
    (rest : List String) :
    t.visited making left there rest ⊆ t.visited making budget here (steps ++ rest) := by
  induction h with
  | done => exact List.Subset.refl _
  | idle hd hs _ ih =>
    rw [List.cons_append, visited_idle (.inl hd) hs]
    exact ih
  | up hd _ ih =>
    rw [List.cons_append, visited_up (.inl hd)]
    exact ih
  | enter hd hs he hl _ ih =>
    have hl' (target : Path) : t.get? _ ≠ some (.link target) :=
      fun h => hl target (Option.some.inj (he.symm.trans h))
    rw [List.cons_append, visited_name (.inl hd) hs hl']
    exact List.subset_cons_of_subset _ ih
  | link hd hs he _ ih =>
    rw [List.cons_append, visited_link (.inl hd) hs he, ← List.append_assoc]
    exact List.subset_cons_of_subset _ ih

/-! ## Trees in which walks get less far -/

/-- A tree with the links of another in which walks go on from no other places. -/
structure Narrows (making making' : Bool) (t t' : FileTree) : Prop where
  link : ∀ l target, t'.get? l = some (.link target) ↔ t.get? l = some (.link target)
  entered : ∀ l, t'.IsEntered making' l → t.IsEntered making l

theorem Narrows.refl (making : Bool) (t : FileTree) : Narrows making making t t :=
  ⟨fun _ _ => .rfl, fun _ => id⟩

theorem narrows_of_not_making (making : Bool) (t : FileTree) : Narrows making false t t where
  link _ _ := .rfl
  entered _ h := h.elim .inl fun h => nomatch h.1

/-- Something is put where nothing was, or a file where a file was. -/
theorem narrows_put {dir : Location} {name : String} {e : Entry}
    (he : ∀ target, e ≠ .link target)
    (hold : ∀ target, t.get? (dir ++ [name]) ≠ some (.link target))
    (hdir : e = .directory → t.get? (dir ++ [name]) = none) :
    Narrows true true t (t.put dir name e) := by
  by_cases hfree : t.IsFree dir name
  · refine ⟨fun l target => ?_, fun l h => ?_⟩
    · rw [get?_put hfree]
      split
      · next hl =>
        subst hl
        exact iff_of_false (fun h => he target (Option.some.inj h)) (hold target)
      · rfl
    · rw [IsEntered, get?_put hfree] at h
      split at h
      · next hl =>
        subst hl
        exact .inr ⟨rfl, hdir (by simpa using h)⟩
      · exact h
  · rw [get?_put_of_not_isFree hfree]
    exact .refl _ t

/-- Where walks get less far, they look at nothing else. -/
theorem Narrows.visited_subset (h : Narrows making making' t t') (budget : Nat) (here : Location)
    (steps : List String) :
    t'.visited making' budget here steps ⊆ t.visited making budget here steps := by
  -- The walk that gets less far is followed, since the other goes on wherever it does.
  fun_induction visited t' making' budget here steps with
  | case1 | case2 | case5 => exact List.nil_subset _
  | case3 budget here s steps hd hs ih =>
    rw [visited_idle (h.entered _ (not_not.mp hd)) hs]
    exact ih
  | case4 budget here steps hd _ ih =>
    rw [visited_up (h.entered _ (not_not.mp hd))]
    exact ih
  | case6 here s steps hd hidle hup hsize target he =>
    have hs := fitsStep_of_not_idle hidle hup hsize
    exact List.cons_subset.mpr ⟨mem_visited (h.entered _ (not_not.mp hd)) hs, List.nil_subset _⟩
  | case7 here s steps hd hidle hup hsize target he budget ih =>
    have hs := fitsStep_of_not_idle hidle hup hsize
    rw [visited_link (h.entered _ (not_not.mp hd)) hs ((h.link _ _).mp he)]
    exact List.cons_subset_cons _ ih
  | case8 budget here s steps hd hidle hup hsize hl ih =>
    have hs := fitsStep_of_not_idle hidle hup hsize
    have hl' (target : Path) : t.get? (here ++ [s]) ≠ some (.link target) :=
      fun he => hl target ((h.link _ _).mpr he)
    rw [visited_name (h.entered _ (not_not.mp hd)) hs hl']
    exact List.cons_subset_cons _ ih

section Commands

variable {cwd : Location} {p : Path} {f : OpenFile} {bytes : List UInt8}

theorem narrows_of_makeDirectory (h : t.makeDirectory cwd p = .ok t') : Narrows true true t t' := by
  rcases t.makeDirectory_cases cwd p with ⟨e, he⟩ | ⟨dir, name, -, hn, hok, -⟩
  · cases he.symm.trans h
  · cases hok.symm.trans h
    exact narrows_put nofun (by simp [hn]) fun _ => hn

theorem narrows_of_create (h : t.create cwd p = .ok (f, t')) : Narrows true true t t' := by
  rcases opened_of_create h with ⟨htakes, rfl⟩ | ⟨rfl, -⟩
  · refine narrows_put nofun (fun target hlink => ?_) nofun
    rcases htakes.place with hn | ⟨content, hfile⟩
    · cases hn.symm.trans hlink
    · cases hfile.symm.trans hlink
  · exact .refl _ _

theorem narrows_of_createTemporary (h : t.createTemporary cwd p = .ok (f, t')) :
    Narrows true true t t' := by
  rw [createTemporary_eq_bind] at h
  cases hf : (if p.text = "" then .ok cwd else t.follow cwd p : Except Errno Location) with
  | error e =>
    rw [hf] at h
    cases h
  | ok dir =>
    obtain ⟨n, hfresh, hn, -⟩ := t.exists_freshName dir
    rw [hf] at h
    simp only [Except.bind, hfresh] at h
    split at h
    · cases h
    split at h
    · cases h
    · cases h
      exact narrows_put nofun (by simp [hn]) nofun

theorem narrows_of_append (h : t.append f bytes = .ok t') : Narrows true true t t' := by
  unfold append at h
  split at h
  · next content hfile =>
    cases h
    refine narrows_put nofun (fun target hlink => ?_) nofun
    cases hfile.symm.trans hlink
  · split at h
    · cases h
    · cases h
      exact .refl _ _
  · cases h

end Commands

/-! ## Paths -/

section Paths

variable {cwd dir : Location} {p q : Path} {name : String}

/-- The places that are looked at on the way along a path. -/
def passed (t : FileTree) (making : Bool) (cwd : Location) (p : Path) : List Location :=
  t.visited making linkLimit (if p.isAbsolute then [] else cwd) p.steps

theorem passed_eq (t : FileTree) (making : Bool) (cwd : Location) (p : Path) :
    t.passed making cwd p
      = t.visited making linkLimit (if p.isAbsolute then [] else cwd) p.walkSteps := by
  rw [Path.walkSteps, passed]
  cases p.endsInSlash with
  | true => exact (visited_slash _ _ _ _ _).symm
  | false => rw [if_neg Bool.false_ne_true, List.append_nil]

theorem Narrows.passed_subset (h : Narrows making making' t t') (cwd : Location) (p : Path) :
    t'.passed making' cwd p ⊆ t.passed making cwd p :=
  h.visited_subset _ _ _

/-- The directory of a path's last step has been passed on the way, and the step is looked at. -/
theorem mem_passed_of_lastStep (h : t.lastStep cwd p = .ok (some (dir, name))) (making : Bool) :
    dir ++ [name] ∈ t.passed making cwd p := by
  obtain ⟨-, -, hname, hd, first, left, hs, hwalks⟩ := walks_of_lastStep h
  rw [passed, hs]
  exact hwalks.visited_subset making [name] (mem_visited (.inl hd) hname)

/-- The paths above another pass no other places. -/
theorem passed_subset_of_mem_parents (h : q ∈ p.parents) :
    t.passed making cwd q ⊆ t.passed making cwd p := by
  rcases Path.of_mem_parents h with hs | ⟨ha, rest, hs⟩
  · rw [passed, hs, visited]
    exact List.nil_subset _
  · rw [passed, passed, ha, ← hs]
    exact t.visited_append_subset _ _ _ _ _

end Paths

end FileTree

end ProtoScribe
