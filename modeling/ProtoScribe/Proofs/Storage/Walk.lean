import ProtoScribe.Proofs.Path.Plain
import ProtoScribe.Proofs.Storage.Entries
import ProtoScribe.Storage.Walk

/-!
# Walks along names

In a tree without links, a walk along names ends at the place that they name, and fails where the
first of them is missing or where something stands in the way that is no directory.

* `reach_eq_ok_iff` — a path is walked if it is not empty and the system takes it
* `walk_of_directory` — directories are walked through
* `walk_of_none` — a name that is missing is found missing
* `walk_of_blocked` — nothing is reached beyond a file
* `entryAt?_eq_directory_iff` — what counts as a directory to whoever asks by a path
-/

namespace ProtoScribe

/-! ## Paths that the system takes -/

/-- A path that system calls take: they would not end it at a NUL, and it is short enough. -/
structure Path.IsUsable (p : Path) : Prop where
  noNul : '\x00' ∉ p.text.toList
  size : p.text.utf8ByteSize < pathLimit

instance (p : Path) : Decidable p.IsUsable :=
  decidable_of_iff ('\x00' ∉ p.text.toList ∧ p.text.utf8ByteSize < pathLimit)
    ⟨fun ⟨h₁, h₂⟩ => ⟨h₁, h₂⟩, fun ⟨h₁, h₂⟩ => ⟨h₁, h₂⟩⟩

namespace Path

variable {p q : Path}

theorem refusal?_eq_none_iff : p.refusal? = none ↔ p.IsUsable := by
  unfold refusal?
  refine ⟨fun h => ?_, fun h => by rw [if_neg h.noNul, if_neg (Nat.not_le.mpr h.size)]⟩
  split at h
  · cases h
  next hnul =>
  split at h
  · cases h
  · next hsize => exact ⟨hnul, Nat.not_le.mp hsize⟩

theorem refusal?_of_nul (h : '\x00' ∈ p.text.toList) : p.refusal? = some .invalidArgument :=
  if_pos h

/-- The empty path is not refused, though it leads nowhere. -/
theorem text_ne_empty_of_refusal? {e : Errno} (h : p.refusal? = some e) : p.text ≠ "" := by
  intro he
  obtain rfl : p = ⟨""⟩ := by rw [← he]
  rw [refusal?_eq_none_iff.mpr (by decide)] at h
  cases h

/-- What is missing is not why a path is refused. -/
theorem ne_notFound_of_refusal? {e : Errno} (h : p.refusal? = some e) : e ≠ .notFound := by
  unfold refusal? at h
  rintro rfl
  split at h
  · cases h
  · split at h <;> cases h

/-- What a usable path begins with is usable. -/
theorem IsUsable.of_isPrefix (h : p.IsUsable) (hq : q.text.toList <+: p.text.toList) :
    q.IsUsable where
  noNul hnul := h.noNul (hq.subset hnul)
  size := by
    obtain ⟨rest, hrest⟩ := hq
    have htext : p.text = q.text ++ String.ofList rest := by
      rw [← String.toList_inj, String.toList_append, String.toList_ofList, hrest]
    have hsize := h.size
    rw [htext, String.utf8ByteSize_append] at hsize
    omega

/-- Why a path that has a name at its end leads to no such name, if it does not. The path is looked at
before the name. -/
def refusalAt? (p : Path) (name : String) : Option Errno :=
  p.refusal?.or (if nameLimit < name.utf8ByteSize then some .nameTooLong else none)

theorem refusalAt?_eq_none_iff {name : String} :
    p.refusalAt? name = none ↔ p.IsUsable ∧ name.utf8ByteSize ≤ nameLimit := by
  rw [refusalAt?, Option.or_eq_none_iff, refusal?_eq_none_iff]
  simp

end Path

namespace FileTree

variable {t : FileTree} {here : Location} {budget : Nat} {s : String} {rest : List String}

/-- A path that is refused is not walked at all. -/
theorem reach_of_refusal? {cwd : Location} {p : Path} {e : Errno} (h : p.refusal? = some e)
    (steps : List String) : t.reach cwd p steps = .error e := by
  rw [reach, if_neg (Path.text_ne_empty_of_refusal? h), h]

/-- One that is not starts at the root or in the working directory. -/
theorem reach_of_isUsable {cwd : Location} {p : Path} (hne : p.text ≠ "") (h : p.IsUsable)
    (steps : List String) :
    t.reach cwd p steps = t.walk linkLimit (if p.isAbsolute then [] else cwd) steps := by
  rw [reach, if_neg hne, Path.refusal?_eq_none_iff.mpr h]

theorem reach_eq_ok_iff {cwd : Location} {p : Path} {steps : List String} {reached : Reached} :
    t.reach cwd p steps = .ok reached ↔ p.text ≠ "" ∧ p.IsUsable ∧
      t.walk linkLimit (if p.isAbsolute then [] else cwd) steps = .ok reached := by
  refine ⟨fun h => ?_, fun ⟨hne, hu, hw⟩ => (reach_of_isUsable hne hu steps).trans hw⟩
  have hne : p.text ≠ "" := by
    intro he
    rw [reach, if_pos he] at h
    cases h
  have hu : p.IsUsable := by
    rw [← Path.refusal?_eq_none_iff, Option.eq_none_iff_forall_ne_some]
    intro e he
    rw [reach_of_refusal? he] at h
    cases h
  exact ⟨hne, hu, (reach_of_isUsable hne hu steps).symm.trans h⟩

/-! ## What is in the way -/

/-- Something that is no directory stands on the way along names. -/
def Blocked (t : FileTree) (here : Location) (steps : List String) : Prop :=
  ∃ q e, q <+: steps ∧ t.get? (here ++ q) = some e ∧ e ≠ .directory

instance (t : FileTree) (here : Location) (steps : List String) :
    Decidable (t.Blocked here steps) :=
  decidable_of_iff (∃ q ∈ steps.inits, ∃ e ∈ t.get? (here ++ q), e ≠ .directory) <| by
    simp [Blocked]

theorem not_blocked_of_directory (h : t.get? (here ++ rest) = some .directory) :
    ¬t.Blocked here rest := by
  rintro ⟨q, e, ⟨m, rfl⟩, he, hne⟩
  rw [← List.append_assoc] at h
  have hd := directory_of_directory h
  rw [he, Option.some.injEq] at hd
  exact hne hd

/-- Names that nothing blocks lead to a directory or to nothing. -/
theorem get?_eq_none_of_not_blocked (hb : ¬t.Blocked here rest)
    (hd : t.get? (here ++ rest) ≠ some .directory) : t.get? (here ++ rest) = none := by
  by_contra hsome
  obtain ⟨e, he⟩ := Option.ne_none_iff_exists'.mp hsome
  exact hb ⟨rest, e, List.prefix_refl rest, he, fun hdir => hd (hdir ▸ he)⟩

/-- What is blocked is blocked at the first name or behind it. -/
theorem blocked_cons (hd : t.get? here = some .directory) :
    t.Blocked here (s :: rest) ↔ t.Blocked (here ++ [s]) rest := by
  refine ⟨fun ⟨q, e, hq, he, hne⟩ => ?_, fun ⟨q, e, hq, he, hne⟩ => ?_⟩
  · cases q with
    | nil =>
      rw [List.append_nil, hd, Option.some.injEq] at he
      exact absurd he.symm hne
    | cons x q =>
      obtain ⟨rfl, hq'⟩ := List.cons_prefix_cons.mp hq
      exact ⟨q, e, hq', by simpa using he, hne⟩
  · exact ⟨s :: q, e, List.cons_prefix_cons.mpr ⟨rfl, hq⟩, by simpa using he, hne⟩

/-! ## Steps -/

/-- A name that a walk takes as it is, and that is not too long for it. -/
structure FitsStep (s : String) : Prop extends Path.IsStepName s where
  size : s.utf8ByteSize ≤ nameLimit

theorem walk_cons_of_not_directory (h : t.get? here ≠ some .directory) :
    t.walk budget here (s :: rest) = .error .notDirectory := by
  rw [walk, if_pos h]

/-- A name that is there and no link is entered. -/
theorem walk_cons_of_some {e : Entry} (hs : FitsStep s) (hd : t.get? here = some .directory)
    (he : t.get? (here ++ [s]) = some e) (hl : ∀ target, e ≠ .link target) :
    t.walk budget here (s :: rest) = t.walk budget (here ++ [s]) rest := by
  rw [walk, if_neg (by simp [hd]), if_neg (by simp [hs.nonempty, hs.ne_dot]), if_neg hs.ne_up,
    if_neg (Nat.not_lt.mpr hs.size), he]
  cases e with
  | link target => exact absurd rfl (hl target)
  | directory | file | device => rfl

/-- A name that is missing ends the walk. -/
theorem walk_cons_of_none (hs : FitsStep s) (hd : t.get? here = some .directory)
    (he : t.get? (here ++ [s]) = none) :
    t.walk budget here (s :: rest) =
      if rest = [] then .ok (.missing here s false)
      else if rest = [""] then .ok (.missing here s true)
      else .error .notFound := by
  rw [walk, if_neg (by simp [hd]), if_neg (by simp [hs.nonempty, hs.ne_dot]), if_neg hs.ne_up,
    if_neg (Nat.not_lt.mpr hs.size), he]

/-- A name that is too long ends it as well. -/
theorem walk_cons_of_long (hs : Path.IsStepName s) (hd : t.get? here = some .directory)
    (hsize : nameLimit < s.utf8ByteSize) :
    t.walk budget here (s :: rest) = .error .nameTooLong := by
  rw [walk, if_neg (by simp [hd]), if_neg (by simp [hs.nonempty, hs.ne_dot]), if_neg hs.ne_up,
    if_pos hsize]

/-- A slash at the end asks for a directory. -/
theorem walk_slash : t.walk budget here [""] =
    if t.get? here = some .directory then .ok (.place here) else .error .notDirectory := by
  rw [walk]
  by_cases h : t.get? here = some .directory <;> simp [h, walk]

/-! ## Names -/

/-- A walk goes through directories. -/
theorem walk_of_directory : ∀ {steps : List String} {here : Location}, (∀ s ∈ steps, FitsStep s) →
    t.get? (here ++ steps) = some .directory →
    t.walk budget here (steps ++ rest) = t.walk budget (here ++ steps) rest
  | [], here, _, _ => by simp
  | s :: steps, here, hs, h => by
    obtain ⟨hs₁, hs₂⟩ := List.forall_mem_cons.mp hs
    have hd : t.get? here = some .directory :=
      directory_of_append (List.cons_ne_nil s steps) h
    have h' : t.get? (here ++ [s] ++ steps) = some .directory := by simpa using h
    rw [List.cons_append, walk_cons_of_some hs₁ hd (directory_of_directory h') nofun,
      walk_of_directory hs₂ h', List.append_assoc, List.singleton_append]

/-- A name that is missing on the way is found missing, or what is behind it not found. -/
theorem walk_of_none (budget : Nat) (rest : List String) :
    ∀ {steps : List String} {here : Location},
    (∀ s ∈ steps, FitsStep s) → t.get? here = some .directory → ¬t.Blocked here steps →
    t.get? (here ++ steps) = none →
    t.walk budget here (steps ++ rest) = .error .notFound ∨
      ∃ dir name slash, t.walk budget here (steps ++ rest) = .ok (.missing dir name slash)
  | [], here, _, hd, _, h => by simp [hd] at h
  | s :: steps, here, hs, hd, hb, h => by
    obtain ⟨hs₁, hs₂⟩ := List.forall_mem_cons.mp hs
    rw [List.cons_append]
    cases he : t.get? (here ++ [s]) with
    | none =>
      rw [walk_cons_of_none hs₁ hd he]
      split
      · exact .inr ⟨_, _, _, rfl⟩
      split
      · exact .inr ⟨_, _, _, rfl⟩
      · exact .inl rfl
    | some e =>
      -- What is there is not in the way, so it is a directory.
      have hdir : e = .directory := by
        by_contra hne
        exact hb ⟨[s], e, by simp, he, hne⟩
      subst hdir
      rw [walk_cons_of_some hs₁ hd he nofun]
      have hb' : ¬t.Blocked (here ++ [s]) steps := fun h' => hb ((blocked_cons hd).mpr h')
      exact walk_of_none budget rest hs₂ he hb' (by simpa using h)

/-- Beyond something that is no directory nothing is reached; at its place no directory. -/
theorem walk_of_blocked (budget : Nat) (rest : List String) (hl : t.NoLinks) :
    ∀ {steps : List String} {here : Location},
    (∀ s ∈ steps, FitsStep s) → t.get? here = some .directory → t.Blocked here steps →
    t.walk budget here (steps ++ rest) = .error .notDirectory ∨
      t.walk budget here (steps ++ rest) = t.walk budget (here ++ steps) rest ∧
        t.get? (here ++ steps) ≠ some .directory
  | [], here, _, hd, hb => by
    obtain ⟨q, e, hq, he, hne⟩ := hb
    obtain rfl := List.prefix_nil.mp hq
    rw [List.append_nil, hd, Option.some.injEq] at he
    exact absurd he.symm hne
  | s :: steps, here, hs, hd, hb => by
    obtain ⟨hs₁, hs₂⟩ := List.forall_mem_cons.mp hs
    have hb' := (blocked_cons hd).mp hb
    rw [List.cons_append]
    cases he : t.get? (here ++ [s]) with
    | none =>
      -- Behind a missing name there is nothing that could be in the way.
      obtain ⟨q, e, -, hq, -⟩ := hb'
      rcases eq_or_ne q [] with rfl | hne
      · rw [List.append_nil, he] at hq
        cases hq
      · have hd' := directory_of_append hne hq
        rw [he] at hd'
        cases hd'
    | some e =>
      rw [walk_cons_of_some hs₁ hd he (fun target h => hl _ target (h ▸ he))]
      by_cases hdir : e = .directory
      · subst hdir
        have ih := walk_of_blocked budget rest hl hs₂ he hb'
        simpa using ih
      · have hne : t.get? (here ++ [s]) ≠ some .directory := by simpa [he] using hdir
        -- If a file has the last name, the walk gets to it and no further.
        cases steps with
        | nil => exact .inr ⟨by simp, by simpa using hne⟩
        | cons s' steps => exact .inl (walk_cons_of_not_directory hne)

end FileTree

/-! ## Plain paths -/

/-- A plain path that the system takes, as it takes its names. -/
structure Path.Fits (p : Path) : Prop extends p.IsPlain, p.IsUsable where
  sizes : ∀ s ∈ p.steps, s.utf8ByteSize ≤ nameLimit

theorem Path.Fits.fitsStep {p : Path} (h : p.Fits) : ∀ s ∈ p.steps, FileTree.FitsStep s :=
  fun s hs => ⟨h.names s hs, h.sizes s hs⟩

/-- The walk to a name in a directory takes the name last. -/
theorem Path.walkSteps_join {p : Path} {name : String} (hslash : '/' ∉ name.toList)
    (hname : name ≠ "") : (p.join ⟨name⟩).walkSteps = p.steps ++ [name] := by
  rw [walkSteps, endsInSlash_join hslash hname, steps_join hslash hname,
    if_neg Bool.false_ne_true, List.append_nil]

namespace FileTree

variable {t : FileTree} {cwd : Location} {p : Path} {q : List String} {s : String}

theorem reach_eq_walk (hp : p.Fits) (hne : p.text ≠ "") (steps : List String) :
    t.reach cwd p steps = t.walk linkLimit cwd steps := by
  rw [reach_of_isUsable hne hp.toIsUsable, hp.relative, if_neg Bool.false_ne_true]

/-- A path leads to the directory that its names lead to. -/
theorem follow_of_directory (hp : p.Fits) (hne : p.text ≠ "")
    (hd : t.get? (cwd ++ p.steps) = some .directory) : t.follow cwd p = .ok (cwd ++ p.steps) := by
  rw [follow, reach_eq_walk hp hne, Path.walkSteps, walk_of_directory hp.fitsStep hd]
  split
  · rw [walk_slash, if_pos hd]
    rfl
  · rw [walk]
    rfl

/-- The empty path leads nowhere. -/
theorem entryAt?_of_empty (he : p.text = "") : t.entryAt? cwd p = none := by
  rw [entryAt?, follow, reach, if_pos he]
  rfl

/-- A path leads nowhere if what its names lead to is missing. -/
theorem entryAt?_of_none (hp : p.Fits) (hcwd : t.get? cwd = some .directory)
    (hb : ¬t.Blocked cwd p.steps) (hn : t.get? (cwd ++ p.steps) = none) :
    t.entryAt? cwd p = none := by
  have hf : t.follow cwd p = .error .notFound := by
    rcases eq_or_ne p.text "" with he | hne
    · rw [follow, reach, if_pos he]
      rfl
    · rw [follow, reach_eq_walk hp hne]
      rcases walk_of_none _ _ hp.fitsStep hcwd hb hn with hw | ⟨dir, name, slash, hw⟩ <;>
        rw [Path.walkSteps, hw] <;> rfl
  rw [entryAt?, hf]
  rfl

/-- What a path that is blocked leads to is no directory. -/
theorem entryAt?_of_blocked (hl : t.NoLinks) (hp : p.Fits) (hcwd : t.get? cwd = some .directory)
    (hb : t.Blocked cwd p.steps) : t.entryAt? cwd p ≠ some .directory := by
  rcases eq_or_ne p.text "" with he | hne
  · rw [entryAt?_of_empty he]
    exact nofun
  rw [entryAt?, follow, reach_eq_walk hp hne, Path.walkSteps]
  rcases walk_of_blocked _ _ hl hp.fitsStep hcwd hb with hw | ⟨hw, hd⟩ <;> rw [hw]
  · exact nofun
  · split
    · rw [walk_slash, if_neg hd]
      exact nofun
    · rw [walk]
      exact hd

/-- A path leads to a directory if its names do, and if it is not empty. -/
theorem entryAt?_eq_directory_iff (hl : t.NoLinks) (hp : p.Fits)
    (hcwd : t.get? cwd = some .directory) :
    t.entryAt? cwd p = some .directory ↔
      p.text ≠ "" ∧ t.get? (cwd ++ p.steps) = some .directory := by
  refine ⟨fun h => ?_, fun ⟨hne, hd⟩ => ?_⟩
  · have hne : p.text ≠ "" := by
      intro he
      rw [entryAt?_of_empty he] at h
      cases h
    refine ⟨hne, ?_⟩
    by_contra hd
    by_cases hb : t.Blocked cwd p.steps
    · exact entryAt?_of_blocked hl hp hcwd hb h
    · rw [entryAt?_of_none hp hcwd hb (get?_eq_none_of_not_blocked hb hd)] at h
      cases h
  · rw [entryAt?, follow_of_directory hp hne hd]
    exact hd

theorem text_ne_empty_of_steps (hp : p.IsPlain) (hs : p.steps = q ++ [s]) : p.text ≠ "" := by
  intro he
  rw [← Path.steps_eq_nil_iff hp.relative, hs] at he
  simp at he

theorem fitsStep_of_steps (hp : p.Fits) (hs : p.steps = q ++ [s]) :
    (∀ x ∈ q, FitsStep x) ∧ FitsStep s := by
  have h := hp.fitsStep
  rw [hs, List.forall_mem_append] at h
  exact ⟨h.1, h.2 s List.mem_cons_self⟩

theorem lastStep_of_refusal? {e : Errno} (h : p.refusal? = some e) :
    t.lastStep cwd p = .error e := by
  rw [lastStep, reach_of_refusal? h]
  cases p.steps.getLast? <;> rfl

/-- The last step of a relative path is taken where the walk along the steps before it ends. -/
theorem lastStep_of_relative (ha : p.isAbsolute = false) (hne : p.text ≠ "")
    (hu : p.IsUsable) (hs : p.steps = q ++ [s]) : t.lastStep cwd p =
    match t.walk linkLimit cwd q with
    | .error e => .error e
    | .ok (.missing ..) => .error .notFound
    | .ok (.place dir) =>
      if t.get? dir ≠ some .directory then .error .notDirectory
      else if s = "." ∨ s = ".." then .ok none
      else if nameLimit < s.utf8ByteSize then .error .nameTooLong
      else .ok (some (dir, s)) := by
  rw [lastStep, hs, List.getLast?_concat, List.dropLast_concat, reach_of_isUsable hne hu, ha,
    if_neg Bool.false_ne_true]
  cases t.walk linkLimit cwd q with
  | error e => rfl
  | ok reached => cases reached <;> rfl

/-- In a plain path it is a name. -/
theorem lastStep_eq_walk (hp : p.IsPlain) (hu : p.IsUsable) (hs : p.steps = q ++ [s]) :
    t.lastStep cwd p =
    match t.walk linkLimit cwd q with
    | .error e => .error e
    | .ok (.missing ..) => .error .notFound
    | .ok (.place dir) =>
      if t.get? dir ≠ some .directory then .error .notDirectory
      else if nameLimit < s.utf8ByteSize then .error .nameTooLong
      else .ok (some (dir, s)) := by
  have hname : Path.IsStepName s := hp.names s (by simp [hs])
  have hdots : ¬(s = "." ∨ s = "..") := by simp [hname.ne_dot, hname.ne_up]
  rw [lastStep_of_relative hp.relative (text_ne_empty_of_steps hp hs) hu hs]
  simp only [if_neg hdots]

/-- The last step is taken in the directory that the steps before it lead to. -/
theorem lastStep_of_directory (hp : p.Fits) (hs : p.steps = q ++ [s])
    (hd : t.get? (cwd ++ q) = some .directory) : t.lastStep cwd p = .ok (some (cwd ++ q, s)) := by
  obtain ⟨hq, hsf⟩ := fitsStep_of_steps hp hs
  have hw : t.walk linkLimit cwd q = .ok (.place (cwd ++ q)) := by
    rw [← List.append_nil q, walk_of_directory hq hd, walk, List.append_nil]
  rw [lastStep_eq_walk hp.toIsPlain hp.toIsUsable hs, hw]
  dsimp only
  rw [if_neg (not_not.mpr hd), if_neg (Nat.not_lt.mpr hsf.size)]

end FileTree

end ProtoScribe
