import ProtoScribe.Proofs.Storage.Files
import ProtoScribe.Proofs.Storage.Links

/-!
# Obstacles on the way along names

How far directories can be made along names: up to the first one that is too long, or that something
has which is no directory (`front`). Nothing is assumed of how long the names are. Why no directory
can be made beyond that is said by that name alone (`obstacle?`).

A name that a directory has and one that nothing has count the same here, which is what makes the
outcome independent of directories that someone else has made before.
-/

namespace ProtoScribe

/-- What a tree holds at each place. -/
abbrev Holdings : Type := Location → Option Entry

namespace Holdings

variable {g g' : Holdings} {here : Location} {names q rest : List String} {s : String}

/-! ## Names that are clear -/

/-- A name that a directory can have, or has already. -/
structure IsClear (g : Holdings) (here : Location) (s : String) : Prop where
  size : s.utf8ByteSize ≤ nameLimit
  place : g (here ++ [s]) = none ∨ g (here ++ [s]) = some .directory

instance (g : Holdings) (here : Location) (s : String) : Decidable (g.IsClear here s) :=
  decidable_of_iff (s.utf8ByteSize ≤ nameLimit ∧
      (g (here ++ [s]) = none ∨ g (here ++ [s]) = some .directory))
    ⟨fun ⟨h₁, h₂⟩ => ⟨h₁, h₂⟩, fun ⟨h₁, h₂⟩ => ⟨h₁, h₂⟩⟩

/-- The names up to the first one that is not clear. -/
def front (g : Holdings) (here : Location) : List String → List String
  | [] => []
  | s :: rest => if g.IsClear here s then s :: front g (here ++ [s]) rest else []

/-- Why a directory cannot have a name that `rest` follows. -/
def obstacle (s : String) (rest : List String) : Errno :=
  if nameLimit < s.utf8ByteSize then .nameTooLong
  else if rest = [] then .alreadyExists
  else .notDirectory

/-- It is not that something is missing: what is missing can be made. -/
theorem obstacle_ne_notFound (s : String) (rest : List String) : obstacle s rest ≠ .notFound := by
  unfold obstacle
  split
  · simp
  · split <;> simp

/-- Why directories cannot be made along all of the names, if they cannot. -/
def obstacle? (g : Holdings) (here : Location) (names : List String) : Option Errno :=
  match names.drop (g.front here names).length with
  | [] => none
  | s :: rest => some (obstacle s rest)

/-- Either all names are clear, or the first that is not follows the front. -/
theorem front_cases (g : Holdings) : ∀ (here : Location) (names : List String),
    g.front here names = names ∨
      ∃ s rest, names = g.front here names ++ s :: rest ∧
        ¬g.IsClear (here ++ g.front here names) s
  | here, [] => .inl rfl
  | here, s :: names => by
    unfold front
    split
    · rcases front_cases g (here ++ [s]) names with h | ⟨x, rest, h, hx⟩
      · exact .inl (by rw [h])
      · refine .inr ⟨x, rest, ?_, by simpa using hx⟩
        rw [List.cons_append, ← h]
    · next hs => exact .inr ⟨s, names, rfl, by simpa using hs⟩

theorem isPrefix_front (g : Holdings) (here : Location) (names : List String) :
    g.front here names <+: names := by
  rcases g.front_cases here names with h | ⟨s, rest, h, -⟩
  · rw [h]
  · exact ⟨s :: rest, h.symm⟩

/-- What is in the front is clear. -/
theorem isClear_of_front : ∀ {names q : List String} {here : Location},
    q ++ [s] <+: g.front here names → g.IsClear (here ++ q) s
  | [], q, here, h => by simp [front] at h
  | x :: names, q, here, h => by
    unfold front at h
    split at h
    · next hx =>
      cases q with
      | nil =>
        obtain ⟨rfl, -⟩ := List.cons_prefix_cons.mp h
        simpa using hx
      | cons y q =>
        obtain ⟨rfl, h'⟩ := List.cons_prefix_cons.mp h
        simpa using isClear_of_front h'
    · simp at h

theorem size_of_mem_front (h : s ∈ g.front here names) : s.utf8ByteSize ≤ nameLimit := by
  obtain ⟨first, later, hfront⟩ := List.append_of_mem h
  have hfirst : first ++ [s] <+: g.front here names := ⟨later, by simp [hfront]⟩
  exact (isClear_of_front hfirst).size

/-- Names that are all clear are their own front. -/
theorem front_of_clear : ∀ {names : List String} {here : Location},
    (∀ q s, q ++ [s] <+: names → g.IsClear (here ++ q) s) → g.front here names = names
  | [], _, _ => rfl
  | x :: names, here, h => by
    have hx : g.IsClear here x := by simpa using h [] x (by simp)
    rw [front, if_pos hx, front_of_clear fun q s hq => ?_]
    simpa using h (x :: q) s (List.cons_prefix_cons.mpr ⟨rfl, hq⟩)

/-- The front is the same where the same names are clear. -/
theorem front_congr : ∀ {names : List String} {here : Location},
    (∀ q s, q ++ [s] <+: names → (g.IsClear (here ++ q) s ↔ g'.IsClear (here ++ q) s)) →
    g.front here names = g'.front here names
  | [], _, _ => rfl
  | x :: names, here, h => by
    have hx : g.IsClear here x ↔ g'.IsClear here x := by simpa using h [] x (by simp)
    have hrest : g.front (here ++ [x]) names = g'.front (here ++ [x]) names := by
      refine front_congr fun q s hq => ?_
      simpa using h (x :: q) s (List.cons_prefix_cons.mpr ⟨rfl, hq⟩)
    simp only [front, hx, hrest]

/-- One more name is in the front if it is clear and all before it are. -/
theorem front_concat (g : Holdings) : ∀ (here : Location) (names : List String) (s : String),
    g.front here (names ++ [s]) =
      if g.front here names = names ∧ g.IsClear (here ++ names) s then names ++ [s]
      else g.front here names
  | here, [], s => by simp [front]
  | here, x :: names, s => by
    by_cases hx : g.IsClear here x
    · have ih := front_concat g (here ++ [x]) names s
      rw [List.append_assoc, List.singleton_append] at ih
      simp only [List.cons_append, front, if_pos hx, ih, List.cons.injEq, true_and]
      split <;> rfl
    · simp [front, hx]

/-- Where all others are clear, the last name decides. -/
theorem front_concat_of_front (h : g.front here names = names) :
    g.front here (names ++ [s])
      = if g.IsClear (here ++ names) s then names ++ [s] else names := by
  rw [front_concat, h]
  simp

/-- Where they are not, it does not matter. -/
theorem front_concat_of_cons {x : String} (h : names = g.front here names ++ x :: rest) :
    g.front here (names ++ [s]) = g.front here names := by
  rw [front_concat, if_neg]
  rintro ⟨hall, -⟩
  rw [hall] at h
  simp at h

theorem obstacle?_of_front (h : g.front here names = names) : g.obstacle? here names = none := by
  rw [obstacle?, h, List.drop_length]

theorem obstacle?_of_cons (h : names = g.front here names ++ s :: rest) :
    g.obstacle? here names = some (obstacle s rest) := by
  have hdrop : names.drop (g.front here names).length = s :: rest := by
    generalize g.front here names = first at h
    rw [h, List.drop_left]
  rw [obstacle?, hdrop]

/-- Only what has the last name can be said to exist already. -/
theorem obstacle?_eq_alreadyExists_iff :
    g.obstacle? here names = some .alreadyExists ↔
      ∃ q s, names = q ++ [s] ∧ g.front here q = q ∧ s.utf8ByteSize ≤ nameLimit ∧
        ¬g.IsClear (here ++ q) s := by
  constructor
  · intro h
    rcases g.front_cases here names with hall | ⟨s, rest, hcons, hs⟩
    · rw [obstacle?_of_front hall] at h
      cases h
    rw [obstacle?_of_cons hcons, obstacle] at h
    split at h
    · cases h
    next hsize =>
    split at h
    · next hrest =>
      subst hrest
      refine ⟨g.front here names, s, hcons, ?_, Nat.not_lt.mp hsize, hs⟩
      exact front_of_clear fun q x hq => isClear_of_front hq
    · cases h
  · rintro ⟨q, s, rfl, hq, hsize, hs⟩
    have hfront := front_concat_of_front (s := s) hq
    rw [if_neg hs] at hfront
    rw [obstacle?_of_cons (by rw [hfront]), obstacle, if_neg (Nat.not_lt.mpr hsize), if_pos rfl]

end Holdings

namespace FileTree

open Holdings ProtoScribe.Path

variable {t : FileTree} {here there cwd : Location} {p : Path} {names q rest : List String}
  {s : String} {budget left : Nat} {e : Entry}

/-! ## Walks along names -/

/-- In a tree without links, names lead to the place that they name, and none is too long. -/
theorem Walks.along (hl : t.NoLinks) (h : t.Walks budget here names left there)
    (hnames : ∀ s ∈ names, IsStepName s) :
    there = here ++ names ∧ ∀ s ∈ names, FitsStep s := by
  induction h with
  | done => simp
  | idle hd hs _ ih =>
    have hname := (List.forall_mem_cons.mp hnames).1
    rcases hs with rfl | rfl
    · exact absurd rfl hname.nonempty
    · exact absurd rfl hname.ne_dot
  | up hd _ ih => exact absurd rfl (List.forall_mem_cons.mp hnames).1.ne_up
  | enter hd hs he hlink _ ih =>
    obtain ⟨rfl, hfits⟩ := ih (List.forall_mem_cons.mp hnames).2
    exact ⟨by simp, List.forall_mem_cons.mpr ⟨hs, hfits⟩⟩
  | link hd hs he _ ih => exact absurd he (hl _ _)

/-- A plain path leads to what its names lead to, unless it is empty, or the system takes it or one
of its names not, or a slash at its end asks for a directory where there is none. -/
theorem entryAt?_eq_some_iff (hl : t.NoLinks) (hp : p.IsPlain) :
    t.entryAt? cwd p = some e ↔
      p.text ≠ "" ∧ p.Fits ∧ t.get? (cwd ++ p.steps) = some e ∧
        (p.endsInSlash = true → e = .directory) := by
  constructor
  · intro h
    cases hf : t.follow cwd p with
    | error errno =>
      rw [entryAt?, hf] at h
      cases h
    | ok l =>
      rw [entryAt?, hf] at h
      obtain ⟨hne, hu, hwalk⟩ := follow_eq_ok_iff.mp hf
      rw [hp.relative, if_neg Bool.false_ne_true] at hwalk
      obtain ⟨left, hwalks⟩ := walks_of_walk hwalk
      obtain ⟨left', hsteps⟩ := walks_steps hwalks
      obtain ⟨rfl, hfits⟩ := hsteps.along hl hp.names
      refine ⟨hne, ⟨hp, hu, fun s hs => (hfits s hs).size⟩, h, fun hslash => ?_⟩
      have hend := hsteps.walk_append [""]
      rw [walkSteps, if_pos hslash] at hwalk
      rw [walk_slash] at hend
      split at hend
      · next hd => exact Option.some.inj (h.symm.trans hd)
      · cases hwalk.symm.trans hend
  · rintro ⟨hne, hfits, he, hslash⟩
    by_cases hd : e = .directory
    · subst hd
      rw [entryAt?, follow_of_directory hfits hne he]
      exact he
    · rcases List.eq_nil_or_concat' p.steps with hs | ⟨q, s, hs⟩
      · exact absurd ((steps_eq_nil_iff hp.relative).mp hs) hne
      rw [hs, ← List.append_assoc] at he
      have hdir := directory_of_append (List.cons_ne_nil s []) he
      have hnot : p.endsInSlash = false := by
        rw [← Bool.not_eq_true]
        exact mt hslash hd
      have hlink (target : Path) : e ≠ .link target := fun h => hl _ target (h ▸ he)
      rw [entryAt?, follow, reach_eq_step hfits hs hnot hdir,
        walk_cons_of_some (fitsStep_of_steps hfits hs).2 hdir he hlink, walk]
      exact he

/-- A path that is refused leads nowhere. -/
theorem entryAt?_of_refusal? {errno : Errno} (h : p.refusal? = some errno) :
    t.entryAt? cwd p = none := by
  rw [entryAt?, follow, reach_of_refusal? h]
  rfl

/-! ## Fronts in a tree -/

theorem front_fits (hnames : ∀ s ∈ names, IsStepName s) :
    ∀ s ∈ front t.get? here names, FitsStep s :=
  fun s hs => ⟨hnames s ((isPrefix_front _ _ _).subset hs), size_of_mem_front hs⟩

/-- What is in the way of a name that is short enough stands in a directory. -/
theorem directory_of_not_isClear (hsize : s.utf8ByteSize ≤ nameLimit)
    (h : ¬IsClear t.get? here s) : t.get? here = some .directory := by
  by_contra hd
  refine h ⟨hsize, .inl ?_⟩
  by_contra hsome
  obtain ⟨e, he⟩ := Option.ne_none_iff_exists'.mp hsome
  exact hd (directory_of_append (List.cons_ne_nil s []) he)

/-- Nothing blocks names that are all clear. -/
theorem not_blocked_front (hd : t.get? here = some .directory) :
    ¬t.Blocked here (front t.get? here names) := by
  rintro ⟨q, e, hq, he, hne⟩
  rcases List.eq_nil_or_concat' q with rfl | ⟨q, s, rfl⟩
  · rw [List.append_nil, hd, Option.some.injEq] at he
    exact hne he.symm
  · rw [← List.append_assoc] at he
    rcases (isClear_of_front hq).place with hnone | hdir
    · cases hnone.symm.trans he
    · cases hdir.symm.trans he
      exact hne rfl

/-- Names that nothing blocks are clear, if they are short enough. -/
theorem front_of_not_blocked (hsizes : ∀ s ∈ names, s.utf8ByteSize ≤ nameLimit)
    (hb : ¬t.Blocked here names) : front t.get? here names = names := by
  refine front_of_clear fun q s hq => ?_
  refine ⟨hsizes s (hq.subset (by simp)), ?_⟩
  by_contra hplace
  obtain ⟨hnone, hdir⟩ := not_or.mp hplace
  obtain ⟨e, he⟩ := Option.ne_none_iff_exists'.mp hnone
  refine hb ⟨q ++ [s], e, hq, by rw [← List.append_assoc, he], ?_⟩
  rintro rfl
  exact hdir he

/-- Names that lead to a directory are clear, if they are short enough. -/
theorem front_of_directory (hsizes : ∀ s ∈ names, s.utf8ByteSize ≤ nameLimit)
    (hd : t.get? (here ++ names) = some .directory) : front t.get? here names = names :=
  front_of_not_blocked hsizes (not_blocked_of_directory hd)

/-- What has the place that names lead to and is no directory is in the way of one, at the end. -/
theorem obstacle?_of_entry (hsizes : ∀ s ∈ names, s.utf8ByteSize ≤ nameLimit)
    (hd : t.get? here = some .directory) (he : t.get? (here ++ names) = some e)
    (hne : e ≠ .directory) :
    obstacle? t.get? here names = some .alreadyExists ∧
      t.get? (here ++ front t.get? here names) = some .directory := by
  rcases List.eq_nil_or_concat' names with rfl | ⟨q, s, rfl⟩
  · rw [List.append_nil, hd, Option.some.injEq] at he
    exact absurd he.symm hne
  rw [← List.append_assoc] at he
  have hdir := directory_of_append (List.cons_ne_nil s []) he
  have hq : front t.get? here q = q :=
    front_of_directory (fun x hx => hsizes x (by simp [hx])) hdir
  have hs : ¬IsClear t.get? (here ++ q) s := by
    rintro ⟨-, hnone | hsome⟩
    · cases hnone.symm.trans he
    · exact hne (Option.some.inj (he.symm.trans hsome))
  refine ⟨obstacle?_eq_alreadyExists_iff.mpr ⟨q, s, rfl, hq, hsizes s (by simp), hs⟩, ?_⟩
  rw [front_concat_of_front hq, if_neg hs, hdir]

/-- Only that is. -/
theorem entry_of_obstacle? (h : obstacle? t.get? here names = some .alreadyExists) :
    (∀ s ∈ names, s.utf8ByteSize ≤ nameLimit) ∧
      ∃ e, t.get? (here ++ names) = some e ∧ e ≠ .directory := by
  obtain ⟨q, s, rfl, hq, hsize, hs⟩ := obstacle?_eq_alreadyExists_iff.mp h
  refine ⟨fun x hx => ?_, ?_⟩
  · rcases List.mem_append.mp hx with hx | hx
    · rw [← hq] at hx
      exact size_of_mem_front hx
    · rwa [List.mem_singleton.mp hx]
  · rw [← List.append_assoc]
    cases he : t.get? (here ++ q ++ [s]) with
    | none => exact absurd ⟨hsize, .inl he⟩ hs
    | some e =>
      refine ⟨e, rfl, ?_⟩
      rintro rfl
      exact hs ⟨hsize, .inr he⟩

end FileTree

end ProtoScribe
