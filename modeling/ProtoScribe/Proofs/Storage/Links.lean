import Mathlib
import ProtoScribe.Proofs.Storage.Walk

/-!
# Walks through links

How a walk gets to a place in any tree, links included (`Walks`). A walk that gets there goes on
from there, whatever steps follow (`Walks.walk_append`), it has been to all the places on its way
(`Walks.split`), and it goes the same way in a tree that keeps directories and links where they are
(`Walks.keep`). Trees do so when something is put where nothing was, and when a file gets another
content.
-/

namespace ProtoScribe

/-- Something that no walk goes on from. -/
def Entry.IsLeaf : Entry → Prop
  | .file _ | .device _ => True
  | .directory | .link _ => False

namespace FileTree

variable {t t' : FileTree} {budget left : Nat} {here there : Location} {s : String}
  {steps rest : List String}

/-! ## Trees that hold more -/

/-- What a tree holds another holds as well. -/
def Extends (t t' : FileTree) : Prop := ∀ l e, t.get? l = some e → t'.get? l = some e

theorem Extends.refl (t : FileTree) : t.Extends t := by
  intro l e h
  exact h

theorem Extends.trans {t'' : FileTree} (h : t.Extends t') (h' : t'.Extends t'') : t.Extends t'' :=
  fun l e hl => h' l e (h l e hl)

/-- A new entry takes nothing away. -/
theorem extends_put {dir : Location} {name : String} (hn : t.get? (dir ++ [name]) = none)
    (e : Entry) : t.Extends (t.put dir name e) := by
  intro l e' h
  by_cases hfree : t.IsFree dir name
  · rw [get?_put hfree, if_neg, h]
    rintro rfl
    rw [hn] at h
    cases h
  · rw [get?_put_of_not_isFree hfree, h]

/-- Whatever stands in a tree has something in its place in another, and a directory or a link has
itself there. -/
def Keeps (t t' : FileTree) : Prop :=
  ∀ l e, t.get? l = some e → ∃ e', t'.get? l = some e' ∧ (e' = e ∨ e.IsLeaf ∧ e'.IsLeaf)

theorem Extends.keeps (h : t.Extends t') : t.Keeps t' :=
  fun l e hl => ⟨e, h l e hl, .inl rfl⟩

theorem Keeps.directory (h : t.Keeps t') {l : Location} (hl : t.get? l = some .directory) :
    t'.get? l = some .directory := by
  obtain ⟨e, he, rfl | ⟨hleaf, -⟩⟩ := h l _ hl
  · exact he
  · exact hleaf.elim

theorem Keeps.link (h : t.Keeps t') {l : Location} {target : Path}
    (hl : t.get? l = some (.link target)) : t'.get? l = some (.link target) := by
  obtain ⟨e, he, rfl | ⟨hleaf, -⟩⟩ := h l _ hl
  · exact he
  · exact hleaf.elim

/-- What is no link has no link in its place. -/
theorem Keeps.exists_entry (h : t.Keeps t') {l : Location} {e : Entry} (hl : t.get? l = some e)
    (hlink : ∀ target, e ≠ .link target) :
    ∃ e', t'.get? l = some e' ∧ ∀ target, e' ≠ .link target := by
  obtain ⟨e', he', rfl | ⟨-, hleaf⟩⟩ := h l e hl
  · exact ⟨e', he', hlink⟩
  · refine ⟨e', he', ?_⟩
    rintro target rfl
    exact hleaf.elim

theorem Keeps.trans {t'' : FileTree} (h : t.Keeps t') (h' : t'.Keeps t'') : t.Keeps t'' := by
  intro l e hl
  obtain ⟨e', he', hsame⟩ := h l e hl
  obtain ⟨e'', he'', hsame'⟩ := h' l e' he'
  refine ⟨e'', he'', ?_⟩
  rcases hsame with rfl | ⟨hleaf, hleaf'⟩
  · exact hsame'
  · rcases hsame' with rfl | ⟨-, hleaf''⟩
    · exact .inr ⟨hleaf, hleaf'⟩
    · exact .inr ⟨hleaf, hleaf''⟩

/-- A file may be put where there is nothing, or something that no walk goes on from. -/
theorem keeps_put {dir : Location} {name : String} {e : Entry} (he : e.IsLeaf)
    (hplace : ∀ e', t.get? (dir ++ [name]) = some e' → e'.IsLeaf) : t.Keeps (t.put dir name e) := by
  intro l e' h
  by_cases hfree : t.IsFree dir name
  · rw [get?_put hfree]
    split
    · next hl => exact ⟨e, rfl, .inr ⟨hplace e' (hl ▸ h), he⟩⟩
    · exact ⟨e', h, .inl rfl⟩
  · rw [get?_put_of_not_isFree hfree]
    exact ⟨e', h, .inl rfl⟩

/-! ## Walks that get to a place -/

theorem fitsStep_of_not_idle (hidle : ¬(s = "" ∨ s = ".")) (hup : s ≠ "..")
    (hsize : ¬nameLimit < s.utf8ByteSize) : FitsStep s where
  nonempty h := hidle (.inl h)
  ne_dot h := hidle (.inr h)
  ne_up := hup
  size := Nat.not_lt.mp hsize

/-- A link is followed as long as that is allowed. -/
theorem walk_cons_of_link {target : Path} (hs : FitsStep s) (hd : t.get? here = some .directory)
    (he : t.get? (here ++ [s]) = some (.link target)) :
    t.walk (budget + 1) here (s :: rest) =
      t.walk budget (if target.isAbsolute then [] else here) (target.walkSteps ++ rest) := by
  rw [walk, if_neg (by simp [hd]), if_neg (by simp [hs.nonempty, hs.ne_dot]), if_neg hs.ne_up,
    if_neg (Nat.not_lt.mpr hs.size), he]

/-- Steps that lead from `here` to `there`, with the links that may be followed before and after. -/
inductive Walks (t : FileTree) : (budget : Nat) → (here : Location) → (steps : List String) →
    (left : Nat) → (there : Location) → Prop where
  | done {budget : Nat} {here : Location} : Walks t budget here [] budget here
  | idle {budget left : Nat} {here there : Location} {s : String} {rest : List String} :
    t.get? here = some .directory → (s = "" ∨ s = ".") → Walks t budget here rest left there →
    Walks t budget here (s :: rest) left there
  | up {budget left : Nat} {here there : Location} {rest : List String} :
    t.get? here = some .directory → Walks t budget here.dropLast rest left there →
    Walks t budget here (".." :: rest) left there
  | enter {budget left : Nat} {here there : Location} {s : String} {rest : List String}
    {e : Entry} : t.get? here = some .directory → FitsStep s → t.get? (here ++ [s]) = some e →
    (∀ target, e ≠ .link target) → Walks t budget (here ++ [s]) rest left there →
    Walks t budget here (s :: rest) left there
  | link {budget left : Nat} {here there : Location} {s : String} {rest : List String}
    {target : Path} : t.get? here = some .directory → FitsStep s →
    t.get? (here ++ [s]) = some (.link target) →
    Walks t budget (if target.isAbsolute then [] else here) (target.walkSteps ++ rest) left there →
    Walks t (budget + 1) here (s :: rest) left there

theorem walks_of_walk (h : t.walk budget here steps = .ok (.place there)) :
    ∃ left, t.Walks budget here steps left there := by
  fun_induction FileTree.walk t budget here steps with
  | case1 budget here =>
    cases h
    exact ⟨budget, .done⟩
  | case2 | case5 | case6 | case7 | case8 | case9 => cases h
  | case3 budget here s rest hd hs ih =>
    obtain ⟨left, hw⟩ := ih h
    exact ⟨left, .idle (not_not.mp hd) hs hw⟩
  | case4 budget here rest hd hs ih =>
    obtain ⟨left, hw⟩ := ih h
    exact ⟨left, .up (not_not.mp hd) hw⟩
  | case10 here s rest hd hidle hup hsize target he budget ih =>
    obtain ⟨left, hw⟩ := ih h
    exact ⟨left, .link (not_not.mp hd) (fitsStep_of_not_idle hidle hup hsize) he hw⟩
  | case11 budget here s rest hd hidle hup hsize e hl he ih =>
    obtain ⟨left, hw⟩ := ih h
    exact ⟨left, .enter (not_not.mp hd) (fitsStep_of_not_idle hidle hup hsize) he hl hw⟩

namespace Walks

/-- From the place that steps lead to, a walk goes on with what follows them. -/
theorem walk_append (h : t.Walks budget here steps left there) (rest : List String) :
    t.walk budget here (steps ++ rest) = t.walk left there rest := by
  induction h with
  | done => rfl
  | idle hd hs _ ih =>
    rw [List.cons_append, walk, if_neg (not_not.mpr hd), if_pos hs, ih]
  | up hd _ ih =>
    rw [List.cons_append, walk, if_neg (not_not.mpr hd), if_neg (by decide), if_pos rfl, ih]
  | enter hd hs he hl _ ih => rw [List.cons_append, walk_cons_of_some hs hd he hl, ih]
  | link hd hs he _ ih => rw [List.cons_append, walk_cons_of_link hs hd he, ← List.append_assoc, ih]

theorem walk_eq (h : t.Walks budget here steps left there) :
    t.walk budget here steps = .ok (.place there) := by
  have happend := h.walk_append []
  rwa [List.append_nil, walk] at happend

/-- A walk that gets to a place has been to the place that its first steps lead to. -/
theorem split {first : List String} (h : t.Walks budget here (first ++ rest) left there) :
    ∃ m between, t.Walks budget here first m between ∧ t.Walks m between rest left there := by
  generalize hsteps : first ++ rest = steps at h
  induction h generalizing first with
  | @done budget here =>
    obtain ⟨rfl, rfl⟩ := List.append_eq_nil_iff.mp hsteps
    exact ⟨budget, here, .done, .done⟩
  | @idle budget left here there s steps hd hs hw ih =>
    cases first with
    | nil => exact ⟨budget, here, .done, by subst hsteps; exact .idle hd hs hw⟩
    | cons x first =>
      obtain ⟨rfl, htail⟩ := List.cons.inj (hsteps : x :: (first ++ rest) = _)
      obtain ⟨m, between, hfirst, hrest⟩ := ih htail
      exact ⟨m, between, .idle hd hs hfirst, hrest⟩
  | @up budget left here there steps hd hw ih =>
    cases first with
    | nil => exact ⟨budget, here, .done, by subst hsteps; exact .up hd hw⟩
    | cons x first =>
      obtain ⟨rfl, htail⟩ := List.cons.inj (hsteps : x :: (first ++ rest) = _)
      obtain ⟨m, between, hfirst, hrest⟩ := ih htail
      exact ⟨m, between, .up hd hfirst, hrest⟩
  | @enter budget left here there s steps e hd hs he hl hw ih =>
    cases first with
    | nil => exact ⟨budget, here, .done, by subst hsteps; exact .enter hd hs he hl hw⟩
    | cons x first =>
      obtain ⟨rfl, htail⟩ := List.cons.inj (hsteps : x :: (first ++ rest) = _)
      obtain ⟨m, between, hfirst, hrest⟩ := ih htail
      exact ⟨m, between, .enter hd hs he hl hfirst, hrest⟩
  | @link budget left here there s steps target hd hs he hw ih =>
    cases first with
    | nil => exact ⟨budget + 1, here, .done, by subst hsteps; exact .link hd hs he hw⟩
    | cons x first =>
      obtain ⟨rfl, htail⟩ := List.cons.inj (hsteps : x :: (first ++ rest) = _)
      have hall : (target.walkSteps ++ first) ++ rest = target.walkSteps ++ steps := by
        rw [List.append_assoc]
        exact congrArg (target.walkSteps ++ ·) htail
      obtain ⟨m, between, hfirst, hrest⟩ := ih hall
      exact ⟨m, between, .link hd hs he hfirst, hrest⟩

/-- A walk goes the same way where directories and links are kept. -/
theorem keep (h : t.Walks budget here steps left there) (ht : t.Keeps t') :
    t'.Walks budget here steps left there := by
  induction h with
  | done => exact .done
  | idle hd hs _ ih => exact .idle (ht.directory hd) hs ih
  | up hd _ ih => exact .up (ht.directory hd) ih
  | enter hd hs he hl _ ih =>
    obtain ⟨e', he', hl'⟩ := ht.exists_entry he hl
    exact .enter (ht.directory hd) hs he' hl' ih
  | link hd hs he _ ih => exact .link (ht.directory hd) hs (ht.link he) ih

end Walks

/-! ## Directories that paths lead to -/

/-- A path leads to a directory; the empty path is where it starts. -/
structure Leads (t : FileTree) (cwd : Location) (p : Path) (dir : Location) : Prop where
  follow : if p.text = "" then dir = cwd else t.follow cwd p = .ok dir
  directory : t.get? dir = some .directory

/-- A slash at the end of a path leads no further. -/
theorem walks_steps {p : Path} (h : t.Walks budget here p.walkSteps left there) :
    ∃ left', t.Walks budget here p.steps left' there := by
  obtain ⟨m, between, hsteps, hslash⟩ := h.split
  have hend := hslash.walk_eq
  have hthere : there = between := by
    split at hend
    · rw [walk_slash] at hend
      split at hend <;> cases hend
      rfl
    · rw [walk] at hend
      cases hend
      rfl
  exact ⟨m, hthere ▸ hsteps⟩

/-- A path leads to a place if it is not empty, the system takes it and a walk gets there. -/
theorem follow_eq_ok_iff {cwd : Location} {p : Path} :
    t.follow cwd p = .ok there ↔ p.text ≠ "" ∧ p.IsUsable ∧
      t.walk linkLimit (if p.isAbsolute then [] else cwd) p.walkSteps = .ok (.place there) := by
  rw [← reach_eq_ok_iff, follow]
  refine ⟨fun h => ?_, fun h => by rw [h]; rfl⟩
  cases hr : t.reach cwd p p.walkSteps with
  | error e =>
    rw [hr] at h
    cases h
  | ok reached =>
    rw [hr] at h
    cases reached with
    | missing => cases h
    | place l =>
      cases h
      rfl

/-- A path leads to the same place where directories and links are kept. -/
theorem Keeps.follow {cwd : Location} {p : Path} (ht : t.Keeps t')
    (h : t.follow cwd p = .ok there) : t'.follow cwd p = .ok there := by
  obtain ⟨hne, hu, hw⟩ := follow_eq_ok_iff.mp h
  obtain ⟨left, hwalks⟩ := walks_of_walk hw
  exact follow_eq_ok_iff.mpr ⟨hne, hu, (hwalks.keep ht).walk_eq⟩

theorem walks_of_follow {cwd : Location} {p : Path} (h : t.follow cwd p = .ok there) :
    ∃ left, t.Walks linkLimit (if p.isAbsolute then [] else cwd) p.steps left there := by
  obtain ⟨left, hwalks⟩ := walks_of_walk (follow_eq_ok_iff.mp h).2.2
  exact walks_steps hwalks

namespace Leads

/-- A path leads to one directory at most. -/
theorem unique {cwd dir dir' : Location} {p : Path} (h : t.Leads cwd p dir)
    (h' : t.Leads cwd p dir') : dir = dir' := by
  have hfollow := h.follow
  have hfollow' := h'.follow
  split at hfollow
  · next he =>
    rw [if_pos he] at hfollow'
    rw [hfollow, hfollow']
  · next hne =>
    rw [if_neg hne, hfollow] at hfollow'
    cases hfollow'
    rfl

variable {cwd dir : Location} {p : Path} {name : String} (h : t.Leads cwd p dir)
  (ht : t.Keeps t')

include h ht

/-- A path leads to the same directory where directories and links are kept. -/
theorem keep : t'.Leads cwd p dir where
  follow := by
    have hfollow := h.follow
    split at hfollow
    · next he => rw [if_pos he, hfollow]
    · next hne => rw [if_neg hne, ht.follow hfollow]
  directory := ht.directory h.directory

variable (hslash : '/' ∉ name.toList)

include hslash

/-- Whoever asks for a name in the directory gets to the directory first. -/
theorem reach_join (hname : name ≠ "") (hu : (p.join ⟨name⟩).IsUsable) :
    ∃ left, ∀ rest, t'.reach cwd (p.join ⟨name⟩) (p.steps ++ rest) = t'.walk left dir rest := by
  have hempty : (p.join ⟨name⟩).text ≠ "" := by
    intro he
    have hsteps := Path.steps_join (p := p) hslash hname
    rw [show p.join ⟨name⟩ = ⟨""⟩ by rw [← he]] at hsteps
    exact absurd hsteps.symm (by simp [Path.steps, show Path.segments ⟨""⟩ = [""] from rfl])
  simp only [reach_of_isUsable hempty hu, Path.isAbsolute_join hslash]
  have hfollow := h.follow
  split at hfollow
  · next he =>
    -- The empty path takes no step, and starts where the name is looked for.
    obtain rfl : p = ⟨""⟩ := by rw [← he]
    subst hfollow
    exact ⟨linkLimit, fun _ => rfl⟩
  · obtain ⟨left, hwalks⟩ := walks_of_follow hfollow
    exact ⟨left, (hwalks.keep ht).walk_append⟩

/-- A name that is there leads to its place in the directory, unless it is a link. -/
theorem follow_join (hname : FitsStep name) (hu : (p.join ⟨name⟩).IsUsable) {e : Entry}
    (he : t'.get? (dir ++ [name]) = some e) (hlink : ∀ target, e ≠ .link target) :
    t'.follow cwd (p.join ⟨name⟩) = .ok (dir ++ [name]) := by
  obtain ⟨left, hreach⟩ := h.reach_join ht hslash hname.nonempty hu
  rw [FileTree.follow, Path.walkSteps_join hslash hname.nonempty, hreach,
    walk_cons_of_some hname (ht.directory h.directory) he hlink, walk]
  rfl

/-- A name is the last step of its path, taken in the directory, unless it or the path is refused. -/
theorem lastStep_join_eq (hname : Path.IsStepName name) :
    t'.lastStep cwd (p.join ⟨name⟩) =
      ((p.join ⟨name⟩).refusalAt? name).elim (.ok (some (dir, name))) .error := by
  rw [lastStep, Path.steps_join hslash hname.nonempty, List.getLast?_concat, List.dropLast_concat,
    Path.refusalAt?]
  cases hrefusal : (p.join ⟨name⟩).refusal? with
  | some e =>
    rw [reach_of_refusal? hrefusal]
    rfl
  | none =>
    obtain ⟨left, hreach⟩ :=
      h.reach_join ht hslash hname.nonempty (Path.refusal?_eq_none_iff.mp hrefusal)
    have hdone := hreach []
    rw [List.append_nil, walk] at hdone
    rw [hdone, Option.none_or]
    simp only [bind, Except.bind]
    rw [if_neg (not_not.mpr (ht.directory h.directory)),
      if_neg (by simp [hname.ne_dot, hname.ne_up])]
    split <;> rfl

/-- Where neither is, it is. -/
theorem lastStep_join_of_isUsable (hname : FitsStep name) (hu : (p.join ⟨name⟩).IsUsable) :
    t'.lastStep cwd (p.join ⟨name⟩) = .ok (some (dir, name)) := by
  rw [h.lastStep_join_eq ht hslash hname.toIsStepName,
    Path.refusalAt?_eq_none_iff.mpr ⟨hu, hname.size⟩, Option.elim_none]

theorem lastStep_join (hname : Path.IsStepName name) :
    (∃ e, t'.lastStep cwd (p.join ⟨name⟩) = .error e) ∨
      t'.lastStep cwd (p.join ⟨name⟩) = .ok (some (dir, name)) := by
  rw [h.lastStep_join_eq ht hslash hname]
  cases (p.join ⟨name⟩).refusalAt? name with
  | some e => exact .inl ⟨e, rfl⟩
  | none => exact .inr rfl

end Leads

end FileTree

end ProtoScribe
