import ProtoScribe.Proofs.Storage.Links
import ProtoScribe.Proofs.Storage.Run

/-!
# Places that spelled paths lead to

A relative path may be spelled with dots, double dots and any number of slashes. In a tree without
links each of its steps leads to one place, whether anything is there or not (`place`). Where
directories stand at all these places, the path leads to the last of them; where one is missing and
nothing else is in the way, it leads nowhere.

Making the last directory needs those before it, and making all of them is tried along the paths
above, which leave out the dots at their ends. So all are made, in the order of the steps
(`makesPlace`), except where the path ends in dots behind a name that no step before it has made
(`Dangling`): the path above leaves out that name with the dots, and so nobody makes it.
-/

namespace ProtoScribe

/-- A relative path that the system takes, as it takes its steps: no NUL is in it, and neither it nor
one of its steps is too long. -/
structure Path.Spelled (p : Path) : Prop extends p.IsUsable where
  relative : p.isAbsolute = false
  sizes : ∀ s ∈ p.steps, s.utf8ByteSize ≤ nameLimit

namespace FileTree

open ProtoScribe.Path

variable {t t' : FileTree} {here cwd : Location} {budget : Nat} {s : String}
  {q steps rest dots : List String}

/-! ## Places -/

/-- Where a step leads, if what it names is a directory. -/
def advance (here : Location) (s : String) : Location :=
  if isIdle s then here else if s = ".." then here.dropLast else here ++ [s]

/-- Where some steps lead, if what they name are directories. -/
def place (here : Location) (steps : List String) : Location := steps.foldl advance here

/-- Nothing but directories stands at the places on the way. -/
def Clear (t : FileTree) (here : Location) (steps : List String) : Prop :=
  ∀ q, q <+: steps → ∀ e ∈ t.get? (place here q), e = .directory

/-- Directories stand at all of them. -/
def Paved (t : FileTree) (here : Location) (steps : List String) : Prop :=
  ∀ q, q <+: steps → t.get? (place here q) = some .directory

theorem place_concat : place here (q ++ [s]) = advance (place here q) s := by
  rw [place, List.foldl_append]
  rfl

theorem advance_of_name (hs : IsStepName s) : advance here s = here ++ [s] := by
  simp [advance, isIdle, hs.nonempty, hs.ne_dot, hs.ne_up]

theorem place_concat_of_name (hs : IsStepName s) : place here (q ++ [s]) = place here q ++ [s] := by
  rw [place_concat, advance_of_name hs]

/-- From a directory, all steps but names lead to directories. -/
theorem isStepName_of_advance (hd : t.get? here = some .directory)
    (hn : t.get? (advance here s) ≠ some .directory) : IsStepName s := by
  rw [advance] at hn
  split at hn
  · exact absurd hd hn
  next hidle =>
  split at hn
  · refine absurd ?_ hn
    rcases List.eq_nil_or_concat' here with rfl | ⟨l, x, rfl⟩
    · exact hd
    · rw [List.dropLast_concat]
      exact directory_of_directory hd
  · next hup =>
    obtain ⟨hne, hdot⟩ : s ≠ "" ∧ s ≠ "." := by simpa [isIdle] using hidle
    exact ⟨hne, hdot, hup⟩

theorem Clear.mono (h : t.Clear here steps) (hq : q <+: steps) : t.Clear here q :=
  fun x hx => h x (hx.trans hq)

theorem Paved.mono (h : t.Paved here steps) (hq : q <+: steps) : t.Paved here q :=
  fun x hx => h x (hx.trans hq)

theorem Paved.last (h : t.Paved here steps) : t.get? (place here steps) = some .directory :=
  h steps (List.prefix_refl steps)

theorem Paved.start (h : t.Paved here steps) : t.get? here = some .directory :=
  h [] List.nil_prefix

theorem paved_cons : t.Paved here (s :: rest) ↔
    t.get? here = some .directory ∧ t.Paved (advance here s) rest := by
  refine ⟨fun h => ⟨h.start, fun q hq => h (s :: q) (List.cons_prefix_cons.mpr ⟨rfl, hq⟩)⟩, ?_⟩
  rintro ⟨hd, h⟩ q hq
  cases q with
  | nil => exact hd
  | cons x q =>
    obtain ⟨rfl, hrest⟩ := List.cons_prefix_cons.mp hq
    exact h q hrest

theorem paved_concat : t.Paved here (q ++ [s]) ↔
    t.Paved here q ∧ t.get? (advance (place here q) s) = some .directory := by
  rw [← place_concat]
  refine ⟨fun h => ⟨h.mono (List.prefix_append q [s]), h.last⟩, ?_⟩
  rintro ⟨h, hd⟩ x hx
  rcases List.prefix_concat_iff.mp hx with rfl | hx
  · exact hd
  · exact h x hx

/-- Nothing is in the way where nothing is. -/
theorem clear_default (here : Location) (steps : List String) : Clear default here steps := by
  intro q _ e he
  by_cases hroot : place here q = []
  · rw [hroot] at he
    exact (Option.some.inj he).symm
  · rw [show get? default (place here q) = none from if_neg hroot] at he
    cases he

/-- Dots lead nowhere else. -/
theorem paved_append_dots (hdots : ∀ d ∈ dots, d = ".") :
    t.Paved here (q ++ dots) ↔ t.Paved here q := by
  induction dots using List.reverseRecOn with
  | nil => rw [List.append_nil]
  | append_singleton dots d ih =>
    obtain ⟨hfront, hlast⟩ := List.forall_mem_append.mp hdots
    obtain rfl := hlast d List.mem_cons_self
    rw [← List.append_assoc, paved_concat, show advance (place here (q ++ dots)) "."
      = place here (q ++ dots) from rfl, ih hfront, and_iff_left_iff_imp]
    exact fun h => ((ih hfront).mpr h).last

/-! ## Walks -/

theorem Clear.advance (h : t.Clear here (s :: rest)) : t.Clear (advance here s) rest :=
  fun q hq => h (s :: q) (List.cons_prefix_cons.mpr ⟨rfl, hq⟩)

/-- A walk takes the step to the directory that it leads to. -/
theorem walk_cons_of_advance (hsize : s.utf8ByteSize ≤ nameLimit)
    (hd : t.get? here = some .directory) (hn : t.get? (advance here s) = some .directory) :
    t.walk budget here (s :: rest) = t.walk budget (advance here s) rest := by
  by_cases hs : IsStepName s
  · rw [advance_of_name hs] at hn ⊢
    exact walk_cons_of_some ⟨hs, hsize⟩ hd hn nofun
  · rw [walk, if_neg (not_not.mpr hd), FileTree.advance]
    by_cases hidle : s = "" ∨ s = "."
    · rw [if_pos hidle, if_pos (by simpa [isIdle] using hidle)]
    · have hup : s = ".." := by
        by_contra hup
        exact hs ⟨fun h => hidle (.inl h), fun h => hidle (.inr h), hup⟩
      subst hup
      rfl

/-- A walk goes through directories. -/
theorem walk_of_paved (budget : Nat) (rest : List String) :
    ∀ {steps : List String} {here : Location}, (∀ s ∈ steps, s.utf8ByteSize ≤ nameLimit) →
      t.Paved here steps → t.walk budget here (steps ++ rest) = t.walk budget (place here steps) rest
  | [], _, _, _ => rfl
  | s :: steps, here, hsizes, h => by
    obtain ⟨hsize, hsizes⟩ := List.forall_mem_cons.mp hsizes
    obtain ⟨hd, h⟩ := paved_cons.mp h
    rw [List.cons_append, walk_cons_of_advance hsize hd h.start, walk_of_paved budget rest hsizes h]
    rfl

/-- Where one is missing, it ends there. -/
theorem walk_of_not_paved (budget : Nat) (rest : List String) :
    ∀ {steps : List String} {here : Location}, (∀ s ∈ steps, s.utf8ByteSize ≤ nameLimit) →
      t.get? here = some .directory → t.Clear here steps → ¬t.Paved here steps →
      t.walk budget here (steps ++ rest) = .error .notFound ∨
        ∃ dir name slash, t.walk budget here (steps ++ rest) = .ok (.missing dir name slash)
  | [], here, _, hd, _, h => by
    refine absurd (fun q hq => ?_) h
    rw [List.prefix_nil.mp hq]
    exact hd
  | s :: steps, here, hsizes, hd, hc, h => by
    obtain ⟨hsize, hsizes⟩ := List.forall_mem_cons.mp hsizes
    rw [List.cons_append]
    by_cases hn : t.get? (advance here s) = some .directory
    · rw [walk_cons_of_advance hsize hd hn]
      exact walk_of_not_paved budget rest hsizes hn hc.advance fun hp => h (paved_cons.mpr ⟨hd, hp⟩)
    · have hs := isStepName_of_advance hd hn
      have hnone : t.get? (here ++ [s]) = none := by
        rw [← advance_of_name hs]
        refine Option.eq_none_iff_forall_ne_some.mpr fun e he => hn ?_
        rw [he, hc.advance [] List.nil_prefix e he]
      rw [walk_cons_of_none ⟨hs, hsize⟩ hd hnone]
      split
      · exact .inr ⟨_, _, _, rfl⟩
      split
      · exact .inr ⟨_, _, _, rfl⟩
      · exact .inl rfl

section Spelled

variable {p : Path} (hp : p.Spelled)

include hp

/-- A path leads to the place of its steps, if directories stand on the way. -/
theorem follow_of_paved (hne : p.text ≠ "") (h : t.Paved cwd p.steps) :
    t.follow cwd p = .ok (place cwd p.steps) := by
  refine follow_eq_ok_iff.mpr ⟨hne, hp.toIsUsable, ?_⟩
  rw [hp.relative, if_neg Bool.false_ne_true, walkSteps, walk_of_paved _ _ hp.sizes h]
  split
  · rw [walk_slash, if_pos h.last]
  · rw [walk]

theorem entryAt?_of_paved (hne : p.text ≠ "") (h : t.Paved cwd p.steps) :
    t.entryAt? cwd p = some .directory := by
  rw [entryAt?, follow_of_paved hp hne h]
  exact h.last

theorem leads_of_paved (hne : p.text ≠ "") (h : t.Paved cwd p.steps) :
    t.Leads cwd p (place cwd p.steps) where
  follow := by rw [if_neg hne, follow_of_paved hp hne h]
  directory := h.last

/-- It leads nowhere if one of them is missing. -/
theorem entryAt?_of_not_paved (hcwd : t.get? cwd = some .directory) (hc : t.Clear cwd p.steps)
    (h : ¬t.Paved cwd p.steps) : t.entryAt? cwd p = none := by
  have hfollow : t.follow cwd p = .error .notFound := by
    rw [follow]
    by_cases hne : p.text = ""
    · rw [reach, if_pos hne]
      rfl
    rw [reach_of_isUsable hne hp.toIsUsable, hp.relative, if_neg Bool.false_ne_true, walkSteps]
    rcases walk_of_not_paved linkLimit (if p.endsInSlash then [""] else []) hp.sizes hcwd hc h with
      hw | ⟨dir, name, slash, hw⟩ <;> rw [hw] <;> rfl
  rw [entryAt?, hfollow]
  rfl

end Spelled

/-! ## What is made -/

/-- Directories stand at the places on the way, and all else is as before. -/
structure Paves (t t' : FileTree) (here : Location) (steps : List String) : Prop where
  paved : t'.Paved here steps
  elsewhere : ∀ l, (∀ q, q <+: steps → l ≠ place here q) → t'.get? l = t.get? l

namespace Paves

theorem refl (h : t.Paved here steps) : t.Paves t here steps := ⟨h, fun _ _ => rfl⟩

theorem trans {t'' : FileTree} (h : t.Paves t' here q) (h' : t'.Paves t'' here steps)
    (hq : q <+: steps) : t.Paves t'' here steps where
  paved := h'.paved
  elsewhere l hl := (h'.elsewhere l hl).trans (h.elsewhere l fun x hx => hl x (hx.trans hq))

/-- The directories are those that were there, and those on the way. -/
theorem get?_eq_directory_iff (h : t.Paves t' here steps) {l : Location} :
    t'.get? l = some .directory ↔
      t.get? l = some .directory ∨ ∃ q, q <+: steps ∧ place here q = l := by
  by_cases hon : ∃ q, q <+: steps ∧ place here q = l
  · obtain ⟨q, hq, rfl⟩ := hon
    exact ⟨fun _ => .inr ⟨q, hq, rfl⟩, fun _ => h.paved q hq⟩
  · rw [h.elsewhere l fun q hq hl => hon ⟨q, hq, hl.symm⟩]
    exact (or_iff_left hon).symm

/-- Nothing else comes to be there. -/
theorem get?_cases (h : t.Paves t' here steps) {l : Location} {e : Entry}
    (he : t'.get? l = some e) : e = .directory ∨ t.get? l = some e := by
  by_cases hon : ∃ q, q <+: steps ∧ place here q = l
  · obtain ⟨q, hq, rfl⟩ := hon
    cases (h.paved q hq).symm.trans he
    exact .inl rfl
  · rw [h.elsewhere l fun q hq hl => hon ⟨q, hq, hl.symm⟩] at he
    exact .inr he

theorem clear (h : t.Paves t' here q) (hc : t.Clear here steps) : t'.Clear here steps := by
  intro x hx e he
  rcases h.get?_cases he with rfl | he
  · rfl
  · exact hc x hx e he

theorem put (h : t.Paved here q) (hs : IsStepName s) (hn : t.get? (place here q ++ [s]) = none) :
    t.Paves (t.put (place here q) s .directory) here (q ++ [s]) := by
  have hget := get?_put (isFree_of_none h.last hn) .directory
  refine ⟨paved_concat.mpr ⟨fun x hx => ?_, ?_⟩, fun l hl => ?_⟩
  · rw [hget, h x hx, ite_self]
  · rw [advance_of_name hs, hget, if_pos rfl]
  · rw [hget, if_neg]
    rw [← place_concat_of_name hs]
    exact hl _ (List.prefix_refl _)

end Paves

/-! ## Dots behind a missing name -/

/-- Steps that end in dots behind a name at whose place no directory is, and to which no step before
it has led. -/
def Dangling (t : FileTree) (here : Location) (steps : List String) : Prop :=
  ∃ first name dots, steps = first ++ name :: dots ∧ IsStepName name ∧ dots ≠ [] ∧
    (∀ d ∈ dots, d = ".") ∧ t.get? (place here first ++ [name]) ≠ some .directory ∧
    ∀ q, q <+: first → place here q ≠ place here first ++ [name]

/-- The last step that is no dot stands at one place. -/
theorem append_dots_inj {first first' dots' : List String} {s' : String} (hs : s ≠ ".")
    (hs' : s' ≠ ".") (hdots : ∀ d ∈ dots, d = ".") (hdots' : ∀ d ∈ dots', d = ".")
    (h : first ++ s :: dots = first' ++ s' :: dots') : first = first' ∧ s = s' ∧ dots = dots' := by
  rcases List.append_eq_append_iff.mp h with ⟨between, rfl, hrest⟩ | ⟨between, rfl, hrest⟩
  · cases between with
    | nil =>
      cases hrest
      exact ⟨(List.append_nil _).symm, rfl, rfl⟩
    | cons x between =>
      cases hrest
      exact absurd (hdots s' (by simp)) hs'
  · cases between with
    | nil =>
      cases hrest
      exact ⟨List.append_nil _, rfl, rfl⟩
    | cons x between =>
      cases hrest
      exact absurd (hdots' s (by simp)) hs

/-- Steps that do not end in a dot do not dangle. -/
theorem not_dangling_of_ne (h : ∀ front x, steps ≠ front ++ [x, "."]) : ¬t.Dangling here steps := by
  rintro ⟨first, name, dots, rfl, -, hne, hdots, -⟩
  rcases List.eq_nil_or_concat' dots with rfl | ⟨dots, d, rfl⟩
  · exact hne rfl
  obtain rfl := hdots d (by simp)
  rcases List.eq_nil_or_concat' (first ++ name :: dots) with hnil | ⟨front, x, hfront⟩
  · simp at hnil
  · refine h front x ?_
    rw [← List.cons_append, ← List.append_assoc, hfront, List.append_assoc]
    rfl

/-- Nor do steps to the last of which directories lead. -/
theorem not_dangling_of_paved (h : t.Paved here steps.dropLast) : ¬t.Dangling here steps := by
  rintro ⟨first, name, dots, rfl, hname, hne, -, hnone, -⟩
  refine hnone ?_
  rw [← place_concat_of_name hname]
  refine h _ ?_
  rw [List.dropLast_append_of_ne_nil (List.cons_ne_nil name dots),
    List.dropLast_cons_of_ne_nil hne, List.append_cons first name dots.dropLast]
  exact List.prefix_append _ _

/-- Once the steps before the last that is no dot are paved, all but the last step are, unless the
path dangles. -/
theorem Paves.paved_dropLast_iff (h : t.Paves t' here q) (hs : s = "." → q = [])
    (hdots : ∀ d ∈ dots, d = ".") :
    t'.Paved here (q ++ s :: dots).dropLast ↔ ¬t.Dangling here (q ++ s :: dots) := by
  rw [List.dropLast_append_of_ne_nil (List.cons_ne_nil s dots)]
  by_cases hne : dots = []
  · -- The step is the last one.
    subst hne
    refine iff_of_true (by simpa using h.paved) (not_dangling_of_ne fun front x he => ?_)
    rw [List.append_cons front x] at he
    obtain rfl := List.singleton_inj.mp (List.append_inj_right' he rfl)
    simpa [hs rfl] using congrArg List.length he
  rw [List.dropLast_cons_of_ne_nil hne, List.append_cons,
    paved_append_dots fun d hd => hdots d (List.dropLast_subset dots hd), paved_concat,
    and_iff_right h.paved]
  by_cases hname : IsStepName s
  · rw [advance_of_name hname, h.get?_eq_directory_iff]
    constructor
    · rintro hthere ⟨first, name, dots', hsplit, hname', -, hdots', hnone, hnot⟩
      obtain ⟨rfl, rfl, -⟩ := append_dots_inj hname.ne_dot hname'.ne_dot hdots hdots' hsplit
      rcases hthere with hthere | ⟨x, hx, hthere⟩
      · exact hnone hthere
      · exact hnot x hx hthere
    · intro hfree
      by_contra hthere
      rw [not_or] at hthere
      exact hfree ⟨q, s, dots, rfl, hname, hne, hdots, hthere.1, fun x hx he =>
        hthere.2 ⟨x, hx, he⟩⟩
  · refine iff_of_true (by_contra fun hn => hname (isStepName_of_advance h.paved.last hn)) ?_
    rintro ⟨first, name, dots', hsplit, hname', -, hdots', -⟩
    by_cases hdot : s = "."
    · -- All steps are dots.
      obtain rfl := hs hdot
      rw [List.nil_append] at hsplit
      have hmem : name ∈ s :: dots := hsplit ▸ List.mem_append_right first List.mem_cons_self
      rcases List.mem_cons.mp hmem with rfl | hmem
      · exact hname'.ne_dot hdot
      · exact hname'.ne_dot (hdots name hmem)
    · obtain ⟨-, rfl, -⟩ := append_dots_inj hdot hname'.ne_dot hdots hdots' hsplit
      exact hname hname'

/-! ## One directory -/

section One

variable {p : Path} (hp : p.Spelled) (hs : p.steps = q ++ [s])

include hs

theorem text_ne_empty_of_concat : p.text ≠ "" := by
  intro he
  obtain rfl : p = ⟨""⟩ := by rw [← he]
  exact absurd hs.symm (List.concat_ne_nil s q)

include hp

/-- The last directory of a path is made where the others are, unless it is there. -/
theorem makeDirectory_of_paved (hq : t.Paved cwd q) : t.makeDirectory cwd p =
    if IsStepName s then
      if (t.get? (place cwd q ++ [s])).isSome then .error .alreadyExists
      else .ok (t.put (place cwd q) s .directory)
    else .error .alreadyExists := by
  have hsizes : ∀ x ∈ q, x.utf8ByteSize ≤ nameLimit := fun x hx => hp.sizes x (by simp [hs, hx])
  have hw : t.walk linkLimit cwd q = .ok (.place (place cwd q)) := by
    rw [← List.append_nil q, walk_of_paved _ _ hsizes hq, walk]
    rw [List.append_nil]
  have hne : s ≠ "" := by
    have hmem : s ∈ p.steps := by simp [hs]
    simpa [steps] using (List.mem_filter.mp hmem).2
  rw [makeDirectory, lastStep_of_relative hp.relative (text_ne_empty_of_concat hs) hp.toIsUsable hs,
    hw]
  dsimp only
  rw [if_neg (not_not.mpr hq.last)]
  by_cases hname : IsStepName s
  · rw [if_pos hname, if_neg (by simp [hname.ne_dot, hname.ne_up]),
      if_neg (Nat.not_lt.mpr (hp.sizes s (by simp [hs])))]
    rfl
  · rw [if_neg hname, if_pos]
    · rfl
    · by_contra hdots
      rw [not_or] at hdots
      exact hname ⟨hne, hdots.1, hdots.2⟩

/-- Without the others it is not made. -/
theorem makeDirectory_of_not_paved (hcwd : t.get? cwd = some .directory) (hc : t.Clear cwd q)
    (hq : ¬t.Paved cwd q) : t.makeDirectory cwd p = .error .notFound := by
  have hsizes : ∀ x ∈ q, x.utf8ByteSize ≤ nameLimit := fun x hx => hp.sizes x (by simp [hs, hx])
  rw [makeDirectory, lastStep_of_relative hp.relative (text_ne_empty_of_concat hs) hp.toIsUsable hs,
    ← List.append_nil q]
  rcases walk_of_not_paved linkLimit [] hsizes hcwd hc hq with hw | ⟨dir, name, slash, hw⟩ <;>
    rw [hw] <;> rfl

end One

end FileTree

namespace World

open FileTree ProtoScribe.Path

variable {w : World} {p : Path}

/-! ## All directories -/

section One

variable {q : List String} {s : String} (hp : p.Spelled) (hs : p.steps = q ++ [s])
  (hc : w.tree.Clear w.cwd p.steps)

include hp hs hc

/-- Where the others are there, a try at the last directory leaves it there. -/
theorem settle_makeDirectory_of_paved (hq : w.tree.Paved w.cwd q) :
    ∃ outcome w' tree, host.makeDirectory p w = (outcome, w') ∧ outcome ≠ .error .notFound ∧
      host.settleDirectory p outcome w' = (.ok (), { w with tree }) ∧
      w.tree.Paves tree w.cwd p.steps := by
  have hm := makeDirectory_of_paved hp hs hq
  by_cases hpaved : w.tree.Paved w.cwd p.steps
  · have hthere : w.tree.makeDirectory w.cwd p = .error .alreadyExists := by
      have hlast := hpaved.last
      rw [hm]
      split
      · next hname =>
        rw [hs, place_concat_of_name hname] at hlast
        rw [if_pos (by rw [hlast]; rfl)]
      · rfl
    refine ⟨_, _, w.tree, makeDirectory_of_error hthere, by simp, ?_, .refl hpaved⟩
    rw [settleDirectory_of_error, if_pos (entryAt?_of_paved hp (text_ne_empty_of_concat hs) hpaved)]
  · -- It is missing, so it is a name that nothing has.
    have hlast : w.tree.get? (advance (place w.cwd q) s) ≠ some .directory := by
      rw [hs, paved_concat, not_and] at hpaved
      exact hpaved hq
    have hname := isStepName_of_advance hq.last hlast
    rw [advance_of_name hname] at hlast
    have hnone : w.tree.get? (place w.cwd q ++ [s]) = none := by
      refine Option.eq_none_iff_forall_ne_some.mpr fun e he => hlast ?_
      rw [hs] at hc
      rw [he, hc _ (List.prefix_refl _) e (by rw [place_concat_of_name hname]; exact he)]
    rw [if_pos hname, hnone, if_neg (by simp)] at hm
    refine ⟨_, _, _, makeDirectory_of_ok hm, by simp, rfl, ?_⟩
    rw [hs]
    exact .put hq hname hnone

/-- Where they are not, it fails for want of them. -/
theorem settle_makeDirectory_of_not_paved (hcwd : w.tree.get? w.cwd = some .directory)
    (hq : ¬w.tree.Paved w.cwd q) : host.makeDirectory p w = (.error .notFound, w) ∧
      host.settleDirectory p (.error .notFound) w = (.error .notFound, w) := by
  have hfront : q <+: p.steps := hs ▸ List.prefix_append q [s]
  refine ⟨makeDirectory_of_error (makeDirectory_of_not_paved hp hs hcwd (hc.mono hfront) hq), ?_⟩
  rw [settleDirectory_of_error,
    entryAt?_of_not_paved hp hcwd hc fun hpaved => hq (hpaved.mono hfront), if_neg (by simp)]

end One

/-- Making all directories of a path paves its steps, unless they dangle. -/
structure MakesPlace (w : World) (p : Path) : Prop where
  made : ¬w.tree.Dangling w.cwd p.steps → ∃ tree,
    host.makeDirectoryAll p w = (.ok (), { w with tree }) ∧ w.tree.Paves tree w.cwd p.steps
  failed : w.tree.Dangling w.cwd p.steps → ∃ w',
    host.makeDirectoryAll p w = (.error .notFound, w')

/-- The paths above are made first, the outermost of them before all others. -/
theorem makesPlace {p : Path} (hcwd : w.tree.get? w.cwd = some .directory) (hp : p.Spelled)
    (hc : w.tree.Clear w.cwd p.steps) : w.MakesPlace p := by
  by_cases hne : p.text = ""
  · have hsteps := (steps_eq_nil_iff hp.relative).mpr hne
    refine ⟨fun _ => ⟨w.tree, makeDirectories_of_empty p.parents hne, ?_⟩, fun h => ?_⟩
    · rw [hsteps]
      exact .refl fun q hq => by rw [List.prefix_nil.mp hq]; exact hcwd
    · refine absurd h (not_dangling_of_ne fun front x he => ?_)
      rw [hsteps] at he
      simpa using congrArg List.length he
  obtain ⟨parent, before, after, s, hparents, hrel, htrim, hsteps, hbefore, hafter, hdot,
    hprefix⟩ :=
    exists_parent_of_relative hp.relative hne
  rcases List.eq_nil_or_concat' p.steps with hnil | ⟨q, last, hs⟩
  · simp [hsteps] at hnil
  have hq : p.steps.dropLast = q := by rw [hs, List.dropLast_concat]
  by_cases hpaved : w.tree.Paved w.cwd q
  · obtain ⟨outcome, w', tree, hm, ho, hsettle, hpaves⟩ :=
      settle_makeDirectory_of_paved hp hs hc hpaved
    exact ⟨fun _ => ⟨tree, (makeDirectories_of_outcome hne ho hm).trans hsettle, hpaves⟩,
      fun hd => absurd hd (not_dangling_of_paved (hq ▸ hpaved))⟩
  obtain ⟨hfirst, -⟩ := settle_makeDirectory_of_not_paved hp hs hc hcwd hpaved
  -- The path above takes fewer steps, and does not dangle.
  have hfront : parent.steps <+: p.steps := by
    rw [hsteps, List.append_assoc]
    exact List.prefix_append _ _
  have hshorter : parent.steps.length < p.steps.length := by
    rw [hsteps]
    simp only [List.length_append, List.length_cons]
    omega
  have hparent : parent.Spelled :=
    ⟨hp.toIsUsable.of_isPrefix hprefix, hrel, fun x hx => hp.sizes x (hfront.subset hx)⟩
  obtain ⟨tree, hrun, hpaves⟩ := (makesPlace hcwd hparent (hc.mono hfront)).made
    (not_dangling_of_ne htrim)
  rw [Host.makeDirectoryAll, ← hparents] at hrun
  have hpaves : w.tree.Paves tree w.cwd (parent.steps ++ before) :=
    hpaves.trans (.refl ((paved_append_dots hbefore).mpr hpaves.paved)) (List.prefix_append _ _)
  have hiff := hpaves.paved_dropLast_iff hdot hafter
  rw [← hsteps, hq] at hiff
  let w₁ : World := { w with tree }
  have hc₁ : w₁.tree.Clear w₁.cwd p.steps := hpaves.clear hc
  have hagain := makeDirectories_of_notFound hne hfirst hrun
  refine ⟨fun hd => ?_, fun hd => ?_⟩
  · obtain ⟨outcome, w', tree', hm, -, hsettle, hpaves'⟩ :=
      settle_makeDirectory_of_paved (w := w₁) hp hs hc₁ (hiff.mpr hd)
    refine ⟨tree', ?_, hpaves.trans hpaves' ?_⟩
    · rw [Host.makeDirectoryAll, hagain, hm, hsettle]
    · rw [hsteps]
      exact List.prefix_append _ _
  · obtain ⟨hm, hsettle⟩ := settle_makeDirectory_of_not_paved (w := w₁) hp hs hc₁
      (hpaves.paved.mono (List.nil_prefix)).start fun hq => hiff.mp hq hd
    exact ⟨w₁, by rw [Host.makeDirectoryAll, hagain, hm, hsettle]⟩
termination_by p.steps.length

end World

end ProtoScribe
