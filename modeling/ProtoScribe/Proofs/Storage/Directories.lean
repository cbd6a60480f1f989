import ProtoScribe.Proofs.Storage.Obstacles
import ProtoScribe.Proofs.Storage.Run

/-!
# Making directories along a path

Making the directory of a plain path makes all that are missing on the way to it and nothing else,
up to the first name that cannot have a directory (`makesFront`). A file in the way is found before
anything has been made (`makeDirectoryAll_of_blocked`), a name that is too long only behind the
directories that were missing before it.

The induction is on the names of the path. A directory whose parent is missing is tried first,
fails, and is made after the parent, so the parent's case is what the induction hands over.
-/

namespace ProtoScribe

namespace FileTree

open Holdings ProtoScribe.Path

variable {t t' : FileTree} {here cwd : Location} {p : Path} {q rest steps : List String}
  {s : String}

/-! ## What is made -/

/-- Directories stand along the names, and all else is as before. -/
structure MadeAlong (t t' : FileTree) (here : Location) (steps : List String) : Prop where
  directory : ∀ q, q <+: steps → t'.get? (here ++ q) = some .directory
  elsewhere : ∀ l, (∀ q, q <+: steps → l ≠ here ++ q) → t'.get? l = t.get? l

/-- Nothing is left to be made where a directory is. -/
theorem madeAlong_self (h : t.get? (here ++ steps) = some .directory) :
    t.MadeAlong t here steps where
  directory q hq := by
    obtain ⟨m, rfl⟩ := hq
    rw [← List.append_assoc] at h
    exact directory_of_directory h
  elsewhere _ _ := rfl

/-- A place beyond names is none on the way along them. -/
theorem concat_ne_append (hq : q <+: steps) : here ++ steps ++ [s] ≠ here ++ q := by
  intro he
  have hlen := congrArg List.length he
  simp only [List.length_append, List.length_singleton] at hlen
  have := hq.length_le
  omega

/-- What lies beyond the names is as before. -/
theorem MadeAlong.get?_concat (h : t.MadeAlong t' here q) :
    t'.get? (here ++ q ++ [s]) = t.get? (here ++ q ++ [s]) :=
  h.elsewhere _ fun _ hq => concat_ne_append hq

/-- One more directory, where nothing was, continues those along the names. -/
theorem MadeAlong.put (h : t.MadeAlong t' here q) (hn : t'.get? (here ++ q ++ [s]) = none) :
    t.MadeAlong (t'.put (here ++ q) s .directory) here (q ++ [s]) := by
  have hfree := isFree_of_none (h.directory q (List.prefix_refl q)) hn
  refine ⟨fun q' hq' => ?_, fun l hl => ?_⟩
  · rw [get?_put hfree]
    split
    · rfl
    · next hne =>
      rcases List.prefix_concat_iff.mp hq' with rfl | hq'
      · exact absurd (List.append_assoc ..).symm hne
      · exact h.directory q' hq'
  · rw [get?_put hfree, if_neg (by rw [List.append_assoc]; exact hl _ (List.prefix_refl _))]
    exact h.elsewhere l fun q' hq' => hl q' (hq'.trans (List.prefix_append q [s]))

/-- Directories that are made one after the other are made together. -/
theorem MadeAlong.trans {t'' : FileTree} (h : t.MadeAlong t' here q)
    (h' : t'.MadeAlong t'' here steps) (hq : q <+: steps) : t.MadeAlong t'' here steps where
  directory := h'.directory
  elsewhere l hl := (h'.elsewhere l hl).trans (h.elsewhere l fun q' hq' => hl q' (hq'.trans hq))

theorem MadeAlong.noLinks (h : t.MadeAlong t' here steps) (hl : t.NoLinks) :
    t'.NoLinks := by
  intro l target he
  by_cases hon : ∃ q, q <+: steps ∧ l = here ++ q
  · obtain ⟨q, hq, rfl⟩ := hon
    cases (h.directory q hq).symm.trans he
  · rw [h.elsewhere l fun q hq hlq => hon ⟨q, hq, hlq⟩] at he
    exact hl l target he

/-! ## One directory -/

section One

variable (hp : p.IsPlain) (hu : p.IsUsable) (hs : p.steps = q ++ [s])

include hp hu hs

/-- A directory can be made in one that is there, unless its name is too long or taken. -/
theorem makeDirectory_of_directory (hq : ∀ x ∈ q, FitsStep x)
    (hd : t.get? (cwd ++ q) = some .directory) :
    t.makeDirectory cwd p =
      if nameLimit < s.utf8ByteSize then .error .nameTooLong
      else if (t.get? (cwd ++ q ++ [s])).isSome then .error .alreadyExists
      else .ok (t.put (cwd ++ q) s .directory) := by
  have hw : t.walk linkLimit cwd q = .ok (.place (cwd ++ q)) := by
    rw [← List.append_nil q, walk_of_directory hq hd, walk, List.append_nil]
  rw [makeDirectory, lastStep_eq_walk hp hu hs, hw]
  dsimp only
  rw [if_neg (not_not.mpr hd)]
  split
  · rfl
  · simp only [bind, Except.bind]
    rfl

/-- Beyond a name that is not clear no directory is made. -/
theorem makeDirectory_of_obstacle {first : List String} {x : String} (hl : t.NoLinks)
    (hfirst : ∀ y ∈ first, FitsStep y) (hd : t.get? (cwd ++ first) = some .directory)
    (hq : q = first ++ x :: rest) (hx : ¬IsClear t.get? (cwd ++ first) x) :
    t.makeDirectory cwd p = .error (obstacle x (rest ++ [s])) := by
  have hname : IsStepName x := hp.names x (by simp [hs, hq])
  suffices h : t.lastStep cwd p = .error (obstacle x (rest ++ [s])) by
    rw [makeDirectory, h]
    rfl
  have hrest : rest ++ [s] ≠ [] := by simp
  unfold obstacle
  rw [lastStep_eq_walk hp hu hs, hq, walk_of_directory hfirst hd, if_neg hrest]
  by_cases hlong : nameLimit < x.utf8ByteSize
  · rw [walk_cons_of_long hname hd hlong, if_pos hlong]
  · rw [if_neg hlong]
    have hfits : FitsStep x := ⟨hname, Nat.not_lt.mp hlong⟩
    cases he : t.get? (cwd ++ first ++ [x]) with
    | none => exact absurd ⟨hfits.size, .inl he⟩ hx
    | some e =>
      have hnot : t.get? (cwd ++ first ++ [x]) ≠ some .directory :=
        fun hdir => hx ⟨hfits.size, .inr hdir⟩
      rw [walk_cons_of_some hfits hd he fun target h => hl _ target (h ▸ he)]
      -- The walk gets to what has the name, but no further.
      cases rest with
      | nil =>
        rw [walk]
        exact if_pos hnot
      | cons y rest => rw [walk_cons_of_not_directory hnot]

/-- Nor is one beyond a name that is missing. -/
theorem makeDirectory_of_missing {first : List String} (hcwd : t.get? cwd = some .directory)
    (hfirst : ∀ y ∈ first, FitsStep y) (hb : ¬t.Blocked cwd first)
    (hn : t.get? (cwd ++ first) = none) (hq : q = first ++ rest) :
    t.makeDirectory cwd p = .error .notFound := by
  rw [makeDirectory, lastStep_eq_walk hp hu hs, hq]
  rcases walk_of_none linkLimit rest hfirst hcwd hb hn with hw | ⟨dir, name, slash, hw⟩ <;>
    rw [hw] <;> rfl

end One

end FileTree

namespace World

open FileTree Holdings ProtoScribe.Path

variable {w : World} {p : Path}

/-! ## All directories -/

/-- What could not be made is not there, unless its names are all clear. -/
theorem settleDirectory_of_obstacle (hl : w.tree.NoLinks) (hp : p.IsPlain)
    (h : front w.tree.get? w.cwd p.steps ≠ p.steps) (e : Errno) :
    host.settleDirectory p (.error e) w = (.error e, w) := by
  rw [settleDirectory_of_error, if_neg]
  intro hentry
  obtain ⟨-, hfits, hd, -⟩ := (entryAt?_eq_some_iff hl hp).mp hentry
  exact h (front_of_directory hfits.sizes hd)

/-- Where the others are there, the last directory is made, or was there, unless its name is not
clear. In either case its parents need not be tried. -/
theorem settle_makeDirectory {q : List String} {s : String} (hl : w.tree.NoLinks) (hp : p.IsPlain)
    (hu : p.IsUsable) (hs : p.steps = q ++ [s])
    (hq : ∀ x ∈ q, FitsStep x) (hd : w.tree.get? (w.cwd ++ q) = some .directory) :
    ∃ outcome w' tree, host.makeDirectory p w = (outcome, w') ∧ outcome ≠ .error .notFound ∧
      host.settleDirectory p outcome w'
        = (if IsClear w.tree.get? (w.cwd ++ q) s then .ok () else .error (obstacle s []),
            { w with tree }) ∧
      w.tree.MadeAlong tree w.cwd
        (if IsClear w.tree.get? (w.cwd ++ q) s then q ++ [s] else q) ∧
      (w.tree.get? (w.cwd ++ if IsClear w.tree.get? (w.cwd ++ q) s then q ++ [s] else q)
        = some .directory → tree = w.tree) := by
  have hm := makeDirectory_of_directory hp hu hs hq hd
  by_cases hclear : IsClear w.tree.get? (w.cwd ++ q) s
  · simp only [if_pos hclear]
    rw [if_neg (Nat.not_lt.mpr hclear.size)] at hm
    rcases hclear.place with hnone | hdir
    · rw [hnone, if_neg (by simp)] at hm
      refine ⟨_, _, _, makeDirectory_of_ok hm, by simp, rfl, (madeAlong_self hd).put hnone,
        fun hthere => ?_⟩
      rw [← List.append_assoc, hnone] at hthere
      cases hthere
    · -- The directory was there already, which settles it.
      have hthere : w.tree.get? (w.cwd ++ p.steps) = some .directory := by
        rw [hs, ← List.append_assoc, hdir]
      have hfits : p.Fits := by
        refine ⟨hp, hu, ?_⟩
        rw [hs, List.forall_mem_append]
        exact ⟨fun x hx => (hq x hx).size, by simpa using hclear.size⟩
      have hentry := (entryAt?_eq_some_iff hl hp).mpr
        ⟨text_ne_empty_of_steps hp hs, hfits, hthere, fun _ => rfl⟩
      rw [hdir, if_pos (by simp)] at hm
      refine ⟨_, _, w.tree, makeDirectory_of_error hm, by simp, ?_, madeAlong_self (hs ▸ hthere),
        fun _ => rfl⟩
      rw [settleDirectory_of_error, if_pos hentry]
  · simp only [if_neg hclear]
    have hrefused : w.tree.makeDirectory w.cwd p = .error (obstacle s []) := by
      unfold obstacle
      rw [if_pos rfl, hm]
      by_cases hlong : nameLimit < s.utf8ByteSize
      · rw [if_pos hlong, if_pos hlong]
      · rw [if_neg hlong, if_neg hlong, if_pos]
        by_contra hfree
        exact hclear ⟨Nat.not_lt.mp hlong, .inl (Option.not_isSome_iff_eq_none.mp hfree)⟩
    have hfront : front w.tree.get? w.cwd p.steps ≠ p.steps := by
      have hall : front w.tree.get? w.cwd q = q :=
        front_of_directory (fun x hx => (hq x hx).size) hd
      rw [hs, front_concat_of_front hall, if_neg hclear]
      simp
    exact ⟨_, _, w.tree, makeDirectory_of_error hrefused, by simp [obstacle_ne_notFound],
      settleDirectory_of_obstacle hl hp hfront _, madeAlong_self hd, fun _ => rfl⟩

/-- Directories are made along a plain path up to the first name that is not clear; if there is one,
it says why the last directory could not be made. Where all of them were there, nothing is made. -/
def MakesFront (w : World) (p : Path) : Prop :=
  ∃ tree, host.makeDirectoryAll p w
      = ((obstacle? w.tree.get? w.cwd p.steps).elim (.ok ()) .error, { w with tree }) ∧
    w.tree.MadeAlong tree w.cwd (front w.tree.get? w.cwd p.steps) ∧
    (w.tree.get? (w.cwd ++ front w.tree.get? w.cwd p.steps) = some .directory → tree = w.tree)

section Parent

variable {parent : Path} {q : List String} {s : String} (hl : w.tree.NoLinks)
  (hcwd : w.tree.get? w.cwd = some .directory) (hp : p.IsPlain)
  (hu : p.IsUsable) (hs : p.steps = q ++ [s])
  (hparents : p.parents = parent :: parent.parents) (hsteps : parent.steps = q)
  (hparent : w.MakesFront parent)

include hl hcwd hp hu hs hparents hsteps hparent

/-- Where the names of the parent are clear, the last name decides. -/
theorem MakesFront.of_front (hq : front w.tree.get? w.cwd q = q) : w.MakesFront p := by
  obtain ⟨tree, hrun, hmade, -⟩ := hparent
  have hne := text_ne_empty_of_steps hp hs
  have hnames : ∀ x ∈ q, IsStepName x := fun x hx => hp.names x (by simp [hs, hx])
  have hfits : ∀ x ∈ q, FitsStep x := hq ▸ front_fits hnames
  have hfree : ¬w.tree.Blocked w.cwd q := hq ▸ not_blocked_front hcwd
  have hresult : (obstacle? w.tree.get? w.cwd (q ++ [s])).elim (.ok ()) Except.error
      = if IsClear w.tree.get? (w.cwd ++ q) s then .ok () else .error (obstacle s []) := by
    have hfront := front_concat_of_front (s := s) hq
    split at hfront
    · next hclear => rw [obstacle?_of_front hfront, if_pos hclear, Option.elim_none]
    · next hclear => rw [obstacle?_of_cons (by rw [hfront]), if_neg hclear, Option.elim_some]
  unfold MakesFront
  rw [hs, hresult, front_concat_of_front hq]
  by_cases hd : w.tree.get? (w.cwd ++ q) = some .directory
  · obtain ⟨outcome, w', tree', hm, ho, hsettle, hmade', hsame⟩ :=
      settle_makeDirectory hl hp hu hs hfits hd
    exact ⟨tree', (makeDirectories_of_outcome hne ho hm).trans hsettle, hmade', hsame⟩
  · -- The others have to be made first, so the last one is tried twice.
    have hnone := get?_eq_none_of_not_blocked hfree hd
    have hfirst := makeDirectory_of_error
      (makeDirectory_of_missing hp hu hs hcwd hfits hfree hnone (List.append_nil q).symm)
    rw [hsteps, hq] at hmade
    rw [hsteps, obstacle?_of_front hq, Option.elim_none] at hrun
    obtain ⟨outcome, w', tree', hm, -, hsettle, hmade', -⟩ :=
      settle_makeDirectory (w := { w with tree }) (hmade.noLinks hl) hp hu hs hfits
        (hmade.directory q (List.prefix_refl q))
    have hsame : IsClear tree.get? (w.cwd ++ q) s ↔ IsClear w.tree.get? (w.cwd ++ q) s := by
      refine ⟨fun ⟨h₁, h₂⟩ => ⟨h₁, ?_⟩, fun ⟨h₁, h₂⟩ => ⟨h₁, ?_⟩⟩
      · rwa [hmade.get?_concat] at h₂
      · rwa [hmade.get?_concat]
    simp only [hsame] at hsettle hmade'
    refine ⟨tree', ?_, hmade.trans hmade' ?_, fun hthere => absurd ?_ hd⟩
    · rw [Host.makeDirectoryAll, hparents]
      refine (makeDirectories_of_notFound hne hfirst hrun).trans ?_
      rw [hm, hsettle]
    · split
      · exact List.prefix_append q [s]
      · exact List.prefix_refl q
    · split at hthere
      · rw [← List.append_assoc] at hthere
        exact directory_of_directory hthere
      · exact hthere

/-- Where one of them is not, it is in the way of the last one, too. -/
theorem MakesFront.of_cons {x : String} {rest : List String}
    (hq : q = front w.tree.get? w.cwd q ++ x :: rest)
    (hx : ¬IsClear w.tree.get? (w.cwd ++ front w.tree.get? w.cwd q) x) : w.MakesFront p := by
  obtain ⟨tree, hrun, hmade, -⟩ := hparent
  have hne := text_ne_empty_of_steps hp hs
  have hnames : ∀ x ∈ q, IsStepName x := fun x hx => hp.names x (by simp [hs, hx])
  have hfits : ∀ y ∈ front w.tree.get? w.cwd q, FitsStep y := front_fits hnames
  have hcons : q ++ [s] = front w.tree.get? w.cwd q ++ x :: (rest ++ [s]) := by
    conv_lhs => rw [hq]
    simp
  have hsame := front_concat_of_cons (s := s) hq
  unfold MakesFront
  rw [hs, obstacle?_of_cons (by rw [hsame, ← hcons]), Option.elim_some, hsame]
  rw [hsteps, obstacle?_of_cons hq, Option.elim_some] at hrun
  by_cases hd : w.tree.get? (w.cwd ++ front w.tree.get? w.cwd q) = some .directory
  · have hm := makeDirectory_of_error (makeDirectory_of_obstacle hp hu hs hl hfits hd hq hx)
    have hfront : front w.tree.get? w.cwd p.steps ≠ p.steps := by
      rw [hs, hsame, hcons]
      simp
    refine ⟨w.tree, ?_, madeAlong_self hd, fun _ => rfl⟩
    exact (makeDirectories_of_outcome hne (by simp [obstacle_ne_notFound]) hm).trans
      (settleDirectory_of_obstacle hl hp hfront _)
  · -- Nothing has been found there, so only the length of the name can be in the way.
    have hfree : ¬w.tree.Blocked w.cwd (front w.tree.get? w.cwd q) := not_blocked_front hcwd
    have hnone := get?_eq_none_of_not_blocked hfree hd
    have hlong : nameLimit < x.utf8ByteSize := by
      by_contra hshort
      exact hd (directory_of_not_isClear (Nat.not_lt.mp hshort) hx)
    have hfirst := makeDirectory_of_error
      (makeDirectory_of_missing hp hu hs hcwd hfits hfree hnone hq)
    simp only [obstacle, if_pos hlong] at hrun ⊢
    refine ⟨tree, ?_, hsteps ▸ hmade, fun hthere => absurd hthere hd⟩
    rw [Host.makeDirectoryAll, hparents]
    exact makeDirectories_of_notFound_of_error hne hfirst hrun

end Parent

/-- **How far directories are made.** Along a plain path, directories stand up to the first name
that is not clear, and all else is as before. If there is such a name, it is why the last directory
could not be made. -/
theorem makesFront (hl : w.tree.NoLinks) (hcwd : w.tree.get? w.cwd = some .directory)
    (hp : p.IsPlain) (hu : p.IsUsable) : w.MakesFront p := by
  induction hs : p.steps using List.reverseRecOn generalizing p with
  | nil =>
    have he := (steps_eq_nil_iff hp.relative).mp hs
    unfold MakesFront
    rw [hs]
    refine ⟨w.tree, makeDirectories_of_empty _ he, madeAlong_self ?_, fun _ => rfl⟩
    rw [front, List.append_nil, hcwd]
  | append_singleton q s ih =>
    obtain ⟨parent, hparents, hplain, hsteps, hprefix⟩ :=
      hp.exists_parent (text_ne_empty_of_steps hp hs)
    rw [hs, List.dropLast_concat] at hsteps
    have hparent := ih hplain (hu.of_isPrefix hprefix) hsteps
    rcases front_cases w.tree.get? w.cwd q with hq | ⟨x, rest, hq, hx⟩
    · exact .of_front hl hcwd hp hu hs hparents hsteps hparent hq
    · exact .of_cons hl hcwd hp hu hs hparents hsteps hparent hq hx

/-- Where nothing is in the way, the directories along a plain path are made. -/
theorem makeDirectoryAll_of_not_blocked (hl : w.tree.NoLinks)
    (hcwd : w.tree.get? w.cwd = some .directory) (hp : p.Fits)
    (hb : ¬w.tree.Blocked w.cwd p.steps) :
    ∃ tree, host.makeDirectoryAll p w = (.ok (), { w with tree }) ∧
      w.tree.MadeAlong tree w.cwd p.steps := by
  obtain ⟨tree, hrun, hmade, -⟩ := makesFront hl hcwd hp.toIsPlain hp.toIsUsable
  have hall := front_of_not_blocked hp.sizes hb
  rw [obstacle?_of_front hall] at hrun
  rw [hall] at hmade
  exact ⟨tree, hrun, hmade⟩

/-- Where something is, nothing is made. -/
theorem makeDirectoryAll_of_blocked (hl : w.tree.NoLinks)
    (hcwd : w.tree.get? w.cwd = some .directory) (hp : p.Fits)
    (hb : w.tree.Blocked w.cwd p.steps) :
    ∃ e, host.makeDirectoryAll p w = (.error e, w) := by
  obtain ⟨tree, hrun, -, hsame⟩ := makesFront hl hcwd hp.toIsPlain hp.toIsUsable
  rcases front_cases w.tree.get? w.cwd p.steps with hall | ⟨x, rest, hcons, hx⟩
  · exact absurd (hall ▸ hb) (not_blocked_front hcwd)
  · rw [obstacle?_of_cons hcons] at hrun
    have hsize : x.utf8ByteSize ≤ nameLimit := hp.sizes x (by rw [hcons]; simp)
    rw [hsame (directory_of_not_isClear hsize hx)] at hrun
    exact ⟨_, hrun⟩

/-- A path that the system does not take is refused before anything is made. -/
theorem makeDirectoryAll_of_refusal? {e : Errno} (h : p.refusal? = some e) :
    host.makeDirectoryAll p w = (.error e, w) := by
  have hm : w.tree.makeDirectory w.cwd p = .error e := by
    rw [makeDirectory, lastStep_of_refusal? h]
    rfl
  refine (makeDirectories_of_outcome (text_ne_empty_of_refusal? h)
    (by simp [ne_notFound_of_refusal? h]) (makeDirectory_of_error hm)).trans ?_
  rw [settleDirectory_of_error, entryAt?_of_refusal? h, if_neg (by simp)]

end World

end ProtoScribe
