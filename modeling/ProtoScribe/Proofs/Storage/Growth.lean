import ProtoScribe.Proofs.Storage.Commands
import ProtoScribe.Proofs.Storage.Run

/-!
# Directories made in any tree

Making the directory of a path takes nothing away, in a tree that may hold links, whether it
succeeds or not. Whatever is new is a directory, and the path or one above it leads there (`Grown`).

One command makes one directory at most, at the place that its path leads to from then on
(`grown_makeDirectory`). The run over the paths is an induction on their list, since a directory
that could not be made for want of the next one is tried again after that.
-/

namespace ProtoScribe

namespace FileTree

variable {t t' : FileTree} {cwd dir : Location} {p : Path} {name : String} {paths : List Path}

/-! ## Trees with more directories -/

/-- A tree that holds all that another does, and directories that some of the paths lead to. -/
structure Grown (cwd : Location) (paths : List Path) (t t' : FileTree) : Prop where
  older : t.Extends t'
  newer : ∀ l e, t.get? l = none → t'.get? l = some e →
    e = .directory ∧ ∃ q ∈ paths, t'.follow cwd q = .ok l

namespace Grown

theorem refl (cwd : Location) (paths : List Path) (t : FileTree) : Grown cwd paths t t where
  older := .refl t
  newer _ _ hnone hsome := nomatch hnone.symm.trans hsome

theorem trans {t'' : FileTree} (h : Grown cwd paths t t') (h' : Grown cwd paths t' t'') :
    Grown cwd paths t t'' where
  older := h.older.trans h'.older
  newer l e hnone hsome := by
    cases hl : t'.get? l with
    | none => exact h'.newer l e hl hsome
    | some e' =>
      -- What was new after the first growth has stayed, and so has the way there.
      obtain ⟨rfl, q, hq, hfollow⟩ := h.newer l e' hnone hl
      refine ⟨?_, q, hq, h'.older.keeps.follow hfollow⟩
      exact Option.some.inj (hsome.symm.trans (h'.older l _ hl))

theorem mono {paths' : List Path} (h : Grown cwd paths t t') (hsub : paths ⊆ paths') :
    Grown cwd paths' t t' where
  older := h.older
  newer l e hnone hsome := by
    obtain ⟨he, q, hq, hfollow⟩ := h.newer l e hnone hsome
    exact ⟨he, q, hsub hq, hfollow⟩

theorem noLinks (h : Grown cwd paths t t') (hl : t.NoLinks) : t'.NoLinks := by
  intro l target hlink
  cases hnone : t.get? l with
  | none => cases (h.newer l _ hnone hlink).1
  | some e =>
    rw [h.older l e hnone] at hlink
    exact hl l target (hnone.trans hlink)

end Grown

/-- A tree that holds what another does and directories, but for one file that has these bytes. -/
structure Gains (t : FileTree) (l : Location) (bytes : List UInt8) (t' : FileTree) : Prop where
  place : t'.get? l = some (.file bytes)
  older : ∀ k e, k ≠ l → t.get? k = some e → t'.get? k = some e
  newer : ∀ k e, k ≠ l → t'.get? k = some e → t.get? k = some e ∨ e = .directory

/-- A file is put into a tree that has grown. -/
theorem Grown.gains_put (h : Grown cwd paths t t') (hfree : t'.IsFree dir name)
    {bytes : List UInt8} : t.Gains (dir ++ [name]) bytes (t'.put dir name (.file bytes)) where
  place := by rw [get?_put hfree, if_pos rfl]
  older k e hk he := by
    rw [get?_put hfree, if_neg hk]
    exact h.older k e he
  newer k e hk he := by
    rw [get?_put hfree, if_neg hk] at he
    cases hold : t.get? k with
    | none => exact .inr (h.newer k e hold he).1
    | some e' => exact .inl ((h.older k e' hold).symm.trans he)

/-! ## One directory -/

/-- What a path's last step names has been looked for in a directory. -/
theorem walks_of_lastStep (h : t.lastStep cwd p = .ok (some (dir, name))) :
    p.text ≠ "" ∧ p.IsUsable ∧ FitsStep name ∧
      t.get? dir = some .directory ∧ ∃ first left, p.steps = first ++ [name] ∧
        t.Walks linkLimit (if p.isAbsolute then [] else cwd) first left dir := by
  rw [lastStep] at h
  rcases List.eq_nil_or_concat' p.steps with hs | ⟨first, last, hs⟩
  · rw [hs] at h
    cases hr : t.reach cwd p [] <;> simp [hr, bind, Except.bind, pure, Except.pure] at h
  rw [hs, List.getLast?_concat, List.dropLast_concat] at h
  have hempty : last ≠ "" := by
    have hmem : last ∈ p.steps := hs ▸ List.mem_append_right _ List.mem_cons_self
    simpa [Path.steps] using (List.mem_filter.mp hmem).2
  cases hr : t.reach cwd p first with
  | error e =>
    rw [hr] at h
    cases h
  | ok reached =>
    rw [hr] at h
    cases reached with
    | missing => cases h
    | place l =>
      simp only [bind, Except.bind] at h
      split at h
      · cases h
      next hd =>
      split at h
      · cases h
      next hdots =>
      split at h
      · cases h
      next hlong =>
      cases h
      obtain ⟨hne, hu, hw⟩ := reach_eq_ok_iff.mp hr
      obtain ⟨left, hwalks⟩ := walks_of_walk hw
      rw [not_or] at hdots
      exact ⟨hne, hu, ⟨⟨hempty, hdots.1, hdots.2⟩, Nat.not_lt.mp hlong⟩,
        not_not.mp hd, first, left, hs, hwalks⟩

/-- A directory is made at a place where nothing was, and its path leads there from then on. -/
theorem makeDirectory_cases (t : FileTree) (cwd : Location) (p : Path) :
    (∃ e, t.makeDirectory cwd p = .error e) ∨
      ∃ dir name, t.get? dir = some .directory ∧ t.get? (dir ++ [name]) = none ∧
        t.makeDirectory cwd p = .ok (t.put dir name .directory) ∧
        (t.put dir name .directory).follow cwd p = .ok (dir ++ [name]) := by
  cases hstep : t.lastStep cwd p with
  | error e => exact .inl ⟨e, by rw [makeDirectory, hstep]; rfl⟩
  | ok last =>
    cases last with
    | none => exact .inl ⟨.alreadyExists, by rw [makeDirectory, hstep]; rfl⟩
    | some last =>
      obtain ⟨dir, name⟩ := last
      have hmake : t.makeDirectory cwd p = if (t.get? (dir ++ [name])).isSome
          then .error .alreadyExists else .ok (t.put dir name .directory) := by
        rw [makeDirectory, hstep]
        rfl
      cases hn : t.get? (dir ++ [name]) with
      | some e => exact .inl ⟨.alreadyExists, by rw [hmake, hn]; rfl⟩
      | none =>
        obtain ⟨hne, hu, hname, hd, first, left, hs, hwalks⟩ := walks_of_lastStep hstep
        refine .inr ⟨dir, name, hd, hn, by rw [hmake, hn]; rfl, ?_⟩
        have ht := (extends_put hn .directory).keeps
        have hplace : (t.put dir name .directory).get? (dir ++ [name]) = some .directory := by
          rw [get?_put (isFree_of_none hd hn), if_pos rfl]
        refine follow_eq_ok_iff.mpr ⟨hne, hu, ?_⟩
        -- The last step is taken after those before it, and then the slash at the end, if any.
        rw [Path.walkSteps, hs, List.append_assoc, List.singleton_append,
          (hwalks.keep ht).walk_append, walk_cons_of_some hname (ht.directory hd) hplace
            (by simp)]
        split
        · rw [walk_slash, if_pos hplace]
        · rw [walk]

theorem leads_of_follow (h : t.follow cwd p = .ok dir) (hd : t.get? dir = some .directory) :
    t.Leads cwd p dir where
  follow := by
    rw [if_neg (follow_eq_ok_iff.mp h).1]
    exact h
  directory := hd

theorem exists_leads_of_entryAt? (h : t.entryAt? cwd p = some .directory) :
    ∃ dir, t.Leads cwd p dir := by
  rw [entryAt?] at h
  cases hf : t.follow cwd p with
  | error e =>
    rw [hf] at h
    cases h
  | ok dir =>
    rw [hf] at h
    exact ⟨dir, leads_of_follow hf h⟩

/-- Where a directory has been made, there is one more, and its path leads to it. -/
theorem grown_makeDirectory (h : t.makeDirectory cwd p = .ok t') :
    Grown cwd [p] t t' ∧ ∃ dir, t'.Leads cwd p dir := by
  rcases t.makeDirectory_cases cwd p with ⟨e, he⟩ | ⟨dir, name, hd, hn, hok, hfollow⟩
  · cases he.symm.trans h
  cases hok.symm.trans h
  have hget (l : Location) : (t.put dir name .directory).get? l
      = if l = dir ++ [name] then some .directory else t.get? l := get?_put (isFree_of_none hd hn) _ l
  have hplace : (t.put dir name .directory).get? (dir ++ [name]) = some .directory := by
    rw [hget, if_pos rfl]
  refine ⟨⟨extends_put hn _, fun l e hnone hsome => ?_⟩, _, leads_of_follow hfollow hplace⟩
  rw [hget] at hsome
  split at hsome
  · next hl =>
    cases hsome
    exact ⟨rfl, p, List.mem_singleton_self p, hl ▸ hfollow⟩
  · cases hnone.symm.trans hsome

end FileTree

namespace World

open FileTree

/-! ## All directories of a path -/

/-- A world that differs from another by what has grown in its tree, and by what it reports. -/
structure Grows (w : World) (paths : List Path) (w' : World) : Prop where
  cwd : w'.cwd = w.cwd
  tree : Grown w.cwd paths w.tree w'.tree

namespace Grows

variable {w w' w'' : World} {paths : List Path}

theorem refl (w : World) (paths : List Path) : w.Grows paths w := ⟨rfl, .refl _ _ _⟩

theorem trans (h : w.Grows paths w') (h' : w'.Grows paths w'') : w.Grows paths w'' :=
  ⟨h'.cwd.trans h.cwd, h.tree.trans (h.cwd ▸ h'.tree)⟩

theorem mono {paths' : List Path} (h : w.Grows paths w') (hsub : paths ⊆ paths') :
    w.Grows paths' w' :=
  ⟨h.cwd, h.tree.mono hsub⟩

end Grows

theorem settled_of_outcome {w w' : World} {p : Path} {outcome : Except Errno Unit}
    (h : host.makeDirectory p w = (outcome, w')) :
    (host.makeDirectory p >>= host.settleDirectory p) w = host.settleDirectory p outcome w' := by
  rw [bind_apply, h]

/-- What could not be made will do if it is there, and otherwise nothing has changed. -/
theorem ends_settleDirectory (w : World) (p : Path) :
    Ends (ExceptT.mk (host.makeDirectory p >>= host.settleDirectory p)) w
      (fun _ w' => w.Grows [p] w' ∧ ∃ dir, w'.tree.Leads w.cwd p dir) (fun _ w' => w' = w) := by
  cases hmake : w.tree.makeDirectory w.cwd p with
  | ok tree =>
    obtain ⟨hgrown, hleads⟩ := grown_makeDirectory hmake
    exact .of_ok (settled_of_outcome (makeDirectory_of_ok hmake)) ⟨⟨rfl, hgrown⟩, hleads⟩
  | error e =>
    have hrun : (host.makeDirectory p >>= host.settleDirectory p) w =
        (if w.tree.entryAt? w.cwd p = some .directory then .ok () else .error e, w) := by
      rw [settled_of_outcome (makeDirectory_of_error hmake), settleDirectory_of_error]
    split at hrun
    · next hd => exact .of_ok hrun ⟨.refl w [p], exists_leads_of_entryAt? hd⟩
    · exact .of_error hrun rfl

/-- Some directories are made, and all of them if that succeeds. -/
theorem ends_makeDirectories : ∀ (paths : List Path) (w : World),
    Ends (ExceptT.mk (host.makeDirectories paths)) w
      (fun _ w' => w.Grows paths w' ∧
        ∀ p ∈ paths.head?, p.text ≠ "" → ∃ dir, w'.tree.Leads w.cwd p dir)
      (fun _ => w.Grows paths)
  | [], w => .of_error (e := .notFound) rfl (.refl w [])
  | p :: outer, w => by
    by_cases hempty : p.text = ""
    · refine .of_ok (makeDirectories_of_empty outer hempty) ⟨.refl w _, ?_⟩
      rintro _ ⟨⟩ hne
      exact absurd hempty hne
    have hone : [p] ⊆ p :: outer := List.cons_subset_cons p (List.nil_subset outer)
    -- What a try at the first directory comes to, wherever the tries before it have led.
    have hsettle (w₁ : World) (hw₁ : w.Grows (p :: outer) w₁) :
        Ends (ExceptT.mk (host.makeDirectory p >>= host.settleDirectory p)) w₁
          (fun _ w' => w.Grows (p :: outer) w' ∧
            ∀ q ∈ (p :: outer).head?, q.text ≠ "" → ∃ dir, w'.tree.Leads w.cwd q dir)
          (fun _ => w.Grows (p :: outer)) := by
      refine (ends_settleDirectory w₁ p).mono (fun _ w' ⟨hgrows, hleads⟩ => ?_) ?_
      · refine ⟨hw₁.trans (hgrows.mono hone), ?_⟩
        rintro _ ⟨⟩ -
        rw [← hw₁.cwd]
        exact hleads
      · rintro _ _ rfl
        exact hw₁
    cases hmake : w.tree.makeDirectory w.cwd p with
    | ok tree =>
      have hok := makeDirectory_of_ok hmake
      exact (hsettle w (.refl w _)).of_eq
        ((makeDirectories_of_outcome hempty (by simp) hok).trans (settled_of_outcome hok).symm)
    | error e =>
      have herror := makeDirectory_of_error hmake
      by_cases he : e = .notFound
      · subst he
        rcases (ends_makeDirectories outer w).cases with
          ⟨_, w₁, hrun, hgrows, -⟩ | ⟨e, w₁, hrun, hgrows⟩
        · exact (hsettle w₁ (hgrows.mono (List.subset_cons_self p outer))).of_eq
            (makeDirectories_of_notFound hempty herror hrun)
        · exact .of_error (makeDirectories_of_notFound_of_error hempty herror hrun)
            (hgrows.mono (List.subset_cons_self p outer))
      · exact (hsettle w (.refl w _)).of_eq ((makeDirectories_of_outcome hempty
          (by simpa using he) herror).trans (settled_of_outcome herror).symm)

end World

end ProtoScribe
