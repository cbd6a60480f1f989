import ProtoScribe.Proofs.Storage.Visits

/-!
# Trees that differ at one place

Two trees that hold the same everywhere but at a place and below it, whatever that is in either. A
walk that does not look at the place is the same in both and ends beside it (`Apart.walk`), so a
command by such a path fails alike in both, or changes both alike (`SameOutcome`).

A new file gets the first name that its directory does not have. If the place has the name of a new
file, the two must agree that it is taken, which is why `Apart` asks for that.
-/

namespace ProtoScribe

/-! ## Places beside another -/

/-- A place that is neither another nor below it. -/
def Location.Beside (l place : Location) : Prop := ¬place <+: l

namespace Location.Beside

variable {l m place : Location} {name : String}

theorem of_append (h : Beside (l ++ m) place) : Beside l place :=
  fun hl => h (hl.trans (List.prefix_append l m))

theorem dropLast (h : Beside l place) : Beside l.dropLast place :=
  fun hl => h (hl.trans (List.dropLast_prefix l))

theorem concat (h : Beside l place) (hne : place ≠ l ++ [name]) : Beside (l ++ [name]) place := by
  rw [Beside, List.prefix_concat_iff, not_or]
  exact ⟨hne, h⟩

end Location.Beside

namespace FileTree

open Location

variable {t t' : FileTree} {place here cwd dir : Location} {budget : Nat} {steps : List String}
  {p : Path} {name : String} {f : OpenFile}

/-- Two trees that hold the same beside a place. -/
def SameBeside (t t' : FileTree) (place : Location) : Prop :=
  ∀ l, Beside l place → t'.get? l = t.get? l

/-- Two trees that hold the same beside a place, at which no new file is made. -/
structure Apart (t t' : FileTree) (place : Location) : Prop where
  get? : t.SameBeside t' place
  taken : ∀ dir n, place = dir ++ [temporaryName n] → t.get? place ≠ none ∧ t'.get? place ≠ none

/-! ## Walks -/

/-- A name that is looked for beside the place and is not that of the place is beside it, too. -/
theorem beside_name {making : Bool} {s : String} {rest : List String} (hhere : Beside here place)
    (hd : t.IsEntered making here) (hs : FitsStep s)
    (hv : place ∉ t.visited making budget here (s :: rest)) : Beside (here ++ [s]) place := by
  refine hhere.concat fun he => hv ?_
  rw [he]
  exact mem_visited hd hs

/-- A walk that does not look at the place is the same in both, and it ends beside the place. -/
theorem Apart.walk (h : t.Apart t' place) (hhere : Beside here place)
    (hv : place ∉ t.visited false budget here steps) :
    t'.walk budget here steps = t.walk budget here steps ∧
      ∀ reached, t.walk budget here steps = .ok reached → Beside reached.location place := by
  have hroot : Beside [] place := hhere.of_append (l := [])
  -- The walk in `t` is followed. Whatever it looks at is beside the place, so it is the same in
  -- `t'`.
  fun_induction FileTree.walk t budget here steps with
  | case1 budget here =>
    refine ⟨by rw [FileTree.walk], fun reached hr => ?_⟩
    cases hr
    exact hhere
  | case2 budget here s rest hd =>
    refine ⟨?_, by rintro _ ⟨⟩⟩
    rw [walk_cons_of_not_directory (by rwa [h.get? here hhere])]
  | case3 budget here s rest hd hs ih =>
    rw [visited_idle (.inl (not_not.mp hd)) hs] at hv
    rw [FileTree.walk, if_neg (by rwa [h.get? here hhere]), if_pos hs]
    exact ih hhere hv
  | case4 budget here rest hd _ ih =>
    rw [visited_up (.inl (not_not.mp hd))] at hv
    rw [FileTree.walk, if_neg (by rwa [h.get? here hhere]), if_neg (by decide), if_pos rfl]
    exact ih hhere.dropLast hv
  | case5 budget here s rest hd hidle hup hsize =>
    refine ⟨?_, by rintro _ ⟨⟩⟩
    rw [FileTree.walk, if_neg (by rwa [h.get? here hhere]), if_neg hidle, if_neg hup, if_pos hsize]
  | case6 budget here s hd hidle hup hsize he | case7 budget here s hd hidle hup hsize he =>
    have hname := beside_name hhere (.inl (not_not.mp hd)) (fitsStep_of_not_idle hidle hup hsize) hv
    refine ⟨?_, fun reached hr => ?_⟩
    · rw [walk_cons_of_none (fitsStep_of_not_idle hidle hup hsize)
        ((h.get? here hhere).trans (not_not.mp hd)) ((h.get? _ hname).trans he)]
      rfl
    · cases hr
      exact hname
  | case8 budget here s rest hd hidle hup hsize he hrest hslash =>
    have hname := beside_name hhere (.inl (not_not.mp hd)) (fitsStep_of_not_idle hidle hup hsize) hv
    refine ⟨?_, by rintro _ ⟨⟩⟩
    rw [walk_cons_of_none (fitsStep_of_not_idle hidle hup hsize)
      ((h.get? here hhere).trans (not_not.mp hd)) ((h.get? _ hname).trans he), if_neg hrest,
      if_neg hslash]
  | case9 here s rest hd hidle hup hsize target he =>
    have hname := beside_name hhere (.inl (not_not.mp hd)) (fitsStep_of_not_idle hidle hup hsize) hv
    refine ⟨?_, by rintro _ ⟨⟩⟩
    rw [FileTree.walk, if_neg (by rwa [h.get? here hhere]), if_neg hidle, if_neg hup, if_neg hsize,
      (h.get? _ hname).trans he]
  | case10 here s rest hd hidle hup hsize target he budget ih =>
    have hs := fitsStep_of_not_idle hidle hup hsize
    have hname := beside_name hhere (.inl (not_not.mp hd)) hs hv
    rw [visited_link (.inl (not_not.mp hd)) hs he, List.mem_cons, not_or] at hv
    rw [walk_cons_of_link hs ((h.get? here hhere).trans (not_not.mp hd))
      ((h.get? _ hname).trans he)]
    refine ih ?_ hv.2
    split
    · exact hroot
    · exact hhere
  | case11 budget here s rest hd hidle hup hsize e hl he ih =>
    have hs := fitsStep_of_not_idle hidle hup hsize
    have hname := beside_name hhere (.inl (not_not.mp hd)) hs hv
    have hl' (target : Path) : t.get? (here ++ [s]) ≠ some (.link target) := by
      rw [he]
      exact fun h => hl target (Option.some.inj h)
    rw [visited_name (.inl (not_not.mp hd)) hs hl', List.mem_cons, not_or] at hv
    rw [walk_cons_of_some hs ((h.get? here hhere).trans (not_not.mp hd))
      ((h.get? _ hname).trans he) hl]
    exact ih hname hv.2

section Paths

variable (h : t.Apart t' place) (hcwd : Beside cwd place)

include h hcwd

theorem Apart.reach
    (hv : place ∉ t.visited false linkLimit (if p.isAbsolute then [] else cwd) steps) :
    t'.reach cwd p steps = t.reach cwd p steps ∧
      ∀ reached, t.reach cwd p steps = .ok reached → Beside reached.location place := by
  have hstart : Beside (if p.isAbsolute then [] else cwd) place := by
    split
    · exact hcwd.of_append (l := [])
    · exact hcwd
  rw [FileTree.reach, FileTree.reach]
  split
  · exact ⟨rfl, by rintro _ ⟨⟩⟩
  cases p.refusal? with
  | some e => exact ⟨rfl, by rintro _ ⟨⟩⟩
  | none => exact h.walk hstart hv

theorem Apart.lastStep (hp : place ∉ t.passed false cwd p) :
    t'.lastStep cwd p = t.lastStep cwd p ∧
      ∀ dir name, t.lastStep cwd p = .ok (some (dir, name)) → Beside (dir ++ [name]) place := by
  have hv : place ∉ t.visited false linkLimit (if p.isAbsolute then [] else cwd)
      p.steps.dropLast := by
    refine fun hmem => hp ?_
    obtain ⟨last, hlast⟩ := List.dropLast_prefix p.steps
    rw [passed, ← hlast]
    exact visited_append_subset _ _ _ _ _ _ hmem
  obtain ⟨hreach, hbeside⟩ := h.reach hcwd hv
  refine ⟨?_, fun dir name hstep => ?_⟩
  · rw [FileTree.lastStep, FileTree.lastStep, hreach]
    cases hr : t.reach cwd p p.steps.dropLast with
    | error e => rfl
    | ok reached =>
      cases p.steps.getLast? with
      | none => rfl
      | some last =>
        cases reached with
        | missing => rfl
        | place dir =>
          simp only [bind, Except.bind]
          rw [h.get? dir (hbeside _ hr)]
  · obtain ⟨hne, hu, -, -, first, left, hs, hwalks⟩ := walks_of_lastStep hstep
    have hr : t.reach cwd p p.steps.dropLast = .ok (.place dir) := by
      rw [reach_of_isUsable hne hu, hs, List.dropLast_concat, hwalks.walk_eq]
    refine (hbeside _ hr).concat fun he => hp ?_
    rw [he]
    exact mem_passed_of_lastStep hstep false

variable (hp : place ∉ t.passed false cwd p)

include hp

theorem Apart.follow : t'.follow cwd p = t.follow cwd p ∧
    ∀ l, t.follow cwd p = .ok l → Beside l place := by
  rw [passed_eq] at hp
  obtain ⟨hreach, hbeside⟩ := h.reach hcwd hp
  rw [FileTree.follow, FileTree.follow, hreach]
  refine ⟨rfl, fun l hl => ?_⟩
  cases hr : t.reach cwd p p.walkSteps with
  | error e =>
    rw [hr] at hl
    cases hl
  | ok reached =>
    rw [hr] at hl
    cases reached with
    | missing => cases hl
    | place =>
      cases hl
      exact hbeside _ hr

/-- What a path leads to that does not pass the place is the same in both. -/
theorem Apart.entryAt? : t'.entryAt? cwd p = t.entryAt? cwd p := by
  obtain ⟨hfollow, hbeside⟩ := h.follow hcwd hp
  rw [FileTree.entryAt?, FileTree.entryAt?, hfollow]
  cases hf : t.follow cwd p with
  | error e => rfl
  | ok l => exact h.get? l (hbeside l hf)

theorem Apart.readBytes : t'.readBytes cwd p = t.readBytes cwd p := by
  obtain ⟨hfollow, hbeside⟩ := h.follow hcwd hp
  rw [FileTree.readBytes, FileTree.readBytes, hfollow]
  cases hf : t.follow cwd p with
  | error e => rfl
  | ok l =>
    simp only [bind, Except.bind]
    rw [h.get? l (hbeside l hf)]

end Paths

/-! ## Puts -/

namespace Apart

variable (h : t.Apart t' place) (hplace : Beside (dir ++ [name]) place)

include h hplace

theorem isFree_iff : t'.IsFree dir name ↔ t.IsFree dir name := by
  rw [IsFree, IsFree, h.get? dir hplace.of_append, h.get? _ hplace]

theorem put (e : Entry) : (t.put dir name e).Apart (t'.put dir name e) place := by
  by_cases hfree : t.IsFree dir name
  · have hfree' := (h.isFree_iff hplace).mpr hfree
    refine ⟨fun l hl => ?_, fun d n hn => ?_⟩
    · rw [get?_put hfree, get?_put hfree', h.get? l hl]
    · have hne : place ≠ dir ++ [name] := fun he => hplace (he ▸ List.prefix_refl _)
      rw [get?_put hfree, get?_put hfree', if_neg hne, if_neg hne]
      exact h.taken d n hn
  · have hfree' := (h.isFree_iff hplace).not.mpr hfree
    rwa [get?_put_of_not_isFree hfree, get?_put_of_not_isFree hfree']

theorem remove : (t.remove dir name).Apart (t'.remove dir name) place := by
  by_cases hfree : t.IsFree dir name
  · have hfree' := (h.isFree_iff hplace).mpr hfree
    refine ⟨fun l hl => ?_, fun d n hn => ?_⟩
    · rw [get?_remove hfree, get?_remove hfree', h.get? l hl]
    · have hne : place ≠ dir ++ [name] := fun he => hplace (he ▸ List.prefix_refl _)
      rw [get?_remove hfree, get?_remove hfree', if_neg hne, if_neg hne]
      exact h.taken d n hn
  · have hfree' := (h.isFree_iff hplace).not.mpr hfree
    rw [FileTree.remove, FileTree.remove, dif_neg hfree, dif_neg hfree']
    exact h

end Apart

/-! ## Commands -/

/-- Commands that fail alike, or have one result and leave trees that are apart at a place only. -/
def SameOutcome {α : Type} (place : Location) (x y : Except Errno (α × FileTree)) : Prop :=
  (∃ e, x = .error e ∧ y = .error e) ∨
    ∃ a u u', x = .ok (a, u) ∧ y = .ok (a, u') ∧ u.Apart u' place

section Commands

variable (h : t.Apart t' place)

include h

/-- Both have the same name for a new file, which is not that of the place. -/
theorem Apart.freshName? (hdir : Beside dir place) :
    ∃ name, t.freshName? dir = some name ∧ t'.freshName? dir = some name ∧
      Beside (dir ++ [name]) place := by
  have hne (n : Nat) (hnew : t.get? (dir ++ [temporaryName n]) = none ∨
      t'.get? (dir ++ [temporaryName n]) = none) : place ≠ dir ++ [temporaryName n] := by
    intro he
    obtain ⟨htaken, htaken'⟩ := h.taken dir n he
    rw [he] at htaken htaken'
    exact hnew.elim htaken htaken'
  obtain ⟨n, hn, hnone, hfirst⟩ := t.exists_freshName dir
  obtain ⟨m, hm, hnone', hfirst'⟩ := t'.exists_freshName dir
  -- The first new name of each tree is new to the other as well, so neither comes before the other.
  have hbeside := hdir.concat (hne n (.inl hnone))
  have hle := hfirst m ((h.get? _ (hdir.concat (hne m (.inr hnone')))).symm.trans hnone')
  have hle' := hfirst' n ((h.get? _ hbeside).trans hnone)
  exact ⟨temporaryName n, hn, hm.trans (by rw [Nat.le_antisymm hle hle']), hbeside⟩

theorem Apart.sync (hf : Beside f.location place) : t'.sync f = t.sync f := by
  rw [FileTree.sync, FileTree.sync, h.get? _ hf]

theorem Apart.append (hf : Beside f.location place) (bytes : List UInt8) :
    SameOutcome place (do return ((), ← t.append f bytes))
      (do return ((), ← t'.append f bytes)) := by
  rw [FileTree.append, FileTree.append, h.get? _ hf]
  split
  · exact .inr ⟨(), _, _, rfl, rfl, h.put hf _⟩
  · split
    · exact .inl ⟨.noSpace, rfl, rfl⟩
    · exact .inr ⟨(), t, t', rfl, rfl, h⟩
  · exact .inl ⟨.notFound, rfl, rfl⟩

variable (hcwd : Beside cwd place) (hp : place ∉ t.passed false cwd p)

include hcwd hp

theorem Apart.makeDirectory :
    SameOutcome place (do return ((), ← t.makeDirectory cwd p))
      (do return ((), ← t'.makeDirectory cwd p)) := by
  obtain ⟨hlast, hbeside⟩ := h.lastStep hcwd hp
  rw [FileTree.makeDirectory, FileTree.makeDirectory, hlast]
  cases hstep : t.lastStep cwd p with
  | error e => exact .inl ⟨e, rfl, rfl⟩
  | ok last =>
    rcases last with _ | ⟨dir, name⟩
    · exact .inl ⟨.alreadyExists, rfl, rfl⟩
    · have hplace := hbeside dir name hstep
      simp only [bind, Except.bind]
      rw [h.get? _ hplace]
      cases t.get? (dir ++ [name]) with
      | some => exact .inl ⟨.alreadyExists, rfl, rfl⟩
      | none => exact .inr ⟨(), _, _, rfl, rfl, h.put hplace _⟩

theorem Apart.create : SameOutcome place (t.create cwd p) (t'.create cwd p) ∧
    ∀ f u, t.create cwd p = .ok (f, u) → Beside f.location place := by
  rw [passed_eq] at hp
  obtain ⟨hreach, hbeside⟩ := h.reach hcwd hp
  refine ⟨?_, fun f u hcreate => ?_⟩
  · rw [FileTree.create, FileTree.create, hreach]
    cases hr : t.reach cwd p p.walkSteps with
    | error e => exact .inl ⟨e, rfl, rfl⟩
    | ok reached =>
      have hlocation := hbeside reached hr
      cases reached with
      | missing dir name asDirectory =>
        cases asDirectory with
        | true => exact .inl ⟨.isDirectory, rfl, rfl⟩
        | false => exact .inr ⟨⟨dir, name⟩, _, _, rfl, rfl, h.put hlocation _⟩
      | place l =>
        rcases List.eq_nil_or_concat' l with rfl | ⟨dir, name, rfl⟩
        · exact .inl ⟨.isDirectory, rfl, rfl⟩
        have hplace : t'.get? (dir ++ [name]) = t.get? (dir ++ [name]) := h.get? _ hlocation
        simp only [bind, Except.bind, List.getLast?_concat, List.dropLast_concat, hplace]
        cases t.get? (dir ++ [name]) with
        | none => exact .inl ⟨.isDirectory, rfl, rfl⟩
        | some e =>
          cases e with
          | directory | link => exact .inl ⟨.isDirectory, rfl, rfl⟩
          | file => exact .inr ⟨⟨dir, name⟩, _, _, rfl, rfl, h.put hlocation _⟩
          | device => exact .inr ⟨⟨dir, name⟩, t, t', rfl, rfl, h⟩
  · rcases t.create_cases cwd p with ⟨e, he⟩ | ⟨reached, f', u', hr, hcreate', hlocation, -⟩
    · cases he.symm.trans hcreate
    · cases hcreate'.symm.trans hcreate
      rw [hlocation]
      exact hbeside reached hr

theorem Apart.createTemporary :
    SameOutcome place (t.createTemporary cwd p) (t'.createTemporary cwd p) ∧
      ∀ f u, t.createTemporary cwd p = .ok (f, u) → Beside f.location place := by
  obtain ⟨hfollow, hbeside⟩ := h.follow hcwd hp
  rw [createTemporary_eq_bind, createTemporary_eq_bind, hfollow]
  cases hleads : (if p.text = "" then .ok cwd else t.follow cwd p : Except Errno Location) with
  | error e => exact ⟨.inl ⟨e, rfl, rfl⟩, by rintro _ _ ⟨⟩⟩
  | ok dir =>
    have hdir : Beside dir place := by
      split at hleads
      · cases hleads
        exact hcwd
      · exact hbeside dir hleads
    simp only [Except.bind]
    obtain ⟨name, hfresh, hfresh', hplace⟩ := h.freshName? hdir
    rw [h.get? dir hdir, hfresh, hfresh']
    dsimp only
    by_cases hd : t.get? dir = some .directory
    · rw [if_neg (not_not.mpr hd), if_neg (not_not.mpr hd)]
      by_cases hlong : pathLimit ≤ (temporaryPath cwd p (temporaryName 0)).text.utf8ByteSize
      · rw [if_pos hlong, if_pos hlong]
        exact ⟨.inl ⟨.nameTooLong, rfl, rfl⟩, by rintro _ _ ⟨⟩⟩
      · rw [if_neg hlong, if_neg hlong]
        refine ⟨.inr ⟨⟨dir, name⟩, _, _, rfl, rfl, h.put hplace _⟩, fun f u hok => ?_⟩
        cases hok
        exact hplace
    · rw [if_pos hd, if_pos hd]
      exact ⟨.inl ⟨.notDirectory, rfl, rfl⟩, by rintro _ _ ⟨⟩⟩

theorem Apart.rename (hf : Beside f.location place) :
    SameOutcome place (do return ((), ← t.rename cwd f p))
      (do return ((), ← t'.rename cwd f p)) := by
  obtain ⟨hlast, hbeside⟩ := h.lastStep hcwd hp
  rw [FileTree.rename, FileTree.rename, hlast]
  cases hstep : t.lastStep cwd p with
  | error e => exact .inl ⟨e, rfl, rfl⟩
  | ok last =>
    rcases last with _ | ⟨dir, name⟩
    · exact .inl ⟨.isDirectory, rfl, rfl⟩
    · have hplace := hbeside dir name hstep
      simp only [bind, Except.bind]
      rw [h.get? _ hplace, h.get? _ hf]
      -- Whether this fails depends on what stands at the target and on whether the file is there.
      rcases t.get? (dir ++ [name]) with _ | _ | _ | _ | _ <;> rcases t.get? f.location with _ | e
      case some.directory.none | some.directory.some => exact .inl ⟨.isDirectory, rfl, rfl⟩
      case none.none | some.file.none | some.link.none | some.device.none =>
        exact .inl ⟨.notFound, rfl, rfl⟩
      all_goals exact .inr ⟨(), _, _, rfl, rfl, (h.remove hf).put hplace _⟩

end Commands

end FileTree

end ProtoScribe
