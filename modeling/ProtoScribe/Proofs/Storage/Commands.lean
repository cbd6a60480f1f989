import ProtoScribe.Proofs.Storage.Files
import ProtoScribe.Proofs.Storage.Links

/-!
# Commands in any tree

What the commands of a write do in a tree that may hold links: each fails and leaves all as it was,
or changes one place. Where a path leads to a directory and a name is added to it, that place is the
name's in the directory, unless a link there is followed (`Leads.location_of_create`).
-/

namespace ProtoScribe

/-- The place that a walk ends at, which nothing may have yet. -/
def Reached.location : Reached → Location
  | place l => l
  | missing dir name _ => dir ++ [name]

namespace FileTree

variable {t t' : FileTree} {cwd dir : Location} {p : Path} {s name : String}

/-! ## Changes at one place -/

/-- All places but one hold in another tree what they hold in this one. -/
def SameExcept (t t' : FileTree) (place : Location) : Prop :=
  ∀ l, l ≠ place → t'.get? l = t.get? l

theorem SameExcept.refl (t : FileTree) (place : Location) : t.SameExcept t place :=
  fun _ _ => rfl

theorem SameExcept.trans {t'' : FileTree} {place : Location} (h : t.SameExcept t' place)
    (h' : t'.SameExcept t'' place) : t.SameExcept t'' place :=
  fun l hl => (h' l hl).trans (h l hl)

theorem sameExcept_put (t : FileTree) (dir : Location) (name : String) (e : Entry) :
    t.SameExcept (t.put dir name e) (dir ++ [name]) := by
  intro l hl
  by_cases hfree : t.IsFree dir name
  · rw [get?_put hfree, if_neg hl]
  · rw [get?_put_of_not_isFree hfree]

/-- Bytes change no file but the one that they go to. -/
theorem sameExcept_append {f : OpenFile} {bytes : List UInt8} (h : t.append f bytes = .ok t') :
    t.SameExcept t' f.location := by
  unfold append at h
  split at h
  · cases h
    exact sameExcept_put _ _ _ _
  · split at h
    · cases h
    · cases h
      exact .refl _ _
  · cases h

theorem append_file {f : OpenFile} {content bytes : List UInt8}
    (h : t.get? f.location = some (.file content)) :
    t.append f bytes = .ok (t.put f.dir f.name (.file (content ++ bytes))) := by
  rw [append, h]

/-- Bytes that are added one after the other are added together. -/
theorem append_cons (t : FileTree) (f : OpenFile) (b : UInt8) (bytes : List UInt8) :
    t.append f (b :: bytes) = (t.append f [b]).bind fun t' => t'.append f bytes := by
  cases he : t.get? f.location with
  | none => rw [append, append, he]; rfl
  | some e =>
    cases e with
    | directory | link => rw [append, append, he]; rfl
    | device full =>
      rw [append, append, he]
      cases full with
      | false =>
        show _ = t.append f bytes
        rw [append, he]
        rfl
      | true => rfl
    | file content =>
      have hfree : t.IsFree f.dir f.name := isFree_of_some he (by simp)
      rw [append_file he, append_file he]
      show _ = (t.put f.dir f.name (.file (content ++ [b]))).append f bytes
      rw [append_put hfree, List.append_assoc, List.singleton_append]

/-- Bytes that are refused are refused from the first one on. -/
theorem append_singleton_of_error {f : OpenFile} {b : UInt8} {bytes : List UInt8} {e : Errno}
    (h : t.append f (b :: bytes) = .error e) : t.append f [b] = .error e := by
  unfold append at h ⊢
  split at h
  · cases h
  · split at h
    · next full _ hfull =>
      cases h
      exact if_pos ⟨hfull.1, List.cons_ne_nil b []⟩
    · cases h
  · exact h

/-! ## Files that are opened -/

/-- A file is opened at the place that its path leads to, and all other places are as before. -/
theorem create_cases (t : FileTree) (cwd : Location) (p : Path) :
    (∃ e, t.create cwd p = .error e) ∨
      ∃ reached f t', t.reach cwd p p.walkSteps = .ok reached ∧
        t.create cwd p = .ok (f, t') ∧ f.location = reached.location ∧
        t.SameExcept t' f.location := by
  rw [create]
  cases hr : t.reach cwd p p.walkSteps with
  | error e => exact .inl ⟨e, rfl⟩
  | ok reached =>
    simp only [bind, Except.bind]
    cases reached with
    | missing dir name asDirectory =>
      cases asDirectory with
      | true => exact .inl ⟨.isDirectory, rfl⟩
      | false => exact .inr ⟨_, _, _, rfl, rfl, rfl, sameExcept_put _ _ _ _⟩
    | place l =>
      dsimp only
      rcases List.eq_nil_or_concat' l with rfl | ⟨dir, name, rfl⟩
      · exact .inl ⟨.isDirectory, rfl⟩
      rw [List.getLast?_concat, List.dropLast_concat]
      cases t.get? (dir ++ [name]) with
      | none => exact .inl ⟨.isDirectory, rfl⟩
      | some e =>
        cases e with
        | directory | link => exact .inl ⟨.isDirectory, rfl⟩
        | file => exact .inr ⟨_, _, _, rfl, rfl, rfl, sameExcept_put _ _ _ _⟩
        | device => exact .inr ⟨_, _, _, rfl, rfl, rfl, .refl _ _⟩

/-- A file that a path leads to is emptied. -/
theorem create_of_file {content : List UInt8}
    (hr : t.reach cwd p p.walkSteps = .ok (.place (dir ++ [name])))
    (hfile : t.get? (dir ++ [name]) = some (.file content)) :
    t.create cwd p = .ok (⟨dir, name⟩, t.put dir name (.file [])) := by
  rw [create, hr]
  simp only [bind, Except.bind, List.getLast?_concat, List.dropLast_concat, hfile]
  rfl

/-- What a walk finds missing is missing in a directory. -/
theorem missing_of_walk {budget : Nat} {here : Location} {steps : List String} {slash : Bool}
    (h : t.walk budget here steps = .ok (.missing dir name slash)) :
    t.get? dir = some .directory ∧ t.get? (dir ++ [name]) = none := by
  fun_induction FileTree.walk t budget here steps with
  | case1 | case2 | case5 | case8 | case9 => cases h
  | case3 budget here s rest hd hs ih => exact ih h
  | case4 budget here rest hd hs ih => exact ih h
  | case6 budget here s hd hidle hup hsize he | case7 budget here s hd hidle hup hsize he =>
    cases h
    exact ⟨not_not.mp hd, he⟩
  | case10 here s rest hd hidle hup hsize target he budget ih => exact ih h
  | case11 budget here s rest hd hidle hup hsize e hl he ih => exact ih h

/-- What a walk finds missing it finds once it is there. -/
theorem walk_of_missing {budget : Nat} {here : Location} {steps : List String} {e : Entry}
    (h : t.walk budget here steps = .ok (.missing dir name false)) (ht : t.Keeps t')
    (he : t'.get? (dir ++ [name]) = some e) (hlink : ∀ target, e ≠ .link target) :
    t'.walk budget here steps = .ok (.place (dir ++ [name])) := by
  fun_induction FileTree.walk t budget here steps with
  | case1 | case2 | case5 | case7 | case8 | case9 => cases h
  | case3 budget here s rest hd hs ih =>
    rw [walk, if_neg (not_not.mpr (ht.directory (not_not.mp hd))), if_pos hs, ih h]
  | case4 budget here rest hd hs ih =>
    rw [walk, if_neg (not_not.mpr (ht.directory (not_not.mp hd))), if_neg (by decide), if_pos rfl,
      ih h]
  | case6 budget here s hd hidle hup hsize hn =>
    cases h
    rw [walk_cons_of_some (fitsStep_of_not_idle hidle hup hsize) (ht.directory (not_not.mp hd)) he
      hlink, walk]
  | case10 here s rest hd hidle hup hsize target hl budget ih =>
    rw [walk_cons_of_link (fitsStep_of_not_idle hidle hup hsize) (ht.directory (not_not.mp hd))
      (ht.link hl)]
    exact ih h
  | case11 budget here s rest hd hidle hup hsize e' hl he' ih =>
    obtain ⟨e'', he'', hl''⟩ := ht.exists_entry he' hl
    rw [walk_cons_of_some (fitsStep_of_not_idle hidle hup hsize) (ht.directory (not_not.mp hd)) he''
      hl'', ih h]

/-- A file is opened where a directory takes one, or a device is opened and nothing changes. -/
theorem opened_of_create {f : OpenFile} (h : t.create cwd p = .ok (f, t')) :
    t.TakesFile f.dir f.name ∧ t' = t.put f.dir f.name (.file []) ∨
      t' = t ∧ ∃ full, t.get? f.location = some (.device full) := by
  rw [create] at h
  cases hr : t.reach cwd p p.walkSteps with
  | error e =>
    rw [hr] at h
    cases h
  | ok reached =>
    rw [hr] at h
    simp only [bind, Except.bind] at h
    cases reached with
    | missing dir name slash =>
      cases slash with
      | true => cases h
      | false =>
        cases h
        obtain ⟨hd, hn⟩ := missing_of_walk (reach_eq_ok_iff.mp hr).2.2
        exact .inl ⟨⟨hd, .inl hn⟩, rfl⟩
    | place l =>
      rcases List.eq_nil_or_concat' l with rfl | ⟨dir, name, rfl⟩
      · cases h
      simp only [List.getLast?_concat, List.dropLast_concat] at h
      cases he : t.get? (dir ++ [name]) with
      | none => simp [he] at h
      | some e =>
        have hdir := directory_of_append (List.cons_ne_nil name []) he
        cases e with
        | directory | link => simp [he] at h
        | file content =>
          simp only [he] at h
          cases h
          exact .inl ⟨⟨hdir, .inr ⟨content, he⟩⟩, rfl⟩
        | device full =>
          simp only [he] at h
          cases h
          exact .inr ⟨rfl, full, he⟩

/-- A file that is opened is where its path leads, whatever is written into it. -/
theorem follow_of_create {f : OpenFile} (h : t.create cwd p = .ok (f, t'))
    (htakes : t.TakesFile f.dir f.name) (bytes : List UInt8) :
    (t.put f.dir f.name (.file bytes)).follow cwd p = .ok f.location := by
  rcases t.create_cases cwd p with ⟨e, he⟩ | ⟨reached, f', t'', hr, hcreate, hplace, -⟩
  · cases he.symm.trans h
  cases hcreate.symm.trans h
  have hfile : (t.put f.dir f.name (.file bytes)).get? f.location = some (.file bytes) := by
    rw [OpenFile.location, get?_put htakes.isFree, if_pos rfl]
  have hkeeps : t.Keeps (t.put f.dir f.name (.file bytes)) := by
    refine keeps_put trivial fun e he => ?_
    rcases htakes.place with hn | ⟨content, hc⟩
    · cases hn.symm.trans he
    · cases hc.symm.trans he
      trivial
  obtain ⟨hne, hu, hw⟩ := reach_eq_ok_iff.mp hr
  refine follow_eq_ok_iff.mpr ⟨hne, hu, ?_⟩
  rw [hplace] at hfile ⊢
  cases reached with
  | place l =>
    obtain ⟨left, hwalks⟩ := walks_of_walk hw
    exact (hwalks.keep hkeeps).walk_eq
  | missing dir name slash =>
    cases slash with
    | true =>
      rw [create, hr] at h
      cases h
    | false => exact walk_of_missing hw hkeeps hfile (by simp)

/-! ## New files -/

/-- A new file is made in the directory that the path leads to, the empty one to where it starts. -/
theorem createTemporary_eq_bind (t : FileTree) (cwd : Location) (p : Path) :
    t.createTemporary cwd p =
      (if p.text = "" then .ok cwd else t.follow cwd p).bind fun dir =>
        if t.get? dir ≠ some .directory then .error .notDirectory
        else
          match t.freshName? dir with
          | none => .error .alreadyExists
          | some name =>
            if pathLimit ≤ (temporaryPath cwd p (temporaryName 0)).text.utf8ByteSize
            then .error .nameTooLong
            else .ok (⟨dir, name⟩, t.put dir name (.file [])) := by
  rw [createTemporary]
  split <;> rfl

/-- Nothing is made in what is no directory. -/
theorem exists_createTemporary_error (h : ∀ dir, ¬t.Leads cwd p dir) :
    ∃ e, t.createTemporary cwd p = .error e := by
  rw [createTemporary_eq_bind]
  cases hf : (if p.text = "" then .ok cwd else t.follow cwd p : Except Errno Location) with
  | error e => exact ⟨e, rfl⟩
  | ok dir =>
    have hd : t.get? dir ≠ some .directory := by
      refine fun hd => h dir ⟨?_, hd⟩
      split at hf
      · next hempty => rw [if_pos hempty, Except.ok.inj hf]
      · next hempty => rw [if_neg hempty, hf]
    exact ⟨.notDirectory, if_pos hd⟩

namespace Leads

variable (h : t.Leads cwd p dir)

include h

theorem createTemporary_eq (hfresh : t.freshName? dir = some name) :
    t.createTemporary cwd p =
      if pathLimit ≤ (temporaryPath cwd p (temporaryName 0)).text.utf8ByteSize
      then .error .nameTooLong
      else .ok (⟨dir, name⟩, t.put dir name (.file [])) := by
  have hleads : (if p.text = "" then .ok cwd else t.follow cwd p) = .ok dir := by
    have hfollow := h.follow
    split at hfollow
    · next hempty => rw [if_pos hempty, hfollow]
    · next hempty => rw [if_neg hempty, hfollow]
  rw [createTemporary_eq_bind, hleads]
  simp only [Except.bind]
  rw [if_neg (not_not.mpr h.directory), hfresh]

/-- A new file gets its name in the directory that the path leads to. -/
theorem createTemporary_cases (hfresh : t.freshName? dir = some name) :
    (∃ e, t.createTemporary cwd p = .error e) ∨
      t.createTemporary cwd p = .ok (⟨dir, name⟩, t.put dir name (.file [])) := by
  rw [h.createTemporary_eq hfresh]
  split
  · exact .inl ⟨.nameTooLong, rfl⟩
  · exact .inr rfl

/-- A new file gets the name of a path's last step in its directory, unless a directory has it. -/
theorem rename_of_lastStep {q : Path} {content : List UInt8} (hn : t.get? (dir ++ [name]) = none)
    (hne : name ≠ s)
    (hstep : (t.put dir name (.file content)).lastStep cwd q = .ok (some (dir, s))) :
    (t.put dir name (.file content)).rename cwd ⟨dir, name⟩ q =
      if t.get? (dir ++ [s]) = some .directory then .error .isDirectory
      else .ok (t.put dir s (.file content)) := by
  have hfree := isFree_of_none h.directory hn
  have hplace : (t.put dir name (.file content)).get? (dir ++ [s]) = t.get? (dir ++ [s]) :=
    sameExcept_put t dir name _ _ (by simpa using hne.symm)
  have hfile : (t.put dir name (.file content)).get? (dir ++ [name]) = some (.file content) := by
    rw [get?_put hfree, if_pos rfl]
  rw [rename, hstep]
  simp only [bind, Except.bind, OpenFile.location, hplace, hfile]
  rw [remove_put hfree hn (by simp)]
  by_cases hd : t.get? (dir ++ [s]) = some .directory
  · rw [hd, if_pos rfl]
    rfl
  · rw [if_neg hd]
    split
    · next hdir => exact absurd hdir hd
    · next hnone _ => cases hnone
    · next hfull _ =>
      cases hfull
      rfl

section Names

variable (hslash : '/' ∉ s.toList) (hs : Path.IsStepName s)

include hslash hs

/-- A new file takes the place of what has a name in its directory, a link included, as if its
content had been put there. -/
theorem rename_cases (content : List UInt8) (hn : t.get? (dir ++ [name]) = none) (hne : name ≠ s) :
    (∃ e, (t.put dir name (.file content)).rename cwd ⟨dir, name⟩ (p.join ⟨s⟩) = .error e) ∨
      t.IsFree dir s ∧ (t.put dir name (.file content)).rename cwd ⟨dir, name⟩ (p.join ⟨s⟩)
        = .ok (t.put dir s (.file content)) := by
  rcases h.lastStep_join (extends_put hn _).keeps hslash hs with ⟨e, he⟩ | hstep
  · exact .inl ⟨e, by rw [rename, he]; rfl⟩
  rw [h.rename_of_lastStep hn hne hstep]
  split
  · exact .inl ⟨.isDirectory, rfl⟩
  · next hd => exact .inr ⟨⟨h.directory, hd⟩, rfl⟩

/-- What is opened at a name in the directory, unless there is a link. -/
theorem create_join_eq (hlink : ∀ target, t.get? (dir ++ [s]) ≠ some (.link target)) :
    t.create cwd (p.join ⟨s⟩) =
      match (p.join ⟨s⟩).refusalAt? s with
      | some e => .error e
      | none =>
        match t.get? (dir ++ [s]) with
        | some .directory => .error .isDirectory
        | some (.device _) => .ok (⟨dir, s⟩, t)
        | _ => .ok (⟨dir, s⟩, t.put dir s (.file [])) := by
  rw [create, Path.walkSteps_join hslash hs.nonempty]
  cases hrefusal : (p.join ⟨s⟩).refusal?
  case some e =>
    rw [reach_of_refusal? hrefusal, Path.refusalAt?, hrefusal]
    rfl
  have hu := Path.refusal?_eq_none_iff.mp hrefusal
  obtain ⟨left, hreach⟩ := h.reach_join (Extends.refl t).keeps hslash hs.nonempty hu
  rw [hreach]
  by_cases hname : nameLimit < s.utf8ByteSize
  · rw [walk_cons_of_long hs h.directory hname, Path.refusalAt?, hrefusal, if_pos hname]
    rfl
  rw [Path.refusalAt?_eq_none_iff.mpr ⟨hu, Nat.not_lt.mp hname⟩]
  have hfits : FitsStep s := ⟨hs, Nat.not_lt.mp hname⟩
  cases he : t.get? (dir ++ [s]) with
  | none =>
    rw [walk_cons_of_none hfits h.directory he]
    rfl
  | some e =>
    have hno (target : Path) : e ≠ .link target := fun hl => hlink target (hl ▸ he)
    rw [walk_cons_of_some hfits h.directory he hno, walk]
    simp only [bind, Except.bind, List.getLast?_concat, List.dropLast_concat, he]
    cases e with
    | link target => exact absurd rfl (hno target)
    | directory | file | device => rfl

/-- A file is opened at a name's place in the directory, unless a link there is followed. -/
theorem location_of_create {f : OpenFile}
    (hlink : ∀ target, t.get? (dir ++ [s]) ≠ some (.link target))
    (hf : t.create cwd (p.join ⟨s⟩) = .ok (f, t')) : f.location = dir ++ [s] := by
  rw [h.create_join_eq hslash hs hlink] at hf
  split at hf
  · cases hf
  · split at hf <;> cases hf <;> rfl

end Names

end Leads

end FileTree

end ProtoScribe
