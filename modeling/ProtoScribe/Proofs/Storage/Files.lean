import ProtoScribe.Proofs.Storage.Entries
import ProtoScribe.Proofs.Storage.Walk

/-!
# Files in a directory

What creating, filling and renaming do to a file whose path is plain and whose directory is there. A
file that is created and filled, and a new one that is filled and put in its place, leave the same
tree: the one in which the content stands at the file's name.
-/

namespace ProtoScribe.FileTree

variable {t : FileTree} {cwd dir : Location} {p : Path} {q : List String} {s name : String}
  {content bytes : List UInt8}

/-! ## Creating -/

/-- A tree where a directory takes a file of the given name: it has none, or one that is a file. -/
structure TakesFile (t : FileTree) (dir : Location) (name : String) : Prop where
  directory : t.get? dir = some .directory
  place : t.get? (dir ++ [name]) = none ∨ ∃ content, t.get? (dir ++ [name]) = some (.file content)

theorem TakesFile.isFree (h : t.TakesFile dir name) : t.IsFree dir name := by
  refine ⟨h.directory, ?_⟩
  rcases h.place with he | ⟨content, he⟩ <;> rw [he] <;> exact nofun

section Create

variable (hp : p.Fits) (hs : p.steps = q ++ [s]) (hslash : p.endsInSlash = false)

include hp hs hslash

/-- A path without a slash at its end is reached by a last step from its directory. -/
theorem reach_eq_step (hd : t.get? (cwd ++ q) = some .directory) :
    t.reach cwd p p.walkSteps = t.walk linkLimit (cwd ++ q) [s] := by
  have hw : p.walkSteps = q ++ [s] := by simp [Path.walkSteps, hslash, hs]
  rw [reach_eq_walk hp (text_ne_empty_of_steps hp.toIsPlain hs), hw,
    walk_of_directory (fitsStep_of_steps hp hs).1 hd]

/-- A file is made empty, whether or not it was there. -/
theorem create_of_takesFile (h : t.TakesFile (cwd ++ q) s) :
    t.create cwd p = .ok (⟨cwd ++ q, s⟩, t.put (cwd ++ q) s (.file [])) := by
  have hsf := (fitsStep_of_steps hp hs).2
  rw [create, reach_eq_step hp hs hslash h.directory]
  rcases h.place with he | ⟨content, he⟩
  · rw [walk_cons_of_none hsf h.directory he]
    rfl
  · rw [walk_cons_of_some hsf h.directory he nofun, walk]
    simp only [bind, Except.bind, List.getLast?_concat, he, List.dropLast_concat]
    rfl

/-- A directory is not made a file. -/
theorem create_of_directory (h : t.get? (cwd ++ q ++ [s]) = some .directory) :
    t.create cwd p = .error .isDirectory := by
  have hd := directory_of_append (List.cons_ne_nil s []) h
  rw [create, reach_eq_step hp hs hslash hd,
    walk_cons_of_some (fitsStep_of_steps hp hs).2 hd h nofun, walk]
  simp only [bind, Except.bind, List.getLast?_concat, h]
  rfl

end Create

/-! ## Filling -/

/-- Bytes go to the end of a file that has just been put. -/
theorem append_put (h : t.IsFree dir name) :
    (t.put dir name (.file content)).append ⟨dir, name⟩ bytes
      = .ok (t.put dir name (.file (content ++ bytes))) := by
  have he : (t.put dir name (.file content)).get? (dir ++ [name]) = some (.file content) := by
    rw [get?_put h, if_pos rfl]
  simp only [append, OpenFile.location, he]
  rw [put_put h (by simp)]

theorem sync_put (h : t.IsFree dir name) :
    (t.put dir name (.file content)).sync ⟨dir, name⟩ = .ok () := by
  have he : (t.put dir name (.file content)).get? (dir ++ [name]) = some (.file content) := by
    rw [get?_put h, if_pos rfl]
  simp only [sync, OpenFile.location, he]

/-! ## Renaming -/

section Rename

variable (hp : p.Fits) (hs : p.steps = q ++ [s])

include hp hs

/-- A new file takes the place of another in its directory, as if its content had been put there. -/
theorem rename_put (h : t.TakesFile (cwd ++ q) s) (hn : t.get? (cwd ++ q ++ [name]) = none) :
    (t.put (cwd ++ q) name (.file content)).rename cwd ⟨cwd ++ q, name⟩ p
      = .ok (t.put (cwd ++ q) s (.file content)) := by
  have hfree := isFree_of_none h.directory hn
  have hd : (t.put (cwd ++ q) name (.file content)).get? (cwd ++ q) = some .directory := by
    rw [get?_put hfree, if_neg (by simp), h.directory]
  have he : (t.put (cwd ++ q) name (.file content)).get? (cwd ++ q ++ [name])
      = some (.file content) := by
    rw [get?_put hfree, if_pos rfl]
  have hplace : (t.put (cwd ++ q) name (.file content)).get? (cwd ++ q ++ [s])
      ≠ some .directory := by
    rw [get?_put hfree]
    split
    · simp
    · exact h.isFree.2
  rw [rename, lastStep_of_directory hp hs hd]
  simp only [bind, Except.bind, OpenFile.location, he]
  rw [remove_put hfree hn (by simp)]
  rfl

/-- A directory keeps its place. -/
theorem rename_of_directory (h : t.get? (cwd ++ q ++ [s]) = some .directory) (f : OpenFile) :
    t.rename cwd f p = .error .isDirectory := by
  have hd := directory_of_append (List.cons_ne_nil s []) h
  rw [rename, lastStep_of_directory hp hs hd]
  simp only [bind, Except.bind, h]
  rfl

end Rename

/-! ## New files -/

/-- A new file is made in the directory that a path leads to. -/
theorem createTemporary_of_directory (hp : p.Fits) (hd : t.get? (cwd ++ p.steps) = some .directory)
    (hsize : (temporaryPath cwd p (temporaryName 0)).text.utf8ByteSize < pathLimit) :
    ∃ name, t.get? (cwd ++ p.steps ++ [name]) = none ∧
      t.createTemporary cwd p
        = .ok (⟨cwd ++ p.steps, name⟩, t.put (cwd ++ p.steps) name (.file [])) := by
  obtain ⟨n, hfresh, hn, -⟩ := t.exists_freshName (cwd ++ p.steps)
  refine ⟨temporaryName n, hn, ?_⟩
  rw [createTemporary]
  simp only [bind, Except.bind]
  split
  · next he =>
    -- The empty path stands for the directory that paths start from.
    rw [(Path.steps_eq_nil_iff hp.relative).mpr he, List.append_nil] at hd hfresh ⊢
    simp only [pure, Except.pure]
    rw [if_neg (by simp [hd]), hfresh]
    exact if_neg (Nat.not_le.mpr hsize)
  · next hne =>
    rw [follow_of_directory hp hne hd]
    dsimp only
    rw [if_neg (by simp [hd]), hfresh]
    exact if_neg (Nat.not_le.mpr hsize)

end ProtoScribe.FileTree
