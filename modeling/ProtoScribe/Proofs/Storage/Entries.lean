import Mathlib
import ProtoScribe.Storage.World

/-!
# Entries of a file tree

What puts and removes leave of each other: an entry that is put twice is put once, and a new one that
is removed again leaves the tree that was there, not only the same places filled.

A directory always has a new name to give, since different numbers make different names and there are
only so many entries (`exists_new_name`).
-/

namespace ProtoScribe

namespace FileTree

variable {t : FileTree} {dir : Location} {name : String} {e e' : Entry}

/-! ## Directories around a place -/

/-- A tree without links. -/
def NoLinks (t : FileTree) : Prop := ∀ l target, t.get? l ≠ some (.link target)

/-- Whatever there is lies in directories all the way down. -/
theorem directory_of_append {l m : Location} (hm : m ≠ []) (h : t.get? (l ++ m) = some e) :
    t.get? l = some .directory := by
  induction m using List.reverseRecOn generalizing e with
  | nil => exact absurd rfl hm
  | append_singleton m s ih =>
    rw [← List.append_assoc] at h
    have hd : t.get? (l ++ m) = some .directory :=
      t.closed (l ++ m) s (Option.ne_none_iff_exists'.mpr ⟨e, h⟩)
    rcases eq_or_ne m [] with rfl | hne
    · simpa using hd
    · exact ih hne hd

/-- Around a directory there are directories, if there is anything. -/
theorem directory_of_directory {l m : Location} (h : t.get? (l ++ m) = some .directory) :
    t.get? l = some .directory := by
  rcases eq_or_ne m [] with rfl | hm
  · simpa using h
  · exact directory_of_append hm h

/-! ## Putting and removing -/

theorem eq_of_entries {t t' : FileTree} (h : t.entries = t'.entries) : t = t' := by
  cases t
  cases t'
  simpa using h

theorem entries_put (h : t.IsFree dir name) (e : Entry) :
    (t.put dir name e).entries = (dir ++ [name], e) :: without (dir ++ [name]) t.entries := by
  rw [put, dif_pos h]

theorem entries_remove (h : t.IsFree dir name) :
    (t.remove dir name).entries = without (dir ++ [name]) t.entries := by
  rw [remove, dif_pos h]

theorem without_without (l : Location) : ∀ entries : List (Location × Entry),
    without l (without l entries) = without l entries
  | [] => rfl
  | (k, e) :: es => by
    by_cases h : k = l <;> simp [without, h, without_without l es]

/-- Where nothing stands, nothing is taken out. -/
theorem without_of_lookup {l : Location} : ∀ {entries : List (Location × Entry)},
    lookup l entries = none → without l entries = entries
  | [], _ => rfl
  | (k, e) :: es, h => by
    rw [lookup] at h
    split at h
    · cases h
    · next hk => rw [without, if_neg hk, without_of_lookup h]

theorem lookup_of_get? {l : Location} (h : t.get? l = none) : lookup l t.entries = none := by
  rw [get?, find] at h
  split at h
  · cases h
  · exact h

theorem isFree_of_none (hd : t.get? dir = some .directory) (hn : t.get? (dir ++ [name]) = none) :
    t.IsFree dir name := by
  refine ⟨hd, ?_⟩
  rw [hn]
  exact nofun

theorem isFree_of_some (h : t.get? (dir ++ [name]) = some e) (he : e ≠ .directory) :
    t.IsFree dir name := by
  refine ⟨directory_of_append (List.cons_ne_nil name []) h, ?_⟩
  rw [h, ne_eq, Option.some.injEq]
  exact he

/-- A place for an entry that is no directory can be taken again. -/
theorem isFree_put (h : t.IsFree dir name) (he : e ≠ .directory) :
    (t.put dir name e).IsFree dir name := by
  have hne : dir ≠ dir ++ [name] := by simp
  refine ⟨?_, ?_⟩
  · rw [get?_put h, if_neg hne]
    exact h.1
  · rw [get?_put h, if_pos rfl, ne_eq, Option.some.injEq]
    exact he

/-- Only the last entry that is put at a place counts. -/
theorem put_put (h : t.IsFree dir name) (he : e ≠ .directory) :
    (t.put dir name e).put dir name e' = t.put dir name e' := by
  refine eq_of_entries ?_
  rw [entries_put (isFree_put h he), entries_put h, entries_put h, without, if_pos rfl,
    without_without]

theorem noLinks_default : NoLinks default := by
  intro l target h
  simp only [get?, find] at h
  split at h <;> cases h

/-- A tree stays without links as long as none is put into it. -/
theorem noLinks_put (h : t.NoLinks) (he : ∀ target, e ≠ .link target) :
    (t.put dir name e).NoLinks := by
  intro l target hl
  by_cases hf : t.IsFree dir name
  · rw [get?_put hf] at hl
    split at hl
    · exact he target (Option.some.inj hl)
    · exact h l target hl
  · rw [get?_put_of_not_isFree hf] at hl
    exact h l target hl

/-- A new entry that is removed leaves the tree that was there. -/
theorem remove_put (h : t.IsFree dir name) (hn : t.get? (dir ++ [name]) = none)
    (he : e ≠ .directory) : (t.put dir name e).remove dir name = t := by
  refine eq_of_entries ?_
  rw [entries_remove (isFree_put h he), entries_put h, without, if_pos rfl, without_without,
    without_of_lookup (lookup_of_get? hn)]

end FileTree

/-! ## New names -/

/-- Different numbers make different names. -/
theorem temporaryName_injective : Function.Injective temporaryName := by
  intro a b h
  have hd (n : Nat) : Nat.ofDigitChars 10
      (List.replicate (6 - (Nat.toDigits 10 n).length) '0' ++ Nat.toDigits 10 n) 0 = n := by
    rw [Nat.ofDigitChars_append, Nat.ofDigitChars_replicate_zero, Nat.mul_zero,
      Nat.ofDigitChars_ten_toDigits]
  have hl := congrArg String.toList h
  simp only [temporaryName, String.toList_append, String.toList_ofList, List.append_cancel_right_eq,
    List.append_cancel_left_eq] at hl
  rw [← hd a, hl, hd b]

namespace FileTree

variable {t : FileTree} {dir : Location}

theorem mem_of_lookup {l : Location} : ∀ {entries : List (Location × Entry)},
    lookup l entries ≠ none → l ∈ entries.map Prod.fst
  | [], h => absurd rfl h
  | (k, e) :: es, h => by
    rw [lookup] at h
    split at h
    · next hk => simp [hk]
    · exact List.mem_cons_of_mem _ (mem_of_lookup h)

/-- One of the first names is new to a directory: there are more of them than entries. -/
theorem exists_new_name (t : FileTree) (dir : Location) :
    ∃ n ≤ t.entries.length, t.get? (dir ++ [temporaryName n]) = none := by
  by_contra hall
  push Not at hall
  -- Were none of them new, they would all be places of entries.
  let places := (List.range (t.entries.length + 1)).map fun n => dir ++ [temporaryName n]
  have hnodup : places.Nodup := by
    refine List.Nodup.map (fun a b h => temporaryName_injective ?_) List.nodup_range
    simpa using h
  have hsub : places ⊆ t.entries.map Prod.fst := by
    intro l hl
    obtain ⟨n, hn, rfl⟩ := List.mem_map.mp hl
    refine mem_of_lookup fun hnone => ?_
    exact hall n (by have := List.mem_range.mp hn; omega) (by simp [get?, find, hnone])
  have hle := (List.subperm_of_subset hnodup hsub).length_le
  simp [places] at hle

/-- The name that a directory gives is the first that is new to it. -/
theorem exists_freshName (t : FileTree) (dir : Location) :
    ∃ n, t.freshName? dir = some (temporaryName n) ∧
      t.get? (dir ++ [temporaryName n]) = none ∧
      ∀ m, t.get? (dir ++ [temporaryName m]) = none → n ≤ m := by
  obtain ⟨m, hm, hnone⟩ := exists_new_name t dir
  let isNew (n : Nat) : Bool := (t.get? (dir ++ [temporaryName n])).isNone
  have hfresh : t.freshName? dir
      = ((List.range (t.entries.length + 1)).find? isNew).map temporaryName := List.find?_map
  cases hf : (List.range (t.entries.length + 1)).find? isNew with
  | none =>
    have := List.find?_eq_none.mp hf m (List.mem_range.mpr (by omega))
    simp [isNew, hnone] at this
  | some n =>
    obtain ⟨hn, -, hfirst⟩ := List.find?_range_eq_some.mp hf
    refine ⟨n, by rw [hfresh, hf]; rfl, by simpa [isNew] using hn, fun k hk => ?_⟩
    by_contra hlt
    have := hfirst k (by omega)
    simp [isNew, hk] at this

end FileTree

end ProtoScribe
