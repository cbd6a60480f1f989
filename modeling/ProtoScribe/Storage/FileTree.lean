import ProtoScribe.Path

/-!
# File trees

What a file system holds: for each place below the root a directory, a file, a link or a device.
Whatever is there lies in a directory. `put` and `remove` keep that, so they do nothing where they
would break it: a directory is never replaced or removed.

What a tree holds is all that counts about it, and `get?` says what that is; `get?_put` and
`get?_remove` say how it changes.
-/

namespace ProtoScribe

/-- A place in a file system: the names on the way from the root. -/
abbrev Location : Type := List String

/-- What stands at a place. -/
inductive Entry where
  | directory
  | file (content : List UInt8)
  | link (target : Path)
  /-- Something that takes what is written, or refuses all of it for want of space. -/
  | device (full : Bool)
  deriving DecidableEq, Repr, Inhabited

namespace FileTree

/-- The first of some entries that stands at a place. -/
def lookup (l : Location) : List (Location × Entry) → Option Entry
  | [] => none
  | (k, e) :: es => if k = l then some e else lookup l es

/-- What stands at a place; the root is always a directory. -/
def find (entries : List (Location × Entry)) (l : Location) : Option Entry :=
  if l = [] then some .directory else lookup l entries

/-- Entries with those at a place taken out. -/
def without (l : Location) : List (Location × Entry) → List (Location × Entry)
  | [] => []
  | (k, e) :: es => if k = l then without l es else (k, e) :: without l es

/-- Taking out the entries at one place changes no other. -/
theorem lookup_without (l k : Location) (entries : List (Location × Entry)) :
    lookup k (without l entries) = if k = l then none else lookup k entries := by
  induction entries with
  | nil => simp [without, lookup]
  | cons e es ih =>
    obtain ⟨j, entry⟩ := e
    by_cases hk : k = l
    · subst hk
      by_cases h : j = k <;> simpa [without, lookup, h] using ih
    · by_cases h : j = l
      · simp [without, lookup, h, ih, hk, Ne.symm hk]
      · simp [without, lookup, h, ih, hk]

/-- Taking out the entries at one place changes no other, the root included. -/
theorem find_without (entries : List (Location × Entry)) (l k : Location) (hl : l ≠ []) :
    find (without l entries) k = if k = l then none else find entries k := by
  unfold find
  by_cases hk : k = []
  · subst hk
    simp [Ne.symm hl]
  · simp [hk, lookup_without]

/-- Replacing the entries at one place changes no other. -/
theorem find_cons (entries : List (Location × Entry)) (l k : Location) (e : Entry) (hl : l ≠ []) :
    find ((l, e) :: without l entries) k = if k = l then some e else find entries k := by
  unfold find
  by_cases hk : k = []
  · subst hk
    simp [Ne.symm hl]
  · by_cases h : k = l
    · simp [h, hl, lookup]
    · simp [hk, h, lookup, Ne.symm h, lookup_without]

end FileTree

/-- The entries of a file system. -/
structure FileTree where
  entries : List (Location × Entry) := []
  /-- Whatever there is lies in a directory. -/
  closed : ∀ (dir : Location) (name : String),
    FileTree.find entries (dir ++ [name]) ≠ none → FileTree.find entries dir = some .directory := by
      simp [FileTree.find, FileTree.lookup]

namespace FileTree

/-- What stands at a place. -/
def get? (t : FileTree) (l : Location) : Option Entry := find t.entries l

instance : Inhabited FileTree := ⟨{}⟩

/-- Whether an entry may be put at a name in a directory, or removed there. -/
def IsFree (t : FileTree) (dir : Location) (name : String) : Prop :=
  t.get? dir = some .directory ∧ t.get? (dir ++ [name]) ≠ some .directory

instance (t : FileTree) (dir : Location) (name : String) : Decidable (t.IsFree dir name) :=
  inferInstanceAs (Decidable (_ ∧ _))

private theorem append_ne_nil (dir : Location) (name : String) : dir ++ [name] ≠ [] := by simp

/-- Puts an entry at a name in a directory, in place of what was there. -/
def put (t : FileTree) (dir : Location) (name : String) (e : Entry) : FileTree :=
  if h : t.IsFree dir name then
    { entries := (dir ++ [name], e) :: without (dir ++ [name]) t.entries
      closed := by
        intro d n hne
        simp only [find_cons _ _ _ _ (append_ne_nil dir name)] at hne ⊢
        have hd : d ≠ dir ++ [name] ∨ (d ++ [n] ≠ dir ++ [name] ∧ d = dir ++ [name]) := by
          by_cases hd : d = dir ++ [name]
          · refine .inr ⟨fun hn => ?_, hd⟩
            have := congrArg List.length (hn.trans hd.symm)
            simp at this
          · exact .inl hd
        rcases hd with hd | ⟨hn, hd⟩
        · rw [if_neg hd]
          by_cases hn : d ++ [n] = dir ++ [name]
          · rw [List.append_inj_left' hn rfl]
            exact h.1
          · exact t.closed d n (by simpa [hn] using hne)
        · rw [if_neg hn] at hne
          exact absurd (hd ▸ t.closed d n hne) h.2 }
  else t

/-- Removes the entry at a name in a directory. -/
def remove (t : FileTree) (dir : Location) (name : String) : FileTree :=
  if h : t.IsFree dir name then
    { entries := without (dir ++ [name]) t.entries
      closed := by
        intro d n hne
        simp only [find_without _ _ _ (append_ne_nil dir name)] at hne ⊢
        by_cases hn : d ++ [n] = dir ++ [name]
        · simp [hn] at hne
        · have hc := t.closed d n (by simpa [hn] using hne)
          by_cases hd : d = dir ++ [name]
          · exact absurd (hd ▸ hc) h.2
          · rw [if_neg hd]
            exact hc }
  else t

/-- A put entry stands at its place, and all others are as before. -/
theorem get?_put {t : FileTree} {dir : Location} {name : String} (h : t.IsFree dir name) (e : Entry)
    (l : Location) : (t.put dir name e).get? l = if l = dir ++ [name] then some e else t.get? l := by
  simp only [put, h, dite_true, get?]
  exact find_cons _ _ _ _ (append_ne_nil dir name)

/-- A removed entry is gone, and all others are as before. -/
theorem get?_remove {t : FileTree} {dir : Location} {name : String} (h : t.IsFree dir name)
    (l : Location) : (t.remove dir name).get? l = if l = dir ++ [name] then none else t.get? l := by
  simp only [remove, h, dite_true, get?]
  exact find_without _ _ _ (append_ne_nil dir name)

/-- Where no entry may be put, nothing changes. -/
theorem get?_put_of_not_isFree {t : FileTree} {dir : Location} {name : String}
    (h : ¬t.IsFree dir name) (e : Entry) : t.put dir name e = t := by
  simp [put, h]

/-! ## Listing -/

/-- Whether a name comes before another, by the numbers of their characters. -/
def nameComesFirst : List Char → List Char → Bool
  | [], _ => true
  | _ :: _, [] => false
  | a :: as, b :: bs => if a = b then nameComesFirst as bs else a.toNat < b.toNat

/-- Whether a place comes before another: a directory before what it holds. -/
def comesFirst : Location → Location → Bool
  | [], _ => true
  | _ :: _, [] => false
  | a :: as, b :: bs => if a = b then comesFirst as bs else nameComesFirst a.toList b.toList

/-- What lies below a place, with the names on the way there, in order. -/
def below (t : FileTree) (l : Location) : List (Location × Entry) :=
  (t.entries.filterMap fun (k, e) =>
    if l.isPrefixOf k ∧ l.length < k.length then some (k.drop l.length, e) else none).mergeSort
    fun a b => comesFirst a.1 b.1

end FileTree

end ProtoScribe
