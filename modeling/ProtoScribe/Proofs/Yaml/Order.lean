import ProtoScribe.Proofs.Yaml.Content

/-!
# The order of keys

The pairs of a mapping may stand in any order, in the whole document: what is `Reordered` means the
same under every shape (`value?_of_reordered`). A mapping means what it has under names, and it has
the same under each of them in any order, unless a name occurs twice, in which case it means nothing
in any order.

The induction is on the single changes of which a reordering is made.
-/

namespace ProtoScribe.Yaml.Content

open ProtoScribe.Document (Parts Shape)

variable {c c' : Content} {names : List String} {name : String}
  {pairs pairs' : List (Content × Content)}

/-- The pairs of mappings in another order, anywhere in a content but in its keys. -/
inductive Reordered : Content → Content → Prop where
  | refl (c : Content) : Reordered c c
  | trans {c₁ c₂ c₃ : Content} : Reordered c₁ c₂ → Reordered c₂ c₃ → Reordered c₁ c₃
  | pairs {ps qs : List (Content × Content)} : ps.Perm qs → Reordered (.mapping ps) (.mapping qs)
  | value {before after : List (Content × Content)} {k v w : Content} : Reordered v w →
    Reordered (.mapping (before ++ (k, v) :: after)) (.mapping (before ++ (k, w) :: after))
  | item {before after : List Content} {v w : Content} : Reordered v w →
    Reordered (.sequence (before ++ v :: after)) (.sequence (before ++ w :: after))

/-- Contents that mean the same under every shape. -/
def Same (c c' : Content) : Prop := ∀ (α : Type) (shape : Shape α), value? shape c = value? shape c'

theorem Same.refl (c : Content) : Same c c := fun _ _ => rfl

theorem rel_same : ∀ slot : Option Content, Option.Rel Same slot slot
  | none => .none
  | some c => .some (.refl c)

/-! ## Mappings -/

/-- What parts mean depends on what is given for them only by what that means. -/
theorem parts?_congr {slots slots' : String → Option Content} : ∀ {γ : Type} (parts : Parts γ),
    (∀ name ∈ parts.names, Option.Rel Same (slots name) (slots' name)) →
    parts? parts slots = parts? parts slots'
  | _, .none, _ => rfl
  | _, .part name default shape rest, h => by
    rw [Parts.names, List.forall_mem_cons] at h
    have hpart {x y : Option Content} (hrel : Option.Rel Same x y) :
        x.elim default (value? shape) = y.elim default (value? shape) := by
      cases hrel with
      | none => rfl
      | some hsame => exact hsame _ shape
    rw [parts?, parts?, hpart h.1, parts?_congr rest h.2]

/-- Mappings mean the same if they admit the same keys, and have the same under them. -/
theorem same_mapping (hkeyed : ∀ closed names, Keyed closed names pairs ↔ Keyed closed names pairs')
    (hslots : ∀ closed names, Keyed closed names pairs →
      ∀ name ∈ names, Option.Rel Same (slot pairs name) (slot pairs' name)) :
    Same (.mapping pairs) (.mapping pairs')
  | _, .text _ => rfl
  | _, .integer _ => rfl
  | _, .flag => rfl
  | _, .choice _ => rfl
  | _, .optional shape => by
    rw [value?, value?, same_mapping hkeyed hslots _ shape]
    rfl
  | _, .list _ => rfl
  | _, .record _ closed parts build => by
    rw [value?, value?]
    by_cases h : Keyed closed parts.names pairs
    · rw [if_pos h, if_pos ((hkeyed _ _).mp h), parts?_congr parts (hslots _ _ h)]
    · rw [if_neg h, if_neg (mt (hkeyed _ _).mpr h)]
  | _, .beyond => rfl

theorem keyed_of_perm {closed : Bool} (h : pairs.Perm pairs') (hk : Keyed closed names pairs) :
    Keyed closed names pairs' where
  scalars p hp := hk.scalars p (h.mem_iff.mpr hp)
  distinct := ((h.filterMap _).filter _).nodup_iff.mp hk.distinct

/-- In any order there is the same under a name that occurs once at most. -/
theorem slot_of_perm (hname : name ∈ names) (h : pairs.Perm pairs') :
    ((pairs.filterMap fun p => p.1.name?).filter fun name => decide (name ∈ names)).Nodup →
    slot pairs name = slot pairs' name := by
  induction h with
  | nil => exact fun _ => rfl
  | @cons p ps qs _ ih =>
    intro hnodup
    rw [slot_cons, slot_cons, ih ?_]
    refine hnodup.sublist (List.Sublist.filter _ (List.Sublist.filterMap _ ?_))
    exact List.sublist_cons_self p ps
  | swap p q ps =>
    intro hnodup
    rw [slot_cons, slot_cons, slot_cons, slot_cons]
    by_cases hp : p.1.name? = some name <;> by_cases hq : q.1.name? = some name
    · -- The name would occur twice.
      simp [hp, hq, hname] at hnodup
    all_goals simp [hp, hq]
  | trans h₁ _ ih₁ ih₂ =>
    intro hnodup
    exact (ih₁ hnodup).trans (ih₂ (((h₁.filterMap _).filter _).nodup_iff.mp hnodup))

theorem same_of_perm (h : pairs.Perm pairs') : Same (.mapping pairs) (.mapping pairs') := by
  refine same_mapping (fun _ _ => ⟨keyed_of_perm h, keyed_of_perm h.symm⟩) fun _ _ hk name hname => ?_
  rw [slot_of_perm hname h hk.distinct]
  exact rel_same _

/-- Which keys are admitted does not depend on their values. -/
theorem keyed_of_keys {closed : Bool} (h : pairs.map Prod.fst = pairs'.map Prod.fst)
    (hk : Keyed closed names pairs) : Keyed closed names pairs' := by
  have hnames (ps : List (Content × Content)) : (ps.filterMap fun p => p.1.name?)
      = (ps.map Prod.fst).filterMap Content.name? := by
    rw [List.filterMap_map]
    rfl
  constructor
  · have hscalars := hk.scalars
    rw [← List.forall_mem_map (f := Prod.fst) (P := fun key : Content =>
      ∃ name ∈ key.name?, closed = true → name ∈ names)] at hscalars ⊢
    exact h ▸ hscalars
  · rw [hnames, ← h, ← hnames]
    exact hk.distinct

/-- A value may be put for another that means the same. -/
theorem same_of_value {before after : List (Content × Content)} {k v w : Content} (h : Same v w) :
    Same (.mapping (before ++ (k, v) :: after)) (.mapping (before ++ (k, w) :: after)) := by
  have hkeys : (before ++ (k, v) :: after).map Prod.fst
      = (before ++ (k, w) :: after).map Prod.fst := by simp
  refine same_mapping (fun _ _ => ⟨keyed_of_keys hkeys, keyed_of_keys hkeys.symm⟩)
    fun _ _ hk name _ => ?_
  clear hkeys hk
  induction before with
  | nil =>
    rw [List.nil_append, List.nil_append, slot_cons, slot_cons]
    split
    · exact .some h
    · exact rel_same _
  | cons p before ih =>
    rw [List.cons_append, List.cons_append, slot_cons, slot_cons]
    split
    · exact rel_same _
    · exact ih

/-! ## Sequences -/

/-- So may an item. -/
theorem same_of_item {before after : List Content} {v w : Content} (h : Same v w) :
    Same (.sequence (before ++ v :: after)) (.sequence (before ++ w :: after))
  | _, .text _ => rfl
  | _, .integer _ => rfl
  | _, .flag => rfl
  | _, .choice _ => rfl
  | _, .optional shape => by
    rw [value?, value?, same_of_item h _ shape]
    rfl
  | _, .list shape => by
    simp only [value?, List.mapM_append, List.mapM_cons, h _ shape]
  | _, .record _ _ _ _ => rfl
  | _, .beyond => rfl

/-- **What is reordered means the same.** -/
theorem value?_of_reordered (h : Reordered c c') : Same c c' := by
  induction h with
  | refl c => exact .refl c
  | trans _ _ ih₁ ih₂ => exact fun α shape => (ih₁ α shape).trans (ih₂ α shape)
  | pairs h => exact same_of_perm h
  | value _ ih => exact same_of_value ih
  | item _ ih => exact same_of_item ih

end ProtoScribe.Yaml.Content
