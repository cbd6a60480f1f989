import ProtoScribe.Document.Shape

/-!
# Nesting and meaning

How far a document nests shows in what it means. A list with anything in it has taken a collection of
the document, a sequence or a mapping, and so has a record unless all of its parts were left out.
What is in a list or record is left with one collection less.

`NestsWithin shape depth a` says that `depth` collections in one another are enough for a value that
means `a` under the shape. It knows no format: that reading keeps to it is proved for each format by
recursion on the shape.

* `draftNestsWithin_blank`, `DraftNestsWithin.finish` — the parts of a record that is read member by
  member
* `nestsWithin_of_blank` — a record of which all parts were left out takes no collection
-/

namespace ProtoScribe.Document

/-! ## Values -/

mutual

/-- Whether `depth` collections in one another are enough for a value that means `a` under a shape,
as far as its meaning tells. -/
def NestsWithin : {α : Type} → Shape α → (depth : Nat) → α → Prop
  | _, .text _, _, _ => True
  | _, .integer _, _, _ => True
  | _, .flag, _, _ => True
  | _, .choice _, _, _ => True
  | _, .optional shape, depth, a => ∀ b, a = some b → NestsWithin shape depth b
  | _, .list shape, depth, as => ∀ a ∈ as, 0 < depth ∧ NestsWithin shape (depth - 1) a
  | _, .record _ _ parts build, depth, a => ∃ c, build c = a ∧
      (depth = 0 → parts.finish parts.blank = .ok c) ∧ PartsNestWithin parts (depth - 1) c
  | _, .beyond, _, _ => False

/-- Whether they are enough for each part of a record that was not left out. -/
def PartsNestWithin : {γ : Type} → Parts γ → (depth : Nat) → γ → Prop
  | _, .none, _, _ => True
  | _, .part _ default shape rest, depth, c =>
    (default = some c.1 ∨ NestsWithin shape depth c.1) ∧ PartsNestWithin rest depth c.2

end

/-! ## Drafts -/

/-- Whether they are enough for what is known of a record while it is read. -/
def DraftNestsWithin : {γ : Type} → (parts : Parts γ) → (depth : Nat) → parts.Draft → Prop
  | _, .none, _, _ => True
  | _, .part _ _ shape rest, depth, draft =>
    (∀ a, draft.1 = some a → NestsWithin shape depth a) ∧ DraftNestsWithin rest depth draft.2

/-- Where nothing is known, nothing nests. -/
theorem draftNestsWithin_blank (depth : Nat) : ∀ {γ : Type} (parts : Parts γ),
    DraftNestsWithin parts depth parts.blank
  | _, .none => by simp [DraftNestsWithin]
  | _, .part _ _ shape rest => by
    unfold DraftNestsWithin Parts.blank
    exact ⟨nofun, draftNestsWithin_blank depth rest⟩

/-- The first part of a finished record is known or left out, and the others are finished as well. -/
theorem finish_part {α γ : Type} {name : String} {default : Option α} {shape : Shape α}
    {rest : Parts γ} {draft : (Parts.part name default shape rest).Draft} {c : α × γ}
    (h : (Parts.part name default shape rest).finish draft = .ok c) :
    (draft.1 = some c.1 ∨ default = some c.1) ∧ rest.finish draft.2 = .ok c.2 := by
  rw [Parts.finish] at h
  obtain ⟨known, draft⟩ := draft
  split at h
  · cases h
  · next a ha =>
    cases hrest : rest.finish draft with
    | error name =>
      rw [hrest] at h
      cases h
    | ok c' =>
      rw [hrest] at h
      cases h
      refine ⟨?_, rfl⟩
      cases known with
      | some b => exact .inl ha
      | none => exact .inr ha

/-- What a draft is finished to nests as far as what was known. -/
theorem DraftNestsWithin.finish {depth : Nat} : ∀ {γ : Type} {parts : Parts γ} {draft : parts.Draft}
    {c : γ}, DraftNestsWithin parts depth draft → parts.finish draft = .ok c →
      PartsNestWithin parts depth c
  | _, .none, _, _, _, _ => by simp [PartsNestWithin]
  | _, .part name default shape rest, draft, c, hd, h => by
    unfold DraftNestsWithin at hd
    obtain ⟨hfirst, hrest⟩ := finish_part h
    unfold PartsNestWithin
    refine ⟨?_, hd.2.finish hrest⟩
    rcases hfirst with hknown | hdefault
    · exact .inr (hd.1 _ hknown)
    · exact .inl hdefault

/-- A record of which all parts were left out takes no collection. -/
theorem nestsWithin_of_blank {α γ : Type} {name : String} {closed : Bool} {parts : Parts γ}
    {build : γ → α} {c : γ} (depth : Nat) (h : parts.finish parts.blank = .ok c) :
    NestsWithin (.record name closed parts build) depth (build c) := by
  unfold NestsWithin
  exact ⟨c, rfl, fun _ => h, (draftNestsWithin_blank (depth - 1) parts).finish h⟩

/-- A record that takes a collection leaves one less to its parts. -/
theorem nestsWithin_succ {α γ : Type} {name : String} {closed : Bool} {parts : Parts γ}
    {build : γ → α} {depth : Nat} {c : γ} (h : PartsNestWithin parts depth c) :
    NestsWithin (.record name closed parts build) (depth + 1) (build c) := by
  unfold NestsWithin
  exact ⟨c, rfl, nofun, h⟩

/-- So does a list. -/
theorem nestsWithin_list_succ {α : Type} {shape : Shape α} {depth : Nat} {as : List α}
    (h : ∀ a ∈ as, NestsWithin shape depth a) : NestsWithin (.list shape) (depth + 1) as := by
  unfold NestsWithin
  exact fun a ha => ⟨Nat.succ_pos depth, h a ha⟩

end ProtoScribe.Document
