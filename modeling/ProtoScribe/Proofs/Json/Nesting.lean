import ProtoScribe.Proofs.Document.Nesting
import ProtoScribe.Proofs.Json.Reading

/-!
# Nesting of what is read from JSON

A value is read with a number of arrays and objects that may still open, and what it then means nests
no further (`nestsWithin_of_read`), whatever the text looks like. Records may be objects or arrays.

The recursion is on the shape. The members of an object go into a draft one by one, and each keeps
the draft within the number (`readMembers_keeps`).
-/

namespace ProtoScribe.Json

open Document

/-- A computation ends well if both of its steps do. -/
theorem bind_eq_ok {α β ε : Type} {x : Except ε α} {f : α → Except ε β} {b : β}
    (h : x >>= f = .ok b) : ∃ a, x = .ok a ∧ f a = .ok b := by
  cases x with
  | error e => cases h
  | ok a => exact ⟨a, rfl, h⟩

/-- What errors are turned into changes nothing about a computation that ends well. -/
theorem of_mapError {α ε ε' : Type} {x : Except ε α} {f : ε → ε'} {a : α}
    (h : x.mapError f = .ok a) : x = .ok a := by
  cases x with
  | error e => cases h
  | ok b =>
    cases h
    rfl

namespace Tree

/-! ## Arrays and objects -/

/-- What may open leaves one less to open in it. -/
theorem enter_eq_ok {start depth depth' : Nat} (h : enter start depth = .ok depth') :
    depth = depth' + 1 := by
  cases depth with
  | zero => cases h
  | succ depth =>
    cases h
    rfl

/-- Each item of a list has been read. -/
theorem exists_of_readItems {α : Type} {read : Tree → Except Fault α} : ∀ {items : List Tree}
    {as : List α}, readItems read items = .ok as → ∀ a ∈ as, ∃ t, read t = .ok a
  | [], as, h, a, ha => by
    cases h
    cases ha
  | t :: items, as, h, a, ha => by
    unfold readItems at h
    obtain ⟨b, hb, h⟩ := bind_eq_ok h
    obtain ⟨bs, hbs, h⟩ := bind_eq_ok h
    cases h
    rcases List.mem_cons.mp ha with rfl | ha
    · exact ⟨t, hb⟩
    · exact exists_of_readItems hbs a ha

/-- What each member that is put keeps is kept by all of them. -/
theorem readMembers_keeps {γ : Type} {closed : Bool} {parts : Parts γ}
    {put : String → Tree → parts.Draft → Except Fault parts.Draft} {Keeps : parts.Draft → Prop}
    (hput : ∀ {name t draft draft'}, Keeps draft → put name t draft = .ok draft' → Keeps draft') :
    ∀ {members : List (Member Tree)} {draft draft' : parts.Draft}, Keeps draft →
      readMembers closed parts put members draft = .ok draft' → Keeps draft'
  | [], draft, draft', hd, h => by
    cases h
    exact hd
  | ⟨key, colonAt, value, next⟩ :: members, draft, draft', hd, h => by
    unfold readMembers at h
    obtain ⟨name, -, h⟩ := bind_eq_ok h
    split at h
    · split at h
      · cases h
      · obtain ⟨draft₁, hdraft₁, h⟩ := bind_eq_ok h
        exact readMembers_keeps hput (hput hd hdraft₁) h
    · split at h
      · cases h
      · split at h
        · cases h
        · exact readMembers_keeps hput hd h

/-! ## All shapes -/

mutual

/-- **What is read nests no further than it may.** -/
theorem nestsWithin_of_read : ∀ {α : Type} (shape : Shape α) {depth : Nat} {t : Tree} {a : α},
    t.read shape depth = .ok a → NestsWithin shape depth a
  | _, .text _, _, _, _, _ => by simp [NestsWithin]
  | _, .integer _, _, _, _, _ => by simp [NestsWithin]
  | _, .flag, _, _, _, _ => by simp [NestsWithin]
  | _, .choice _, _, _, _, _ => by simp [NestsWithin]
  | _, .optional shape, depth, t, a, h => by
    unfold NestsWithin
    rintro b rfl
    unfold Tree.read at h
    split at h
    · cases h
    · cases h
    · cases hb : t.read shape depth with
      | error f =>
        rw [hb] at h
        cases h
      | ok b' =>
        rw [hb] at h
        cases h
        exact nestsWithin_of_read shape hb
  | _, .list shape, depth, t, as, h => by
    unfold Tree.read at h
    split at h
    · next start items close =>
      obtain ⟨depth', hdepth, h⟩ := bind_eq_ok h
      obtain ⟨as', has, h⟩ := bind_eq_ok h
      obtain ⟨stop, -, h⟩ := bind_eq_ok h
      cases h
      obtain rfl := enter_eq_ok hdepth
      refine nestsWithin_list_succ fun a ha => ?_
      obtain ⟨t, ht⟩ := exists_of_readItems has a ha
      exact nestsWithin_of_read shape ht
    · exact absurd h (refuse_ne_ok _ _ _)
  | _, .record name closed parts build, depth, t, a, h => by
    unfold Tree.read at h
    split at h
    · next start members close =>
      obtain ⟨depth', hdepth, hread⟩ := bind_eq_ok h
      obtain rfl := enter_eq_ok hdepth
      obtain ⟨draft, hdraft, hread⟩ := bind_eq_ok hread
      obtain ⟨stop, -, hread⟩ := bind_eq_ok hread
      split at hread
      · next c hc =>
        cases hread
        have hkept : DraftNestsWithin parts depth' draft :=
          readMembers_keeps (fun hd hput => draftNestsWithin_of_readPart parts hd hput)
            (draftNestsWithin_blank depth' parts) hdraft
        exact nestsWithin_succ (hkept.finish hc)
      · cases hread
    · next start items close =>
      obtain ⟨depth', hdepth, h⟩ := bind_eq_ok h
      obtain ⟨⟨c, rest⟩, hparts, h⟩ := bind_eq_ok h
      obtain ⟨_, -, h⟩ := bind_eq_ok h
      cases h
      obtain rfl := enter_eq_ok hdepth
      exact nestsWithin_succ (partsNestWithin_of_readParts parts hparts)
    · exact absurd h (refuse_ne_ok _ _ _)
  | _, .beyond, _, _, _, h => by cases h

theorem draftNestsWithin_of_readPart : ∀ {γ : Type} (parts : Parts γ) {depth : Nat} {key : String}
    {t : Tree} {draft draft' : parts.Draft}, DraftNestsWithin parts depth draft →
      readPart parts depth key t draft = .ok draft' → DraftNestsWithin parts depth draft'
  | _, .none, _, _, _, _, _, _, _ => by simp [DraftNestsWithin]
  | _, .part name _ shape rest, depth, key, t, draft, draft', hd, h => by
    rw [readPart] at h
    unfold DraftNestsWithin at hd ⊢
    change (if name = key then _ else _ : Except Fault (Option _ × rest.Draft)) = _ at h
    split at h
    · obtain ⟨a, ha, h⟩ := bind_eq_ok h
      cases h
      refine ⟨fun b hb => ?_, hd.2⟩
      cases hb
      exact nestsWithin_of_read shape ha
    · obtain ⟨later, hlater, h⟩ := bind_eq_ok h
      cases h
      exact ⟨hd.1, draftNestsWithin_of_readPart rest hd.2 hlater⟩

theorem partsNestWithin_of_readParts : ∀ {γ : Type} (parts : Parts γ) {depth : Nat}
    {items rest : List Tree} {short : Nat → Except Fault Fault} {c : γ},
      readParts parts depth items short = .ok (c, rest) → PartsNestWithin parts depth c
  | _, .none, _, _, _, _, _, _ => by simp [PartsNestWithin]
  | _, .part _ default shape later, depth, items, rest, short, c, h => by
    unfold PartsNestWithin
    cases items with
    | nil =>
      rw [readParts] at h
      obtain ⟨fault, -, h⟩ := bind_eq_ok h
      cases default with
      | none => cases h
      | some a =>
        obtain ⟨⟨c', items'⟩, hc, h⟩ := bind_eq_ok h
        cases h
        exact ⟨.inl rfl, partsNestWithin_of_readParts later hc⟩
    | cons t items =>
      rw [readParts] at h
      obtain ⟨a, ha, h⟩ := bind_eq_ok h
      obtain ⟨⟨c', items'⟩, hc, h⟩ := bind_eq_ok h
      cases h
      exact ⟨.inr (nestsWithin_of_read shape ha), partsNestWithin_of_readParts later hc⟩

end

end Tree

/-! ## Texts -/

/-- What a text means nests as far as the limit allows. -/
theorem nestsWithin_of_read {α : Type} {shape : Shape α} {text : String} {a : α}
    (h : read shape text = .ok a) : NestsWithin shape depthLimit a := by
  unfold read at h
  have hparse := of_mapError h
  unfold Parse.read at hparse
  obtain ⟨b, hb, htrailing⟩ := bind_eq_ok hparse
  split at htrailing
  · cases htrailing
  · cases htrailing
    exact Tree.nestsWithin_of_read shape hb

end ProtoScribe.Json
