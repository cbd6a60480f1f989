import ProtoScribe.Proofs.Json.Nesting
import ProtoScribe.Yaml.Read

/-!
# Nesting of what is read from YAML

A node is read with a number of sequences and mappings that may still open, and what it then means
nests no further (`nestsWithin_of_read`). An alias opens nothing itself: the number counts what opens
in the node that it stands for. An empty scalar that stands for a list or record opens nothing
either, and so all parts of the record are left out.

The recursion is on the shape, as it is for JSON.
-/

namespace ProtoScribe.Yaml

open ProtoScribe.Document

namespace Reading

variable {α β : Type} {r : Reading α} {f : α → Reading β} {jumps : Nat}

/-- A reading ends well if both of its steps do. -/
theorem exists_of_bind {out : β × Nat} (h : (r >>= f) jumps = .ok out) :
    ∃ a jumps', r jumps = .ok (a, jumps') ∧ f a jumps' = .ok out := by
  change (do let (a, s) ← r jumps; f a s : Except Error _) = _ at h
  cases hr : r jumps with
  | error e =>
    rw [hr] at h
    cases h
  | ok p =>
    rw [hr] at h
    exact ⟨p.1, p.2, rfl, h⟩

/-- A place for complaints changes nothing about a reading that has none. -/
theorem of_within {place : Place} {out : α × Nat} (h : within place r jumps = .ok out) :
    r jumps = .ok out := by
  unfold within at h
  split at h
  · cases h
  · exact h

end Reading

namespace LinkedNode

open Reading

theorem refuse_apply_ne_ok {α : Type} (expected : String) (n : LinkedNode) (jumps : Nat)
    (out : α × Nat) : refuse expected n jumps ≠ .ok out := by
  cases n <;> exact nofun

/-! ## Sequences and mappings -/

/-- What may open leaves one less to open in it. -/
theorem enter_apply_eq_ok {mark : Mark} {depth depth' jumps jumps' : Nat}
    (h : enter mark depth jumps = .ok (depth', jumps')) : depth = depth' + 1 := by
  cases depth with
  | zero => cases h
  | succ depth =>
    cases h
    rfl

theorem finish_apply_eq_ok {γ : Type} {parts : Parts γ} {draft : parts.Draft} {c : γ}
    {jumps jumps' : Nat} (h : finish parts draft jumps = .ok (c, jumps')) :
    parts.finish draft = .ok c := by
  unfold finish at h
  cases hc : parts.finish draft with
  | error name =>
    rw [hc] at h
    cases h
  | ok c' =>
    rw [hc] at h
    cases h
    rfl

/-- Each item of a list has been read. -/
theorem exists_of_readItems {α : Type} {read : Path → LinkedNode → Reading α} {path : Path} :
    ∀ {items : List LinkedNode} {index jumps jumps' : Nat} {as : List α},
      readItems read path index items jumps = .ok (as, jumps') →
      ∀ a ∈ as, ∃ step n before after, read step n before = .ok (a, after)
  | [], index, jumps, jumps', as, h, a, ha => by
    cases h
    cases ha
  | n :: items, index, jumps, jumps', as, h, a, ha => by
    unfold readItems at h
    obtain ⟨b, jumps₁, hb, h⟩ := exists_of_bind h
    obtain ⟨bs, jumps₂, hbs, h⟩ := exists_of_bind h
    cases h
    rcases List.mem_cons.mp ha with rfl | ha
    · exact ⟨_, n, jumps, jumps₁, hb⟩
    · exact exists_of_readItems hbs a ha

/-- What each pair that is put keeps is kept by all of them. -/
theorem readPairs_keeps {d : Document} {γ : Type} {closed : Bool} {parts : Parts γ} {path : Path}
    {put : String → Path → LinkedNode → parts.Draft → Reading parts.Draft}
    {Keeps : parts.Draft → Prop}
    (hput : ∀ {name step n draft jumps draft' jumps'}, Keeps draft →
      put name step n draft jumps = .ok (draft', jumps') → Keeps draft') :
    ∀ {pairs : List (LinkedNode × LinkedNode)} {draft draft' : parts.Draft} {jumps jumps' : Nat},
      Keeps draft → readPairs d closed parts path put pairs draft jumps = .ok (draft', jumps') →
      Keeps draft'
  | [], draft, draft', jumps, jumps', hd, h => by
    cases h
    exact hd
  | (key, value) :: pairs, draft, draft', jumps, jumps', hd, h => by
    unfold readPairs at h
    obtain ⟨name, jumps₁, -, h⟩ := exists_of_bind h
    split at h
    · split at h
      · cases h
      · obtain ⟨draft₁, jumps₂, hdraft₁, h⟩ := exists_of_bind h
        exact readPairs_keeps hput (hput hd hdraft₁) h
    · exact readPairs_keeps hput hd h

/-! ## All shapes -/

mutual

/-- **What is read nests no further than it may.** -/
theorem nestsWithin_of_read (d : Document) : ∀ {α : Type} (shape : Shape α) {depth : Nat}
    {path : Path} {n : LinkedNode} {jumps jumps' : Nat} {a : α},
      LinkedNode.read d shape depth path n jumps = .ok (a, jumps') → NestsWithin shape depth a
  | _, .text _, _, _, _, _, _, _, _ => by simp [NestsWithin]
  | _, .integer _, _, _, _, _, _, _, _ => by simp [NestsWithin]
  | _, .flag, _, _, _, _, _, _, _ => by simp [NestsWithin]
  | _, .choice _, _, _, _, _, _, _, _ => by simp [NestsWithin]
  | _, .optional shape, depth, path, n, jumps, jumps', a, h => by
    unfold NestsWithin
    rintro b rfl
    unfold LinkedNode.read at h
    obtain ⟨n, jumps₁, -, h⟩ := exists_of_bind h
    obtain ⟨present, jumps₂, -, h⟩ := exists_of_bind h
    split at h
    · obtain ⟨b', jumps₃, hb, h⟩ := exists_of_bind h
      cases h
      exact nestsWithin_of_read d shape hb
    · cases h
  | _, .list shape, depth, path, n, jumps, jumps', as, h => by
    unfold LinkedNode.read at h
    obtain ⟨n, jumps₁, -, h⟩ := exists_of_bind h
    have hread := of_within h
    split at hread
    · next head items =>
      obtain ⟨depth', jumps₂, hdepth, hitems⟩ := exists_of_bind hread
      obtain rfl := enter_apply_eq_ok hdepth
      refine nestsWithin_list_succ fun a ha => ?_
      obtain ⟨step, item, before, after, hitem⟩ := exists_of_readItems hitems a ha
      exact nestsWithin_of_read d shape hitem
    · split at hread
      · cases hread
        simp [NestsWithin]
      · exact absurd hread (refuse_apply_ne_ok _ _ _ _)
    · exact absurd hread (refuse_apply_ne_ok _ _ _ _)
  | _, .record name closed parts build, depth, path, n, jumps, jumps', a, h => by
    unfold LinkedNode.read at h
    obtain ⟨n, jumps₁, -, h⟩ := exists_of_bind h
    have hread := of_within h
    split at hread
    · next head pairs =>
      obtain ⟨depth', jumps₂, hdepth, hopen⟩ := exists_of_bind hread
      obtain rfl := enter_apply_eq_ok hdepth
      obtain ⟨draft, jumps₃, hdraft, hparts⟩ := exists_of_bind hopen
      obtain ⟨c, jumps₄, hc, hbuild⟩ := exists_of_bind hparts
      cases hbuild
      have hkept : DraftNestsWithin parts depth' draft :=
        readPairs_keeps (fun hd hput => draftNestsWithin_of_readPart d parts hd hput)
          (draftNestsWithin_blank depth' parts) hdraft
      exact nestsWithin_succ (hkept.finish (finish_apply_eq_ok hc))
    · split at hread
      · obtain ⟨c, jumps₂, hc, hread⟩ := exists_of_bind hread
        cases hread
        exact nestsWithin_of_blank depth (finish_apply_eq_ok hc)
      · exact absurd hread (refuse_apply_ne_ok _ _ _ _)
    · exact absurd hread (refuse_apply_ne_ok _ _ _ _)
  | _, .beyond, _, _, _, _, _, _, h => by cases h

theorem draftNestsWithin_of_readPart (d : Document) : ∀ {γ : Type} (parts : Parts γ) {depth : Nat}
    {key : String} {path : Path} {n : LinkedNode} {draft draft' : parts.Draft} {jumps jumps' : Nat},
      DraftNestsWithin parts depth draft →
      readPart d parts depth key path n draft jumps = .ok (draft', jumps') →
      DraftNestsWithin parts depth draft'
  | _, .none, _, _, _, _, _, _, _, _, _, _ => by simp [DraftNestsWithin]
  | _, .part name _ shape rest, depth, key, path, n, draft, draft', jumps, jumps', hd, h => by
    rw [readPart] at h
    unfold DraftNestsWithin at hd ⊢
    change (if name = key then _ else _ : Reading (Option _ × rest.Draft)) jumps = _ at h
    split at h
    · obtain ⟨a, jumps₁, ha, h⟩ := exists_of_bind h
      cases h
      refine ⟨fun b hb => ?_, hd.2⟩
      cases hb
      exact nestsWithin_of_read d shape ha
    · obtain ⟨later, jumps₁, hlater, h⟩ := exists_of_bind h
      cases h
      exact ⟨hd.1, draftNestsWithin_of_readPart d rest hd.2 hlater⟩

end

end LinkedNode

/-! ## Texts -/

/-- A document without a root means nothing that nests. -/
theorem nestsWithin_of_readBlank {α : Type} {shape : Shape α} {a : α} (depth : Nat)
    (h : readBlank shape = .ok a) : NestsWithin shape depth a := by
  unfold readBlank at h
  split at h
  · cases h
    simp [NestsWithin]
  · cases h
    simp [NestsWithin]
  · split at h
    · next c hc =>
      cases h
      exact nestsWithin_of_blank depth hc
    · cases h
  · cases h

/-- What a text means nests as far as the limit allows. -/
theorem nestsWithin_of_read {α : Type} {shape : Shape α} {text : String} {a : α}
    (h : read shape text = .ok a) : NestsWithin shape depthLimit a := by
  unfold read at h
  split at h
  · cases h
  next d hd =>
  unfold Document.read at h
  cases hr : d.root with
  | none =>
    simp only [hr] at h
    obtain ⟨b, hb, h⟩ := Json.bind_eq_ok h
    split at h <;> cases h
    exact nestsWithin_of_readBlank depthLimit hb
  | some root =>
    simp only [hr] at h
    obtain ⟨b, hb, h⟩ := Json.bind_eq_ok h
    split at h <;> cases h
    cases hread : LinkedNode.read d shape depthLimit [] root 0 with
    | error e =>
      rw [hread] at hb
      cases hb
    | ok out =>
      rw [hread] at hb
      cases hb
      exact LinkedNode.nestsWithin_of_read d shape hread

end ProtoScribe.Yaml
