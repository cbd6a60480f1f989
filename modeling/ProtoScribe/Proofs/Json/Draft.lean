import ProtoScribe.Proofs.Json.Meaning

/-!
# Drafts of records

A record is read member by member into a draft of its parts, so the order of the members, the names
that are known already and the ones that are not known all show while it is read. What it means says
nothing of this: a draft that is completed with what the other members give means what all of them
give (`gathers_iff`).
-/

namespace ProtoScribe.Json

open Document (Shape Parts)

/-! ## Gathering members -/

/-- What adding a member of a record to a draft of its parts may give. -/
def Puts : {γ : Type} → (parts : Parts γ) → String → Datum → parts.Draft → parts.Draft → Prop
  | _, .none, _, _, draft, draft' => draft' = draft
  | _, .part name _ shape rest, key, d, draft, draft' =>
    if name = key then ∃ a, Means shape d a ∧ draft' = (some a, draft.2)
    else ∃ draft₁, Puts rest key d draft.2 draft₁ ∧ draft' = (draft.1, draft₁)

/-- What adding members of a record in order may give. -/
def Gathers {γ : Type} (closed : Bool) (parts : Parts γ) :
    List (String × Datum) → parts.Draft → parts.Draft → Prop
  | [], draft, draft' => draft' = draft
  | (key, d) :: ms, draft, draft' =>
    if key ∈ parts.names then
      parts.has key draft = false ∧
        ∃ draft₁, Puts parts key d draft draft₁ ∧ Gathers closed parts ms draft₁ draft'
    else closed = false ∧ Gathers closed parts ms draft draft'

/-! ## What a draft still lacks -/

/-- What a part means, given what is known of it and what is still to come. -/
def Fills {α : Type} (default : Option α) (shape : Shape α) :
    (known : Option α) → (slot : Option Datum) → α → Prop
  | none, none, a => default = some a
  | none, some d, a => Means shape d a
  | some known, none, a => known = a
  | some _, some _, _ => False

/-- What a draft means together with what is still to come. -/
def Completes : {γ : Type} → (parts : Parts γ) → parts.Draft → List (Option Datum) → γ → Prop
  | _, .none, _, slots, _ => slots = []
  | _, .part _ default shape rest, draft, slots, c =>
    match slots with
    | [] => False
    | slot :: slots => Fills default shape draft.1 slot c.1 ∧ Completes rest draft.2 slots c.2

/-- Where nothing is known, all is still to come. -/
theorem completes_blank : ∀ {γ : Type} (parts : Parts γ) (slots : List (Option Datum)) (c : γ),
    Completes parts parts.blank slots c ↔ PartsMean parts slots c
  | _, .none, slots, c => by
    rw [Completes, PartsMean]
  | _, .part _ _ _ _, [], c => by
    rw [Completes, PartsMean]
  | _, .part _ default shape rest, some d :: slots, (a, c) => by
    rw [Completes, PartsMean, Parts.blank, Fills, completes_blank]
  | _, .part _ default shape rest, none :: slots, (a, c) => by
    rw [Completes, PartsMean, Parts.blank, Fills, completes_blank]

/-- Where nothing is still to come, a draft means what it is finished to. -/
theorem completes_iff_finish : ∀ {γ : Type} (parts : Parts γ) (draft : parts.Draft) (c : γ),
    Completes parts draft (parts.names.map fun _ => none) c ↔ parts.finish draft = .ok c
  | _, .none, _, () => by
    simp [Completes, Parts.names, Parts.finish]
  | _, .part name default shape rest, draft, (a, c) => by
    obtain ⟨known, draft⟩ := draft
    simp only [Parts.names, List.map_cons, Completes, Parts.finish, completes_iff_finish rest]
    cases known with
    | some known => cases rest.finish draft <;> simp [Fills, Except.map]
    | none =>
      cases default with
      | some b => cases rest.finish draft <;> simp [Fills, Except.map]
      | none => simp [Fills]

/-- A member that is put is one less that is still to come. -/
theorem completes_puts {key : String} (d : Datum) (slot : String → Option Datum) :
    ∀ {γ : Type} {parts : Parts γ} (draft : parts.Draft) (c : γ), parts.names.Nodup →
      key ∈ parts.names →
      ((parts.has key draft = false ∧ ∃ draft₁, Puts parts key d draft draft₁ ∧
          Completes parts draft₁ (parts.names.map slot) c) ↔
        slot key = none ∧
          Completes parts draft (parts.names.map fun name => if name = key then some d else slot name)
            c)
  | _, .none, _, _, _, hmem => by
    rw [Parts.names] at hmem
    cases hmem
  | _, .part name default shape rest, draft, (a, c), hnodup, hmem => by
    obtain ⟨known, draft⟩ := draft
    rw [Parts.names, List.nodup_cons] at hnodup
    rw [Parts.names, List.mem_cons] at hmem
    simp only [Parts.names, List.map_cons, Parts.has, Puts, Completes]
    by_cases hname : name = key
    · subst hname
      have hrest : (rest.names.map fun n => if n = name then some d else slot n)
          = rest.names.map slot := by
        refine List.map_congr_left fun n hn => if_neg ?_
        rintro rfl
        exact hnodup.1 hn
      simp only [if_true, hrest]
      constructor
      · rintro ⟨hknown, _, ⟨a', ha, rfl⟩, hfills, hc⟩
        dsimp only at hknown hfills hc
        cases known with
        | some b => cases hknown
        | none =>
          cases hs : slot name with
          | some d' =>
            rw [hs] at hfills
            cases hfills
          | none =>
            rw [hs] at hfills
            cases hfills
            exact ⟨rfl, ha, hc⟩
      · rintro ⟨hs, hfills, hc⟩
        cases known with
        | some b => cases hfills
        | none =>
          refine ⟨rfl, _, ⟨a, hfills, rfl⟩, ?_, hc⟩
          rw [hs]
          exact rfl
    · have hkey := hmem.resolve_left (Ne.symm hname)
      have ih := completes_puts d slot draft c hnodup.2 hkey
      simp only [if_neg hname]
      constructor
      · rintro ⟨hhas, _, ⟨draft₁, hput, rfl⟩, hfills, hc⟩
        obtain ⟨hs, hc⟩ := ih.mp ⟨hhas, draft₁, hput, hc⟩
        exact ⟨hs, hfills, hc⟩
      · rintro ⟨hs, hfills, hc⟩
        obtain ⟨hhas, draft₁, hput, hc⟩ := ih.mpr ⟨hs, hc⟩
        exact ⟨hhas, _, ⟨draft₁, hput, rfl⟩, hfills, hc⟩

theorem lookup_eq_none_iff_not_mem {key : String} {ms : List (String × Datum)} :
    ms.lookup key = none ↔ key ∉ ms.map Prod.fst := by
  rw [List.lookup_eq_none_iff]
  constructor
  · intro h hmem
    obtain ⟨m, hm, rfl⟩ := List.mem_map.mp hmem
    exact absurd (h m hm) (by simp)
  · intro h m hm
    rw [bne_iff_ne]
    rintro rfl
    exact h (List.mem_map_of_mem hm)

/-- Members can be gathered into what a draft is finished to exactly if none of them is known
already, or unknown where the record is closed, and the draft means that together with them. -/
theorem gathers_iff {γ : Type} {closed : Bool} {parts : Parts γ} (hnodup : parts.names.Nodup)
    {ms : List (String × Datum)} {c : γ} : ∀ {draft : parts.Draft},
    (∃ draft', Gathers closed parts ms draft draft' ∧ parts.finish draft' = .ok c) ↔
      (closed = true → ∀ key ∈ ms.map Prod.fst, key ∈ parts.names) ∧
        ((ms.map Prod.fst).filter (· ∈ parts.names)).Nodup ∧
          Completes parts draft (parts.names.map fun name => ms.lookup name) c := by
  induction ms with
  | nil =>
    intro draft
    simp only [Gathers, exists_eq_left, List.lookup_nil]
    rw [completes_iff_finish]
    simp
  | cons m ms ih =>
    obtain ⟨key, d⟩ := m
    intro draft
    rw [List.map_cons]
    by_cases hknown : key ∈ parts.names
    · have hslots : (parts.names.map fun name => ((key, d) :: ms).lookup name)
          = parts.names.map fun name => if name = key then some d else ms.lookup name := by
        refine List.map_congr_left fun name _ => ?_
        rw [List.lookup_cons]
        by_cases hname : name = key
        · rw [if_pos hname, beq_iff_eq.mpr hname]
        · rw [if_neg hname, beq_eq_false_iff_ne.mpr hname]
      have hputs := completes_puts d (fun name => ms.lookup name) draft c hnodup hknown
      simp only [Gathers, if_pos hknown, hslots]
      rw [List.filter_cons_of_pos (by simpa using hknown), List.nodup_cons, List.mem_filter]
      constructor
      · rintro ⟨draft', ⟨hhas, draft₁, hput, hgathers⟩, hfinish⟩
        obtain ⟨hclosed, hfilter, hc⟩ := ih.mp ⟨draft', hgathers, hfinish⟩
        obtain ⟨hslot, hc⟩ := hputs.mp ⟨hhas, draft₁, hput, hc⟩
        refine ⟨fun h => List.forall_mem_cons.mpr ⟨hknown, hclosed h⟩, ⟨?_, hfilter⟩, hc⟩
        exact fun hmem => lookup_eq_none_iff_not_mem.mp hslot hmem.1
      · rintro ⟨hclosed, ⟨hnew, hfilter⟩, hc⟩
        have hslot : ms.lookup key = none :=
          lookup_eq_none_iff_not_mem.mpr fun hmem => hnew ⟨hmem, decide_eq_true hknown⟩
        obtain ⟨hhas, draft₁, hput, hc⟩ := hputs.mpr ⟨hslot, hc⟩
        obtain ⟨draft', hgathers, hfinish⟩ :=
          ih.mpr ⟨fun h => (List.forall_mem_cons.mp (hclosed h)).2, hfilter, hc⟩
        exact ⟨draft', ⟨hhas, draft₁, hput, hgathers⟩, hfinish⟩
    · have hslots : (parts.names.map fun name => ((key, d) :: ms).lookup name)
          = parts.names.map fun name => ms.lookup name := by
        refine List.map_congr_left fun name hname => ?_
        have hne : name ≠ key := by
          rintro rfl
          exact hknown hname
        rw [List.lookup_cons, beq_eq_false_iff_ne.mpr hne]
      simp only [Gathers, if_neg hknown, hslots]
      rw [List.filter_cons_of_neg (by simpa using hknown)]
      constructor
      · rintro ⟨draft', ⟨hopen, hgathers⟩, hfinish⟩
        obtain ⟨-, hfilter, hc⟩ := ih.mp ⟨draft', hgathers, hfinish⟩
        exact ⟨fun h => absurd h (by simp [hopen]), hfilter, hc⟩
      · rintro ⟨hclosed, hfilter, hc⟩
        have hopen : closed = false := by
          rw [← Bool.not_eq_true]
          exact fun h => hknown (List.forall_mem_cons.mp (hclosed h)).1
        obtain ⟨draft', hgathers, hfinish⟩ :=
          ih.mpr ⟨fun h => absurd h (by simp [hopen]), hfilter, hc⟩
        exact ⟨draft', ⟨hopen, hgathers⟩, hfinish⟩

/-! ## Items of records -/

/-- As many slots as a record has parts, filled with items as far as there are any. -/
def slotsOf : Nat → List Datum → List (Option Datum)
  | 0, _ => []
  | n + 1, [] => none :: slotsOf n []
  | n + 1, d :: ds => some d :: slotsOf n ds

theorem slotsOf_eq {n missing : Nat} : ∀ {ds : List Datum}, ds.length + missing = n →
    slotsOf n ds = ds.map some ++ List.replicate missing none := by
  induction n generalizing missing with
  | zero =>
    intro ds h
    obtain ⟨hds, rfl⟩ := Nat.add_eq_zero_iff.mp h
    rw [List.length_eq_zero_iff.mp hds, slotsOf]
    rfl
  | succ n ih =>
    intro ds h
    cases ds with
    | nil =>
      rw [List.length_nil, Nat.zero_add] at h
      rw [slotsOf, ih (Nat.zero_add n), h]
      rfl
    | cons d ds =>
      rw [List.length_cons] at h
      have hrest : ds.length + missing = n := by omega
      rw [slotsOf, ih hrest]
      rfl

end ProtoScribe.Json
