import ProtoScribe.Proofs.Json.Draft

/-!
# Reading settles what is meant

A sound tree is read under a shape as what its datum means (`settles_read`), and with it a text as
what it spells (`read_eq_ok_iff`).

The induction is on the shape. For a record it says that each member is put into a draft as what it
means, and that the items of an array are what the parts mean in order.
-/

namespace ProtoScribe.Json

open Document (Shape Parts IntegerKind)

/-! ## Distinct names -/

mutual

/-- In each record of a shape the names are distinct. -/
def Distinct : {α : Type} → Shape α → Prop
  | _, .text _ => True
  | _, .integer _ => True
  | _, .flag => True
  | _, .choice _ => True
  | _, .optional shape => Distinct shape
  | _, .list shape => Distinct shape
  | _, .record _ _ parts _ => parts.names.Nodup ∧ PartsDistinct parts
  | _, .beyond => True

/-- So they are in each record of some parts. -/
def PartsDistinct : {γ : Type} → Parts γ → Prop
  | _, .none => True
  | _, .part _ _ shape rest => Distinct shape ∧ PartsDistinct rest

end

namespace Tree

variable {t : Tree} {d : Datum}

/-! ## Single values -/

theorem refuse_ne_ok {α : Type} (expected : String) (t : Tree) (a : α) :
    t.refuse expected ≠ .ok a := by
  cases t with
  | number start literal =>
    cases h : literal.strict with
    | error f => simp [refuse, h, bind, Except.bind]
    | ok n => cases n <;> simp [refuse, h, bind, Except.bind, mismatch]
  | string start literal =>
    cases h : literal.strict <;> simp [refuse, h, bind, Except.bind, mismatch]
  | _ => simp [refuse, mismatch]

/-- A value that means nothing under a shape is refused. -/
theorem settles_refuse {α : Type} (expected : String) (t : Tree) {meant : α → Prop} {deep : Prop}
    (h : ∀ a, ¬meant a) : Settles (t.refuse expected) meant deep :=
  .of_not_meant (refuse_ne_ok expected t) h

theorem settles_readText (expected : String) (h : t.Of d) :
    Settles (t.readText expected) (fun s => d = .string s) False := by
  cases h with
  | string hlit =>
    refine .of_ok_iff fun s => ?_
    rw [readText, hlit.strict, Except.ok.injEq, Datum.string.injEq]
  | _ =>
    simp only [readText]
    refine settles_refuse expected _ ?_
    intro s hs
    cases hs

theorem settles_readFlag (h : t.Of d) : Settles t.readFlag (fun b => d = .flag b) False := by
  cases h with
  | flag =>
    refine .of_ok_iff fun b => ?_
    rw [readFlag, Except.ok.injEq, Datum.flag.injEq]
  | _ =>
    simp only [readFlag]
    refine settles_refuse "a boolean" _ ?_
    intro b hb
    cases hb

/-- A number is read as the integer that it means, if that is one of the kind. -/
theorem settles_readInteger {α : Type} (kind : IntegerKind α) (h : t.Of d) :
    Settles (t.readInteger kind) (Means (.integer kind) d) False := by
  cases h with
  | @number start literal n hlit =>
    have hmeans (a : α) : Means (.integer kind) (.number n) a ↔
        ∃ i, literal.strict = .ok (.integer i) ∧ kind.ofInt? i = some a := by
      rw [Means]
      constructor
      · rintro ⟨n', i, hn, hi, hsize, ha⟩
        cases hn
        exact ⟨i, (hlit.strict i).mpr ⟨hi, hsize⟩, ha⟩
      · rintro ⟨i, hi, ha⟩
        obtain ⟨hi, hsize⟩ := (hlit.strict i).mp hi
        exact ⟨n, i, rfl, hi, hsize, ha⟩
    refine .of_ok_iff fun a => ?_
    rw [hmeans, readInteger]
    cases hs : literal.strict with
    | error f => simp [bind, Except.bind]
    | ok v =>
      cases v with
      | integer i => cases ha : kind.ofInt? i <;> simp [bind, Except.bind, ha]
      | real x =>
        have hne := refuse_ne_ok kind.name (number start literal) a
        simpa [bind, Except.bind] using hne
  | _ =>
    simp only [readInteger]
    refine settles_refuse kind.name _ ?_
    intro a ha
    rw [Means] at ha
    obtain ⟨n, i, hn, -⟩ := ha
    cases hn

/-- An array or object opens unless no more may, and what is in it may open one less. -/
theorem settles_enter {α : Type} (start depth : Nat) {f : Nat → Except Fault α} {meant : α → Prop}
    {deep : Prop} (h : Settles (f (depth - 1)) meant deep) :
    Settles (enter start depth >>= f) meant (depth = 0 ∨ deep) := by
  cases depth with
  | zero =>
    constructor
    · intro a
      exact iff_of_false nofun fun h => h.2 (.inl rfl)
    · intro a _ _
      exact ⟨start + 1, rfl⟩
  | succ depth => exact h.congr (fun _ => Iff.rfl) (by simp)

/-! ## Choices -/

theorem settles_readWord {α : Type} (words : List (String × α)) {literal : Literal String}
    {word : String} (h : literal.OfString word) :
    Settles (readWord words literal) (fun a => words.lookup word = some a) False := by
  refine .of_ok_iff fun a => ?_
  rw [readWord, h.strict]
  cases hw : words.lookup word <;> simp [bind, Except.bind, hw]

/-- The value of a choice's object has to be null, and nothing may follow. -/
theorem settles_closeChoice {α : Type} (a : α) (next stop : Nat) {members : List (Member Tree)}
    {ms : List (String × Datum)} (h : t.Of d) (hms : List.Forall₂ Member.Of members ms) :
    Settles (match t with
        | null _ _ => closeChoice a next members (.closed stop)
        | value => value.refuse "unit")
      (fun b => d = .null ∧ ms = [] ∧ a = b) False := by
  cases h with
  | null =>
    refine .of_ok_iff fun b => ?_
    cases hms with
    | nil => simp [closeChoice]
    | cons _ _ => simp [closeChoice]
  | _ =>
    refine settles_refuse "unit" _ ?_
    rintro b ⟨hd, -⟩
    cases hd

/-- A choice is read as the value of its word. -/
theorem settles_readChoice {α : Type} (words : List (String × α)) (depth : Nat) (h : t.Of d) :
    Settles (t.readChoice words depth) (Means (.choice words) d) (Deep (.choice words) depth d) := by
  cases h with
  | @string start literal word hlit =>
    refine (settles_readWord words hlit).congr ?_ ?_
    · intro a
      simp [Means]
    · simp only [Deep]
  | @object start stop members ms hms =>
    cases hms with
    | nil =>
      refine .of_not_meant ?_ ?_
      · intro a ha
        cases depth <;> cases ha
      · intro a ha
        rw [Means] at ha
        obtain ⟨word, hword | hword, -⟩ := ha <;> cases hword
    | @cons _ _ members ms hm hms =>
      obtain @⟨key, colonAt, next, value, k, d', hkey, hvalue⟩ := hm
      refine (settles_enter start depth ((settles_readWord words hkey).bind fun a _ =>
        settles_closeChoice a next stop hvalue hms)).congr ?_ ?_
      · intro a
        simp only [Means, Datum.object.injEq, List.cons.injEq, Prod.mk.injEq, reduceCtorEq,
          false_or]
        constructor
        · rintro ⟨a', ha, rfl, rfl, rfl⟩
          exact ⟨k, ⟨⟨rfl, rfl⟩, rfl⟩, ha⟩
        · rintro ⟨word, ⟨⟨rfl, rfl⟩, rfl⟩, ha⟩
          exact ⟨a, ha, rfl, rfl, rfl⟩
      · rw [Deep, or_false, or_false]
  | _ =>
    refine .of_not_meant ?_ ?_
    · intro a ha
      cases ha
    · intro a ha
      rw [Means] at ha
      obtain ⟨word, hword | hword, -⟩ := ha <;> cases hword

/-! ## Lists -/

/-- The items of a list are read as what they mean, one by one. -/
theorem settles_readItems {α : Type} {read : Tree → Except Fault α} {meant : Datum → α → Prop}
    {deep : Datum → Prop} (hread : ∀ t d, t.Of d → Settles (read t) (meant d) (deep d))
    {ts : List Tree} {ds : List Datum} (h : List.Forall₂ Tree.Of ts ds) :
    Settles (readItems read ts) (List.Forall₂ meant ds) (∃ d ∈ ds, deep d) := by
  induction h with
  | nil =>
    refine (Settles.pure []).congr ?_ ?_
    · intro as
      rw [List.forall₂_nil_left_iff]
    · simp
  | @cons t d ts ds ht _ ih =>
    refine ((hread t d ht).bind fun a _ => ih.bind fun as _ => .pure (a :: as)).congr ?_ ?_
    · intro as
      rw [List.forall₂_cons_left_iff]
      constructor
      · rintro ⟨a, ha, as, has, rfl⟩
        exact ⟨a, as, ha, has, rfl⟩
      · rintro ⟨a, as, ha, has, rfl⟩
        exact ⟨a, ha, as, has, rfl⟩
    · simp

/-! ## Records -/

/-- Members are read in order, and nothing is asked of those with unknown names. -/
theorem settles_readMembers {γ : Type} {closed : Bool} {parts : Parts γ}
    {put : String → Tree → parts.Draft → Except Fault parts.Draft} {deep : String → Datum → Prop}
    (hput : ∀ key t d draft, t.Of d →
      Settles (put key t draft) (Puts parts key d draft) (deep key d))
    (hdeep : ∀ key d, key ∉ parts.names → ¬deep key d) {members : List (Member Tree)}
    {ms : List (String × Datum)} (h : List.Forall₂ Member.Of members ms) :
    ∀ draft, Settles (readMembers closed parts put members draft) (Gathers closed parts ms draft)
      (∃ m ∈ ms, deep m.1 m.2) := by
  induction h with
  | nil =>
    intro draft
    refine (Settles.pure draft).congr ?_ ?_
    · intro draft'
      rw [Gathers]
    · simp
  | @cons member m members ms hm _ ih =>
    obtain @⟨literal, colonAt, next, value, key, d, hkey, hvalue⟩ := hm
    intro draft
    rw [readMembers, hkey.strict]
    change Settles (if key ∈ parts.names then _ else _) _ _
    by_cases hknown : key ∈ parts.names
    · rw [if_pos hknown]
      cases hhas : parts.has key draft with
      | true =>
        refine .of_not_meant ?_ ?_
        · rintro draft' ⟨⟩
        · intro draft' hg
          rw [Gathers, if_pos hknown, hhas] at hg
          cases hg.1
      | false =>
        refine ((hput key value d draft hvalue).bind fun draft₁ _ => ih draft₁).congr ?_ ?_
        · intro draft'
          rw [Gathers, if_pos hknown, hhas]
          simp
        · simp
    · rw [if_neg hknown]
      have hd := hdeep key d hknown
      cases closed with
      | true =>
        refine .of_not_meant ?_ ?_
        · rintro draft' ⟨⟩
        · intro draft' hg
          rw [Gathers, if_neg hknown] at hg
          cases hg.1
      | false =>
        rw [hvalue.looseFault_eq_none]
        refine (ih draft).congr ?_ ?_
        · intro draft'
          rw [Gathers, if_neg hknown]
          simp
        · simp [hd]

/-- A draft is finished where no part lacks a value. -/
theorem settles_finish {α γ : Type} (parts : Parts γ) (build : γ → α) (draft : parts.Draft)
    (stop : Nat) :
    Settles (match parts.finish draft with
        | .ok c => (.ok (build c) : Except Fault α)
        | .error name => .error ⟨.complaint (.missing name), stop⟩)
      (fun a => ∃ c, parts.finish draft = .ok c ∧ build c = a) False := by
  refine .of_ok_iff fun a => ?_
  cases parts.finish draft <;> simp

/-- At the end of an array that is read as parts, no item may be left. -/
theorem settles_closeParts (items : List Tree) (stop : Nat) :
    Settles (closeParts items (.closed stop)) (fun _ => items = []) False := by
  refine .of_ok_iff fun _ => ?_
  cases items with
  | nil => simp [closeParts, closeArray, bind, Except.bind, pure, Except.pure]
  | cons t ts => simp [closeParts]

/-! ## All shapes -/

/-- What is not blank is read under the shape that may be left blank. -/
theorem read_optional {α : Type} {shape : Shape α} {depth : Nat} {t : Tree} {d : Datum} (h : t.Of d)
    (hd : d ≠ .null) : t.read (.optional shape) depth = some <$> t.read shape depth := by
  cases h with
  | null => exact absurd rfl hd
  | _ => rw [Tree.read] <;> nofun

/-- An array is read as a list if its items are read as what they mean. -/
theorem settles_readList {α : Type} {shape : Shape α} {depth : Nat} (start stop : Nat)
    {items : List Tree} {ds : List Datum}
    (hread : ∀ (t : Tree) (d : Datum), t.Of d →
      Settles (t.read shape (depth - 1)) (Means shape d) (Deep shape (depth - 1) d))
    (hitems : List.Forall₂ Tree.Of items ds) :
    Settles ((array start items (.closed stop)).read (.list shape) depth)
      (Means (.list shape) (.array ds)) (Deep (.list shape) depth (.array ds)) := by
  rw [Tree.read]
  refine (settles_enter start depth ((settles_readItems hread hitems).bind fun as _ =>
    .pure as)).congr ?_ ?_
  · intro as
    simp [Means]
  · simp [Deep]

section Record

variable {α γ : Type} {name : String} {closed : Bool} {parts : Parts γ} {build : γ → α}
  {depth : Nat} (start stop : Nat)

/-- An object is read as a record if its members are put where they belong. -/
theorem settles_readObject {members : List (Member Tree)} {ms : List (String × Datum)}
    (hnodup : parts.names.Nodup)
    (hpart : ∀ key t d draft, t.Of d → Settles (readPart parts (depth - 1) key t draft)
      (Puts parts key d draft) (DeepPart parts (depth - 1) key d))
    (hms : List.Forall₂ Member.Of members ms) :
    Settles ((object start members (.closed stop)).read (.record name closed parts build) depth)
      (Means (.record name closed parts build) (.object ms))
      (Deep (.record name closed parts build) depth (.object ms)) := by
  rw [Tree.read]
  refine (settles_enter start depth ((settles_readMembers hpart (fun _ _ => not_deepPart) hms
    parts.blank).bind fun draft _ => settles_finish parts build draft stop)).congr ?_ ?_
  · intro a
    rw [Means]
    constructor
    · rintro ⟨draft, hgathers, c, hfinish, rfl⟩
      obtain ⟨hclosed, hnew, hc⟩ := (gathers_iff hnodup).mp ⟨draft, hgathers, hfinish⟩
      exact ⟨hclosed, _, c, .object hnew, (completes_blank ..).mp hc, rfl⟩
    · rintro ⟨hclosed, slots, c, hgives, hc, rfl⟩
      obtain ⟨hnew⟩ := hgives
      obtain ⟨draft, hgathers, hfinish⟩ :=
        (gathers_iff hnodup).mpr ⟨hclosed, hnew, (completes_blank ..).mpr hc⟩
      exact ⟨draft, hgathers, c, hfinish, rfl⟩
  · rw [Deep, or_false]

/-- An array is read as a record if its items are the parts in order and none is left over. -/
theorem settles_readArray {items : List Tree} {ds : List Datum}
    (hparts : ∀ {short : Nat → Except Fault Fault}, (∀ index, ∃ f, short index = .ok f) →
      Settles (readParts parts (depth - 1) items short)
        (fun p => PartsMean parts (slotsOf parts.names.length ds) p.1 ∧
          p.2 = items.drop parts.names.length) (DeepParts parts (depth - 1) ds))
    (hitems : List.Forall₂ Tree.Of items ds) :
    Settles ((array start items (.closed stop)).read (.record name closed parts build) depth)
      (Means (.record name closed parts build) (.array ds))
      (Deep (.record name closed parts build) depth (.array ds)) := by
  have hlength : items.length = ds.length := hitems.length_eq
  rw [Tree.read]
  refine (settles_enter start depth ((hparts fun index => ⟨_, rfl⟩).bind fun p _ =>
    (settles_closeParts p.2 stop).bind fun _ _ => .pure (build p.1))).congr ?_ ?_
  · intro a
    rw [Means]
    constructor
    · rintro ⟨⟨c, rest⟩, ⟨hc, hrest⟩, -, hnil, rfl⟩
      have hle : ds.length ≤ parts.names.length := by
        rw [← hlength, ← List.drop_eq_nil_iff, ← hrest, hnil]
      have hsum := Nat.add_sub_cancel' hle
      rw [slotsOf_eq hsum] at hc
      exact ⟨fun _ => nofun, _, c, .array hsum, hc, rfl⟩
    · rintro ⟨-, slots, c, hgives, hc, rfl⟩
      cases hgives with
      | array hsum =>
        rw [← slotsOf_eq hsum] at hc
        refine ⟨(c, []), ⟨hc, ?_⟩, (), rfl, rfl⟩
        rw [eq_comm, List.drop_eq_nil_iff, hlength]
        omega
  · rw [Deep, or_false, or_false]

end Record

mutual

/-- **Reading a sound tree settles what its datum means.** -/
theorem settles_read : ∀ {α : Type} (shape : Shape α), Distinct shape → ∀ (depth : Nat) {t : Tree}
    {d : Datum}, t.Of d → Settles (t.read shape depth) (Means shape d) (Deep shape depth d)
  | _, .text expected, _, depth, t, d, h => by
    rw [Tree.read]
    refine (settles_readText expected h).congr ?_ ?_
    · intro s
      rw [Means]
    · rw [Deep]
  | _, .integer kind, _, depth, t, d, h => by
    rw [Tree.read, Deep]
    exact settles_readInteger kind h
  | _, .flag, _, depth, t, d, h => by
    rw [Tree.read]
    refine (settles_readFlag h).congr ?_ ?_
    · intro b
      rw [Means]
    · rw [Deep]
  | _, .choice words, _, depth, t, d, h => by
    rw [Tree.read]
    exact settles_readChoice words depth h
  | _, .optional shape, hd, depth, t, d, h => by
    rw [Distinct] at hd
    by_cases hnull : d = .null
    · subst hnull
      cases h
      rw [Tree.read]
      refine (Settles.pure none).congr ?_ ?_
      · intro a
        cases a <;> simp [Means]
      · simp [Deep]
    · rw [read_optional h hnull]
      refine ((settles_read shape hd depth h).map some).congr ?_ ?_
      · intro a
        cases a <;> simp [Means, hnull]
      · simp [Deep, hnull]
  | _, .list shape, hd, depth, t, d, h => by
    rw [Distinct] at hd
    cases h with
    | @array start stop items ds hitems =>
      exact settles_readList start stop (fun t d h => settles_read shape hd (depth - 1) h) hitems
    | _ =>
      simp only [Tree.read]
      refine settles_refuse _ _ ?_
      intro a ha
      rw [Means] at ha
      obtain ⟨ds, hds, -⟩ := ha
      cases hds
  | _, .record name closed parts build, hd, depth, t, d, h => by
    rw [Distinct] at hd
    cases h with
    | @object start stop members ms hms =>
      exact settles_readObject start stop hd.1 (settles_readPart parts hd.2 (depth - 1)) hms
    | @array start stop items ds hitems =>
      exact settles_readArray start stop (settles_readParts parts hd.2 (depth - 1) hitems) hitems
    | _ =>
      simp only [Tree.read]
      refine settles_refuse _ _ ?_
      intro a ha
      rw [Means] at ha
      obtain ⟨-, slots, c, hgives, -⟩ := ha
      cases hgives
  | _, .beyond, _, depth, t, d, h => by
    rw [Tree.read, Deep]
    constructor
    · intro a
      exact iff_of_false nofun fun h => h.2 trivial
    · intro a _ _
      exact ⟨_, rfl⟩

theorem settles_readPart : ∀ {γ : Type} (parts : Parts γ), PartsDistinct parts → ∀ (depth : Nat)
    (key : String) (t : Tree) (d : Datum) (draft : parts.Draft), t.Of d →
      Settles (readPart parts depth key t draft) (Puts parts key d draft)
        (DeepPart parts depth key d)
  | _, .none, _, depth, key, t, d, draft, h => by
    rw [readPart, DeepPart]
    refine (Settles.pure draft).congr ?_ Iff.rfl
    intro draft'
    rw [Puts]
  | _, .part name _ shape rest, hd, depth, key, t, d, draft, h => by
    rw [PartsDistinct] at hd
    rw [readPart, DeepPart]
    change Settles (if name = key then _ else _ : Except Fault (Option _ × rest.Draft)) _ _
    by_cases hname : name = key
    · rw [if_pos hname, if_pos hname]
      refine ((settles_read shape hd.1 depth h).bind fun a _ => .pure (some a, draft.2)).congr ?_ ?_
      · intro draft'
        simp only [Puts, if_pos hname]
        exact Iff.rfl
      · rw [or_false]
    · rw [if_neg hname, if_neg hname]
      refine ((settles_readPart rest hd.2 depth key t d draft.2 h).bind fun draft₁ _ =>
        .pure (draft.1, draft₁)).congr ?_ ?_
      · intro draft'
        simp only [Puts, if_neg hname]
        exact Iff.rfl
      · rw [or_false]

theorem settles_readParts : ∀ {γ : Type} (parts : Parts γ), PartsDistinct parts → ∀ (depth : Nat)
    {items : List Tree} {ds : List Datum} {short : Nat → Except Fault Fault},
    List.Forall₂ Tree.Of items ds → (∀ index, ∃ f, short index = .ok f) →
      Settles (readParts parts depth items short)
        (fun p => PartsMean parts (slotsOf parts.names.length ds) p.1 ∧
          p.2 = items.drop parts.names.length) (DeepParts parts depth ds)
  | _, .none, _, depth, items, ds, short, h, hshort => by
    rw [readParts, DeepParts]
    refine (Settles.pure ((), items)).congr ?_ Iff.rfl
    rintro ⟨c, rest⟩
    simp [Parts.names, slotsOf, PartsMean]
  | _, .part name default shape rest, hd, depth, items, ds, short, h, hshort => by
    rw [PartsDistinct] at hd
    have hrest : ∀ index, ∃ f, short (index + 1) = .ok f := fun index => hshort (index + 1)
    cases h with
    | nil =>
      obtain ⟨f, hf⟩ := hshort 0
      rw [readParts, hf]
      cases default with
      | none =>
        refine .of_not_meant ?_ ?_
        · intro p hp
          cases hp
        · rintro ⟨⟨a, c⟩, rest'⟩ ⟨hmean, -⟩
          rw [Parts.names, List.length_cons, slotsOf, PartsMean] at hmean
          cases hmean.1
      | some a =>
        refine ((settles_readParts rest hd.2 depth .nil hrest).bind fun p _ =>
          .pure ((a, p.1), p.2)).congr ?_ ?_
        · rintro ⟨⟨a', c⟩, rest'⟩
          rw [Parts.names, List.length_cons, slotsOf, PartsMean, List.drop_nil]
          constructor
          · rintro ⟨⟨c, _⟩, ⟨hc, rfl⟩, hp⟩
            cases hp
            exact ⟨⟨rfl, hc⟩, rfl⟩
          · rintro ⟨⟨ha, hc⟩, rfl⟩
            cases ha
            exact ⟨(c, []), ⟨hc, rfl⟩, rfl⟩
        · cases rest <;> simp [DeepParts]
    | @cons t d ts ds ht hts =>
      rw [readParts]
      refine ((settles_read shape hd.1 depth ht).bind fun a _ =>
        (settles_readParts rest hd.2 depth hts hrest).bind fun p _ =>
          .pure ((a, p.1), p.2)).congr ?_ ?_
      · rintro ⟨⟨a', c⟩, rest'⟩
        rw [Parts.names, List.length_cons, slotsOf, PartsMean, List.drop_succ_cons]
        constructor
        · rintro ⟨a, ha, ⟨c, _⟩, ⟨hc, rfl⟩, hp⟩
          cases hp
          exact ⟨⟨ha, hc⟩, rfl⟩
        · rintro ⟨⟨ha, hc⟩, rfl⟩
          exact ⟨a', ha, (c, _), ⟨hc, rfl⟩, rfl⟩
      · simp [DeepParts]

end

end Tree

/-! ## Texts -/

variable {α : Type} {shape : Shape α} {text : String} {d : Datum}

/-- **A text is read as what it spells.** -/
theorem Parse.settles_read (hd : Distinct shape) (h : SpellsText text d) :
    Settles ((Parse.ofText text).read shape) (Means shape d) (Deep shape depthLimit d) := by
  obtain ⟨tree, htree, hparse⟩ := Parse.ofText_of_spells h
  rw [hparse]
  refine ((Tree.settles_read shape hd depthLimit htree).bind fun a _ => .pure a).congr ?_ ?_
  · intro a
    simp
  · rw [or_false]

theorem read_eq_ok_iff (hd : Distinct shape) (h : SpellsText text d) (a : α) :
    read shape text = .ok a ↔ Means shape d a ∧ ¬Deep shape depthLimit d := by
  rw [← (Parse.settles_read hd h).ok_iff a, read]
  cases (Parse.ofText text).read shape <;> simp [Except.mapError]

/-- A text that spells what means something is refused only for its depth. -/
theorem read_eq_error_of_deep (hd : Distinct shape) (h : SpellsText text d) {a : α}
    (hmeans : Means shape d a) (hdeep : Deep shape depthLimit d) :
    ∃ e, read shape text = .error e ∧ e.cause = .nestedTooDeep := by
  obtain ⟨offset, he⟩ := (Parse.settles_read hd h).of_deep a hmeans hdeep
  refine ⟨Fault.locate text ⟨.nestedTooDeep, offset⟩, ?_, rfl⟩
  rw [read, he]
  rfl

end ProtoScribe.Json
