import Mathlib
import ProtoScribe.Json.Read
import ProtoScribe.Proofs.Json.Parse

/-!
# What a datum means under a shape

A shape says which data mean something without saying how they are read: a record is what its parts
are given, whether by an object or by an array, in whatever order and with whatever else.

What nests too deep means something too. A reading settles the two questions together: it returns
what the datum means if the arrays and objects that the shape asks for do not nest too deep, and
finds that they do if that is all that is wrong.
-/

namespace ProtoScribe.Json

open Document (Shape Parts IntegerKind)

/-! ## Meaning -/

/-- The keys of an object. -/
def Datum.keys : Datum → List String
  | .object ms => ms.map Prod.fst
  | _ => []

/-- What a datum gives for each of some names: an object by its keys, of which none of these occurs
twice, and an array by the order of its items, of which the last may be missing. -/
inductive Datum.Gives (names : List String) : Datum → List (Option Datum) → Prop where
  | object {ms : List (String × Datum)} : ((ms.map Prod.fst).filter (· ∈ names)).Nodup →
    Gives names (.object ms) (names.map fun name => ms.lookup name)
  | array {ds : List Datum} {missing : Nat} : ds.length + missing = names.length →
    Gives names (.array ds) (ds.map some ++ List.replicate missing none)

mutual

/-- What a datum means under a shape. -/
def Means : {α : Type} → Shape α → Datum → α → Prop
  | _, .text _, d, s => d = .string s
  | _, .integer kind, d, a =>
    ∃ n i, d = .number n ∧ n.integer? = some i ∧ (-2 ^ 63 ≤ i ∧ i < 2 ^ 64) ∧ kind.ofInt? i = some a
  | _, .flag, d, b => d = .flag b
  | _, .choice words, d, a =>
    ∃ word, (d = .string word ∨ d = .object [(word, .null)]) ∧ words.lookup word = some a
  | _, .optional _, d, none => d = .null
  | _, .optional shape, d, some a => d ≠ .null ∧ Means shape d a
  | _, .list shape, d, as => ∃ ds, d = .array ds ∧ List.Forall₂ (Means shape) ds as
  | _, .record _ closed parts build, d, a =>
    (closed = true → ∀ key ∈ d.keys, key ∈ parts.names) ∧
      ∃ slots c, d.Gives parts.names slots ∧ PartsMean parts slots c ∧ build c = a
  | _, .beyond, _, _ => True

/-- What the parts of a record mean together, given a datum or nothing for each. -/
def PartsMean : {γ : Type} → Parts γ → List (Option Datum) → γ → Prop
  | _, .none, slots, _ => slots = []
  | _, .part _ _ _ _, [], _ => False
  | _, .part _ _ shape rest, some d :: slots, (a, c) => Means shape d a ∧ PartsMean rest slots c
  | _, .part _ default _ rest, none :: slots, (a, c) => default = some a ∧ PartsMean rest slots c

end

/-! ## Depth -/

mutual

/-- More arrays and objects than `depth` nest where the shape asks for them. -/
def Deep : {α : Type} → Shape α → (depth : Nat) → Datum → Prop
  | _, .text _, _, _ => False
  | _, .integer _, _, _ => False
  | _, .flag, _, _ => False
  | _, .choice _, depth, d =>
    match d with
    | .object _ => depth = 0
    | _ => False
  | _, .optional shape, depth, d => d ≠ .null ∧ Deep shape depth d
  | _, .list shape, depth, d =>
    match d with
    | .array ds => depth = 0 ∨ ∃ d ∈ ds, Deep shape (depth - 1) d
    | _ => False
  | _, .record _ _ parts _, depth, d =>
    match d with
    | .object ms => depth = 0 ∨ ∃ m ∈ ms, DeepPart parts (depth - 1) m.1 m.2
    | .array ds => depth = 0 ∨ DeepParts parts (depth - 1) ds
    | _ => False
  | _, .beyond, _, _ => True

/-- So it is in the part of the given name. -/
def DeepPart : {γ : Type} → Parts γ → (depth : Nat) → String → Datum → Prop
  | _, .none, _, _, _ => False
  | _, .part name _ shape rest, depth, key, d =>
    if name = key then Deep shape depth d else DeepPart rest depth key d

/-- So it is in one of some parts in order. -/
def DeepParts : {γ : Type} → Parts γ → (depth : Nat) → List Datum → Prop
  | _, .none, _, _ => False
  | _, .part _ _ shape rest, depth, ds =>
    match ds with
    | [] => False
    | d :: ds => Deep shape depth d ∨ DeepParts rest depth ds

end

/-- Nothing is asked for under a name that is no part's. -/
theorem not_deepPart {key : String} {d : Datum} {depth : Nat} : ∀ {γ : Type} {parts : Parts γ},
    key ∉ parts.names → ¬DeepPart parts depth key d
  | _, .none, _ => by
    rw [DeepPart]
    exact id
  | _, .part name _ _ rest, h => by
    rw [Parts.names, List.mem_cons, not_or] at h
    rw [DeepPart, if_neg (Ne.symm h.1)]
    exact not_deepPart h.2

mutual

/-- A shape says what it asks for in data that nest to less than `bound`. -/
def Reaches : {α : Type} → Shape α → (bound : Nat) → Prop
  | _, .text _, _ => True
  | _, .integer _, _ => True
  | _, .flag, _ => True
  | _, .choice _, _ => True
  | _, .optional shape, bound => Reaches shape bound
  | _, .list shape, bound => Reaches shape (bound - 1)
  | _, .record _ _ parts _, bound => PartsReach parts (bound - 1)
  | _, .beyond, bound => bound = 0

/-- So do the shapes of some parts. -/
def PartsReach : {γ : Type} → Parts γ → (bound : Nat) → Prop
  | _, .none, _ => True
  | _, .part _ _ shape rest, bound => Reaches shape bound ∧ PartsReach rest bound

end

mutual

/-- What is too deep where a shape asks for it nests as deep. -/
theorem lt_nesting_of_deep : ∀ {α : Type} (shape : Shape α) {bound depth : Nat} {d : Datum},
    Reaches shape bound → depth < bound → Deep shape depth d → depth < d.nesting
  | _, .text _, _, _, _, _, _, hdeep => by
    rw [Deep] at hdeep
    exact hdeep.elim
  | _, .integer _, _, _, _, _, _, hdeep => by
    rw [Deep] at hdeep
    exact hdeep.elim
  | _, .flag, _, _, _, _, _, hdeep => by
    rw [Deep] at hdeep
    exact hdeep.elim
  | _, .choice _, _, depth, d, _, _, hdeep => by
    cases d with
    | object ms =>
      rw [Deep] at hdeep
      rw [hdeep, Datum.nesting]
      exact Nat.succ_pos _
    | _ =>
      simp only [Deep] at hdeep
  | _, .optional shape, _, _, _, hreach, hlt, hdeep => by
    rw [Reaches] at hreach
    rw [Deep] at hdeep
    exact lt_nesting_of_deep shape hreach hlt hdeep.2
  | _, .list shape, bound, depth, d, hreach, hlt, hdeep => by
    rw [Reaches] at hreach
    cases d with
    | array ds =>
      rw [Deep] at hdeep
      rw [Datum.nesting]
      obtain rfl | ⟨d, hd, hdeep⟩ := hdeep
      · exact Nat.succ_pos _
      · rcases Nat.eq_zero_or_pos depth with rfl | hpos
        · exact Nat.succ_pos _
        · have hitem := lt_nesting_of_deep shape hreach (by omega) hdeep
          have hle := nesting_le_nestingOfItems hd
          omega
    | _ =>
      simp only [Deep] at hdeep
  | _, .record _ _ parts _, bound, depth, d, hreach, hlt, hdeep => by
    rw [Reaches] at hreach
    rcases Nat.eq_zero_or_pos depth with rfl | hpos
    · cases d with
      | object ms => exact Nat.succ_pos _
      | array ds => exact Nat.succ_pos _
      | _ => simp only [Deep] at hdeep
    · cases d with
      | object ms =>
        rw [Deep] at hdeep
        rw [Datum.nesting]
        obtain ⟨m, hm, hdeep⟩ := hdeep.resolve_left (Nat.ne_of_gt hpos)
        have hmember := lt_nesting_of_deepPart parts hreach (by omega) hdeep
        have hle := nesting_le_nestingOfMembers hm
        omega
      | array ds =>
        rw [Deep] at hdeep
        rw [Datum.nesting]
        have hitems := lt_nesting_of_deepParts parts hreach (by omega)
          (hdeep.resolve_left (Nat.ne_of_gt hpos))
        omega
      | _ => simp only [Deep] at hdeep
  | _, .beyond, bound, depth, _, hreach, hlt, _ => by
    rw [Reaches] at hreach
    omega

theorem lt_nesting_of_deepPart : ∀ {γ : Type} (parts : Parts γ) {bound depth : Nat} {key : String}
    {d : Datum}, PartsReach parts bound → depth < bound → DeepPart parts depth key d →
      depth < d.nesting
  | _, .none, _, _, _, _, _, _, hdeep => by
    rw [DeepPart] at hdeep
    exact hdeep.elim
  | _, .part name _ shape rest, _, _, key, _, hreach, hlt, hdeep => by
    rw [PartsReach] at hreach
    rw [DeepPart] at hdeep
    by_cases hname : name = key
    · rw [if_pos hname] at hdeep
      exact lt_nesting_of_deep shape hreach.1 hlt hdeep
    · rw [if_neg hname] at hdeep
      exact lt_nesting_of_deepPart rest hreach.2 hlt hdeep

theorem lt_nesting_of_deepParts : ∀ {γ : Type} (parts : Parts γ) {bound depth : Nat}
    {ds : List Datum}, PartsReach parts bound → depth < bound → DeepParts parts depth ds →
      depth < nestingOfItems ds
  | _, .none, _, _, _, _, _, hdeep => by
    rw [DeepParts] at hdeep
    exact hdeep.elim
  | _, .part _ _ _ _, _, _, [], _, _, hdeep => by
    rw [DeepParts] at hdeep
    exact hdeep.elim
  | _, .part _ _ shape rest, _, _, d :: ds, hreach, hlt, hdeep => by
    rw [PartsReach] at hreach
    rw [DeepParts] at hdeep
    rw [nestingOfItems, lt_max_iff]
    exact hdeep.imp (lt_nesting_of_deep shape hreach.1 hlt)
      (lt_nesting_of_deepParts rest hreach.2 hlt)

end

/-! ## Settling -/

/-- A reading returns what is meant, unless something is too deep, which it finds if nothing else is
wrong. -/
structure Settles {α : Type} (r : Except Fault α) (meant : α → Prop) (deep : Prop) : Prop where
  ok_iff : ∀ a, r = .ok a ↔ meant a ∧ ¬deep
  of_deep : ∀ a, meant a → deep → ∃ offset, r = .error ⟨.nestedTooDeep, offset⟩

namespace Settles

variable {α β : Type} {r : Except Fault α} {meant meant' : α → Prop} {deep deep' : Prop}

theorem of_ok_iff (h : ∀ a, r = .ok a ↔ meant a) : Settles r meant False where
  ok_iff a := by rw [h, not_false_eq_true, and_true]
  of_deep _ _ := False.elim

/-- Where nothing is meant, any fault will do. -/
theorem of_not_meant (hr : ∀ a, r ≠ .ok a) (h : ∀ a, ¬meant a) : Settles r meant deep where
  ok_iff a := iff_of_false (hr a) fun hm => h a hm.1
  of_deep a ha := absurd ha (h a)

theorem congr (h : Settles r meant deep) (hm : ∀ a, meant a ↔ meant' a) (hd : deep ↔ deep') :
    Settles r meant' deep' where
  ok_iff a := by rw [h.ok_iff, hm, hd]
  of_deep a ha hdeep := h.of_deep a ((hm a).mpr ha) (hd.mpr hdeep)

/-- One reading after another means what the first means and then the second, and is too deep where
either is. -/
theorem bind {f : α → Except Fault β} {next : α → β → Prop} (h : Settles r meant deep)
    (hf : ∀ a, meant a → Settles (f a) (next a) deep') :
    Settles (r >>= f) (fun b => ∃ a, meant a ∧ next a b) (deep ∨ deep') where
  ok_iff b := by
    constructor
    · intro hb
      cases r with
      | error e => cases hb
      | ok a =>
        obtain ⟨ha, hdeep⟩ := (h.ok_iff a).mp rfl
        obtain ⟨hb, hdeep'⟩ := ((hf a ha).ok_iff b).mp hb
        exact ⟨⟨a, ha, hb⟩, not_or.mpr ⟨hdeep, hdeep'⟩⟩
    · rintro ⟨⟨a, ha, hb⟩, hdeep⟩
      rw [not_or] at hdeep
      rw [(h.ok_iff a).mpr ⟨ha, hdeep.1⟩]
      exact ((hf a ha).ok_iff b).mpr ⟨hb, hdeep.2⟩
  of_deep := by
    rintro b ⟨a, ha, hb⟩ hdeep
    by_cases hd : deep
    · obtain ⟨offset, he⟩ := h.of_deep a ha hd
      exact ⟨offset, by rw [he]; rfl⟩
    · rw [(h.ok_iff a).mpr ⟨ha, hd⟩]
      exact (hf a ha).of_deep b hb (hdeep.resolve_left hd)

theorem pure (a : α) : Settles (.ok a) (· = a) False :=
  of_ok_iff fun b => by rw [Except.ok.injEq, eq_comm]

/-- A reading whose result is only wrapped. -/
theorem map (h : Settles r meant deep) (f : α → β) :
    Settles (f <$> r) (fun b => ∃ a, meant a ∧ b = f a) deep where
  ok_iff b := by
    constructor
    · intro hb
      cases r with
      | error e => cases hb
      | ok a =>
        cases hb
        obtain ⟨ha, hdeep⟩ := (h.ok_iff a).mp rfl
        exact ⟨⟨a, ha, rfl⟩, hdeep⟩
    · rintro ⟨⟨a, ha, rfl⟩, hdeep⟩
      rw [(h.ok_iff a).mpr ⟨ha, hdeep⟩]
      rfl
  of_deep := by
    rintro b ⟨a, ha, -⟩ hdeep
    obtain ⟨offset, he⟩ := h.of_deep a ha hdeep
    exact ⟨offset, by rw [he]; rfl⟩

end Settles

end ProtoScribe.Json
