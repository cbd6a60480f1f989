import ProtoScribe.Proofs.Json.Reading
import ProtoScribe.Proofs.Yaml.Nodes
import ProtoScribe.Proofs.Yaml.Words

/-!
# YAML means what JSON means

A node that shows a JSON value is read as what the value means in JSON (`reads_of_means`). This is
so under every shape for which the two formats agree on what may be written (`Portable`): JSON also
takes arrays for records.

The induction is on the shape, and follows the one for JSON: what the members of an object give is
known from there, only the way they are read differs.
-/

namespace ProtoScribe.Yaml

open Json (Value Datum Means Deep DeepPart Distinct PartsDistinct Puts Gathers)
open ProtoScribe.Document (Shape Parts IntegerKind)

/-! ## Data for both formats -/

mutual

/-- Where a shape asks for a record, a datum has an object; and where it asks for integers with a
sign, they are among those of 64 bits. -/
def Portable : {α : Type} → Shape α → Datum → Prop
  | _, .text _, _ => True
  | _, .integer kind, _ => kind.isSigned = true → kind.greatest ≤ Int64.maxValue.toInt
  | _, .flag, _ => True
  | _, .choice _, _ => True
  | _, .optional shape, d => Portable shape d
  | _, .list shape, d =>
    match d with
    | .array ds => ∀ d ∈ ds, Portable shape d
    | _ => True
  | _, .record _ _ parts _, d =>
    match d with
    | .object ms => ∀ m ∈ ms, PortablePart parts m.1 m.2
    | _ => False
  | _, .beyond, _ => True

/-- So it is with the part of the given name. -/
def PortablePart : {γ : Type} → Parts γ → String → Datum → Prop
  | _, .none, _, _ => True
  | _, .part name _ shape rest, key, d =>
    if name = key then Portable shape d else PortablePart rest key d

end

/-! ## Readings that succeed -/

namespace Reading

variable {α β : Type} {r : Reading α} {f : α → Reading β} {a : α} {jumps jumps' : Nat}

theorem bind_of_ok (h : r jumps = .ok (a, jumps')) : (r >>= f) jumps = f a jumps' := by
  show (do let (a, s) ← r jumps; f a s : Except Error _) = _
  rw [h]
  rfl

theorem within_of_ok {x : α × Nat} (h : r jumps = .ok x) (place : Place) :
    within place r jumps = .ok x := by
  rw [within, h]

end Reading

namespace LinkedNode

variable {d : Document} {n : LinkedNode} {v : Value} {jumps : Nat}

/-- No node that shows a value is an alias. -/
theorem follow_of_shows (h : Shows n v) : follow d n jumps = .ok (n, jumps) := by
  cases h <;> rfl

theorem readText_of_shows {s : String} (h : Shows n v) (hv : v.datum = .string s)
    (expected : String) : readText expected n jumps = .ok (s, jumps) := by
  cases h <;> cases hv
  rfl

theorem readFlag_of_shows {b : Bool} (h : Shows n v) (hv : v.datum = .flag b) :
    readFlag n jumps = .ok (b, jumps) := by
  cases h <;> cases hv
  cases b <;> rfl

theorem readInteger_of_shows {α : Type} {kind : IntegerKind α} {a : α} (h : Shows n v)
    (hportable : Portable (.integer kind) v.datum) (hmeans : Means (.integer kind) v.datum a) :
    readInteger kind n jumps = .ok (a, jumps) := by
  rw [Portable] at hportable
  rw [Means] at hmeans
  obtain ⟨numeral, i, hv, hi, hrange, ha⟩ := hmeans
  cases h <;> cases hv
  rw [Json.Numeral.integer?_ofInt, Option.some.injEq] at hi
  subst hi
  have hnarrow := narrowInteger?_toString hportable hrange ha
  rw [readInteger, if_pos (by simp [isBare]), hnarrow]
  simp only [ha]
  rfl

theorem readChoice_of_shows {α : Type} {words : List (String × α)} {a : α} (h : Shows n v)
    (hmeans : Means (.choice words) v.datum a) (place : Place) :
    readChoice words place n jumps = .ok (a, jumps) := by
  rw [Means] at hmeans
  obtain ⟨word, hv, ha⟩ := hmeans
  -- no value is null, so the choice is not an object
  have hword : v = .string word := by
    cases v with
    | string s =>
      have hs : s = word := by simpa [Value.datum] using hv
      rw [hs]
    | object ms =>
      rcases ms with _ | ⟨⟨k, v⟩, _ | ⟨m, ms⟩⟩
      · simp [Value.datum, Value.datumOfMembers] at hv
      · cases v <;> simp [Value.datum, Value.datumOfMembers] at hv
      · simp [Value.datum, Value.datumOfMembers] at hv
    | _ => simp [Value.datum] at hv
  subst hword
  cases h with
  | string mark =>
    refine Reading.within_of_ok ?_ place
    show readWord words word jumps = _
    rw [readWord, ha]
    rfl

theorem isPresent_of_shows (h : Shows n v) : isPresent n jumps = .ok (true, jumps) := by
  cases h with
  | flag mark b => cases b <;> rfl
  | integer mark i =>
    simp only [isPresent, toString_ne_empty, Plain.isNull_toString]
    rfl
  | _ => rfl

/-! ## Lists and records -/

theorem readItems_of_shows {α : Type} {read : Path → LinkedNode → Reading α} {meant : Datum → α → Prop}
    (path : Path) {ns : List LinkedNode} {vs : List Value} {as : List α} (h : ItemsShow ns vs)
    (hmeans : List.Forall₂ meant (Value.datumOfItems vs) as)
    (hread : ∀ v ∈ vs, ∀ n a, Shows n v → meant v.datum a → ∀ path jumps,
      read path n jumps = .ok (a, jumps)) :
    ∀ index, readItems read path index ns jumps = .ok (as, jumps) := by
  induction ns generalizing vs as with
  | nil =>
    cases h
    cases hmeans
    exact fun _ => rfl
  | cons n ns ih =>
    intro index
    cases h with
    | @cons _ _ v vs hn hns =>
      rw [Value.datumOfItems, List.forall₂_cons_left_iff] at hmeans
      obtain ⟨a, as, ha, has, rfl⟩ := hmeans
      obtain ⟨hv, hvs⟩ := List.forall_mem_cons.mp hread
      rw [readItems, Reading.bind_of_ok (hv n a hn ha _ _), Reading.bind_of_ok (ih hns has hvs _)]
      rfl

/-- What the members of an object give is what the pairs of a mapping give, if they are put where
they belong. -/
theorem readPairs_of_gathers (d : Document) {γ : Type} {closed : Bool} {parts : Parts γ} (path : Path)
    {put : String → Path → LinkedNode → parts.Draft → Reading parts.Draft}
    {ps : List (LinkedNode × LinkedNode)} {ms : List (String × Value)} (h : PairsShow ps ms)
    (hput : ∀ m ∈ ms, ∀ n draft draft', Shows n m.2 → Puts parts m.1 m.2.datum draft draft' →
      ∀ path jumps, put m.1 path n draft jumps = .ok (draft', jumps)) (jumps : Nat) :
    ∀ {draft draft' : parts.Draft}, Gathers closed parts (Value.datumOfMembers ms) draft draft' →
      readPairs d closed parts path put ps draft jumps = .ok (draft', jumps) := by
  induction ps generalizing ms with
  | nil =>
    cases h
    intro draft draft' hgathers
    rw [Value.datumOfMembers, Gathers] at hgathers
    rw [hgathers]
    rfl
  | cons p ps ih =>
    cases h with
    | @cons mark k n _ v ms hn hps =>
      intro draft draft' hgathers
      obtain ⟨hm, hms⟩ := List.forall_mem_cons.mp hput
      rw [Value.datumOfMembers, Gathers] at hgathers
      have hkey (known : closed = false ∨ k ∈ parts.names) :
          readKey d closed parts.names path (.scalar ⟨mark, none, none⟩ .quoted k) jumps
            = .ok (k, jumps) := by
        refine Reading.within_of_ok ?_ _
        show (if closed = true ∧ k ∉ parts.names then Reading.complain _ else pure k :
          Reading String) jumps = _
        rw [if_neg (by rcases known with h | h <;> simp [h])]
        rfl
      by_cases hknown : k ∈ parts.names
      · rw [if_pos hknown] at hgathers
        obtain ⟨hhas, draft₁, hputs, hgathers⟩ := hgathers
        rw [readPairs, Reading.bind_of_ok (hkey (.inr hknown)), if_pos hknown,
          if_neg (by simp [hhas]),
          Reading.bind_of_ok (hm n draft draft₁ hn hputs _ _)]
        exact ih hps hms hgathers
      · rw [if_neg hknown] at hgathers
        rw [readPairs, Reading.bind_of_ok (hkey (.inl hgathers.1)), if_neg hknown]
        exact ih hps hms hgathers.2

/-! ## All shapes -/

mutual

/-- **A node that shows a JSON value is read as what the value means.** -/
theorem reads_of_means (d : Document) : ∀ {α : Type} (shape : Shape α), Distinct shape →
    ∀ {depth : Nat} {n : LinkedNode} {v : Value} {a : α}, Shows n v → Portable shape v.datum →
      Means shape v.datum a → ¬Deep shape depth v.datum → ∀ (path : Path) (jumps : Nat),
        LinkedNode.read d shape depth path n jumps = .ok (a, jumps)
  | _, .text expected, _, _, n, v, a, hn, _, hmeans, _, path, jumps => by
    rw [Means] at hmeans
    rw [LinkedNode.read, Reading.bind_of_ok (follow_of_shows hn)]
    exact Reading.within_of_ok (readText_of_shows hn hmeans expected) _
  | _, .integer kind, _, _, n, v, a, hn, hportable, hmeans, _, path, jumps => by
    rw [LinkedNode.read, Reading.bind_of_ok (follow_of_shows hn)]
    exact Reading.within_of_ok (readInteger_of_shows hn hportable hmeans) _
  | _, .flag, _, _, n, v, a, hn, _, hmeans, _, path, jumps => by
    rw [Means] at hmeans
    rw [LinkedNode.read, Reading.bind_of_ok (follow_of_shows hn)]
    exact Reading.within_of_ok (readFlag_of_shows hn hmeans) _
  | _, .choice words, _, _, n, v, a, hn, _, hmeans, _, path, jumps => by
    have hchosen : (follow d n >>= fun n => readChoice words ⟨path, n.mark⟩ n) jumps
        = .ok (a, jumps) := by
      rw [Reading.bind_of_ok (follow_of_shows hn)]
      exact readChoice_of_shows hn hmeans _
    rw [LinkedNode.read]
    · exact hchosen
    · rintro mark slot rfl
      cases hn
  | _, .optional shape, hd, depth, n, v, a, hn, hportable, hmeans, hdeep, path, jumps => by
    have hpresent : v.datum ≠ .null := by cases v <;> nofun
    rw [Deep, not_and] at hdeep
    cases a with
    | none =>
      rw [Means] at hmeans
      exact absurd hmeans hpresent
    | some a =>
      rw [Means] at hmeans
      rw [LinkedNode.read, Reading.bind_of_ok (follow_of_shows hn),
        Reading.bind_of_ok (isPresent_of_shows hn), if_pos rfl, Reading.bind_of_ok
          (reads_of_means d shape hd hn hportable hmeans.2 (hdeep hpresent) _ _)]
      rfl
  | _, .list shape, hd, depth, n, v, as, hn, hportable, hmeans, hdeep, path, jumps => by
    rw [Means] at hmeans
    obtain ⟨ds, hv, has⟩ := hmeans
    cases hn <;> cases hv
    rename_i mark ns vs hns
    rw [Value.datum, Portable] at hportable
    rw [Value.datum, Deep, not_or] at hdeep
    obtain ⟨depth, rfl⟩ := Nat.exists_eq_succ_of_ne_zero hdeep.1
    have hread : ∀ v ∈ vs, ∀ n a, Shows n v → Means shape v.datum a → ∀ path jumps,
        LinkedNode.read d shape depth path n jumps = .ok (a, jumps) := by
      intro v hv n a hn ha
      have hmem : v.datum ∈ Value.datumOfItems vs := by
        rw [Value.datumOfItems_eq_map]
        exact List.mem_map_of_mem hv
      exact reads_of_means d shape hd hn (hportable _ hmem) ha fun h => hdeep.2 ⟨_, hmem, h⟩
    rw [LinkedNode.read, Reading.bind_of_ok (follow_of_shows (.sequence mark hns))]
    refine Reading.within_of_ok ?_ _
    exact readItems_of_shows path hns has hread 0
  | _, .record name closed parts build, hd, depth, n, v, a, hn, hportable, hmeans, hdeep, path,
      jumps => by
    cases hn with
    | @mapping mark ps ms hps =>
      rw [Value.datum, Portable] at hportable
      rw [Value.datum, Deep, not_or] at hdeep
      rw [Value.datum, Means] at hmeans
      obtain ⟨hclosed, slots, c, ⟨hnew⟩, hc, rfl⟩ := hmeans
      obtain ⟨draft, hgathers, hfinish⟩ :=
        (Json.gathers_iff hd.1).mpr ⟨hclosed, hnew, (Json.completes_blank ..).mpr hc⟩
      obtain ⟨depth, rfl⟩ := Nat.exists_eq_succ_of_ne_zero hdeep.1
      have hput : ∀ m ∈ ms, ∀ n draft draft', Shows n m.2 → Puts parts m.1 m.2.datum draft draft' →
          ∀ path jumps, readPart d parts depth m.1 path n draft jumps = .ok (draft', jumps) := by
        intro m hm n draft draft' hn hputs
        have hmem : (m.1, m.2.datum) ∈ Value.datumOfMembers ms := by
          rw [Value.datumOfMembers_eq_map]
          exact List.mem_map_of_mem hm
        exact readPart_of_puts d parts hd.2 hn (hportable _ hmem) hputs fun h =>
          hdeep.2 ⟨_, hmem, h⟩
      have hpairs := readPairs_of_gathers d path hps hput jumps hgathers
      rw [LinkedNode.read, Reading.bind_of_ok (follow_of_shows (.mapping mark hps))]
      refine Reading.within_of_ok ?_ _
      have hc : LinkedNode.finish parts draft jumps = .ok (c, jumps) := by
        rw [LinkedNode.finish, hfinish]
        rfl
      show (readPairs d closed parts path (readPart d parts depth) ps parts.blank >>= fun draft =>
        LinkedNode.finish parts draft >>= fun c => pure (build c)) jumps = _
      rw [Reading.bind_of_ok hpairs, Reading.bind_of_ok hc]
      rfl
    | _ =>
      simp [Value.datum, Portable] at hportable
  | _, .beyond, _, _, _, _, _, _, _, _, hdeep, _, _ => by
    rw [Deep] at hdeep
    exact absurd trivial hdeep

theorem readPart_of_puts (d : Document) : ∀ {γ : Type} (parts : Parts γ), PartsDistinct parts →
    ∀ {depth : Nat} {key : String} {n : LinkedNode} {v : Value} {draft draft' : parts.Draft},
      Shows n v → PortablePart parts key v.datum → Puts parts key v.datum draft draft' →
        ¬DeepPart parts depth key v.datum → ∀ (path : Path) (jumps : Nat),
          readPart d parts depth key path n draft jumps = .ok (draft', jumps)
  | _, .none, _, _, _, _, _, _, _, _, _, hputs, _, _, _ => by
    rw [Puts] at hputs
    rw [hputs, readPart]
    rfl
  | _, .part name default shape rest, hd, depth, key, n, v, draft, draft', hn, hportable, hputs, hdeep,
      path, jumps => by
    rw [PartsDistinct] at hd
    rw [PortablePart] at hportable
    rw [DeepPart] at hdeep
    rw [Puts] at hputs
    rw [readPart]
    change (if name = key then _ else _ : Reading (Option _ × rest.Draft)) jumps = _
    by_cases hname : name = key
    · rw [if_pos hname] at hportable hdeep hputs ⊢
      obtain ⟨a, ha, rfl⟩ := hputs
      rw [Reading.bind_of_ok (reads_of_means d shape hd.1 hn hportable ha hdeep path jumps)]
      rfl
    · rw [if_neg hname] at hportable hdeep hputs ⊢
      obtain ⟨draft₁, hputs, rfl⟩ := hputs
      rw [Reading.bind_of_ok (readPart_of_puts d rest hd.2 hn hportable hputs hdeep path jumps)]
      rfl

end

end LinkedNode

/-! ## Texts -/

/-- **The compact text of a JSON collection is read as what the collection means.** -/
theorem read_render {α : Type} {shape : Shape α} (hd : Distinct shape) {v : Value}
    (hv : IsCollection v) (hfits : v.FitsFlow) (hportable : Portable shape v.datum) {a : α}
    (hmeans : Means shape v.datum a) (hdeep : ¬Deep shape depthLimit v.datum) :
    read shape (String.ofList v.render) = .ok a := by
  obtain ⟨root, htext, hshow⟩ := Document.ofText?_render hv hfits
  have hroot := LinkedNode.reads_of_means { root := some root } shape hd hshow hportable hmeans hdeep
    [] 0
  rw [read, htext]
  show Document.read shape { root := some root } = .ok a
  rw [Document.read]
  simp only [hroot]
  rfl

end ProtoScribe.Yaml
