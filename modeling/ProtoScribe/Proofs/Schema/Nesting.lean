import ProtoScribe.Proofs.Json.Nesting
import ProtoScribe.Proofs.Schema.JsonText
import ProtoScribe.Proofs.Source.Width
import ProtoScribe.Proofs.Yaml.Nesting

/-!
# How deep the schemas of documents are

A line that is `k` levels deep takes a definition for each level, and each definition takes a list and
a record of the document around it. So the limit on how far documents nest bounds the depth of lines
(`deepest_le_of_nestsWithin`), and with it the widths at which a schema that has been read has a text
(`Schema.renders_of_read`).

Fields, values and methods are records in lists as well, and they stand one level deeper than what
they are in: every kind of definition has the same bound.
-/

namespace ProtoScribe

open Document Source

/-! ## Parts -/

/-- What a list holds that may be left out has taken a collection for the list. -/
theorem forall_mem_of_nestsWithin_list {α : Type} {shape : Shape α} {depth : Nat} {as : List α}
    (h : some [] = some as ∨ NestsWithin (.list shape) depth as) :
    ∀ a ∈ as, 0 < depth ∧ NestsWithin shape (depth - 1) a := by
  intro a ha
  rcases h with hdefault | hlist
  · cases hdefault
    cases ha
  · unfold NestsWithin at hlist
    exact hlist a ha

/-- A record with a name has taken a collection. -/
theorem parts_of_nestsWithin_named {α γ : Type} {name : String} {closed : Bool} {key : String}
    {rest : Parts γ} {build : String × γ → α} {depth : Nat} {a : α}
    (h : NestsWithin (.record name closed (Parts.string key rest) build) depth a) :
    0 < depth ∧ ∃ c, build c = a ∧ PartsNestWithin rest (depth - 1) c.2 := by
  unfold NestsWithin at h
  obtain ⟨c, hbuild, hblank, hparts⟩ := h
  refine ⟨Nat.pos_of_ne_zero fun hzero => ?_, c, hbuild, ?_⟩
  · cases hblank hzero
  · unfold Parts.string PartsNestWithin at hparts
    exact hparts.2

/-- Statements of which each has taken a collection have taken another one together. -/
theorem statementDepth_le_of_forall {α : Type} {depth nesting : Nat} {statements : List α}
    (hpos : 0 < nesting) (h : ∀ s ∈ statements, 0 < nesting - 1 ∧ 0 < nesting - 2) :
    statementDepth depth statements ≤ depth + (nesting - 1) / 2 := by
  unfold statementDepth
  cases statements with
  | nil => simp
  | cons s statements =>
    have hs := h s List.mem_cons_self
    simp only [List.isEmpty_cons, Bool.false_eq_true, if_false]
    omega

/-! ## Definitions -/

theorem Field.pos_of_nestsWithin {nesting : Nat} {f : Field}
    (h : NestsWithin Field.shape nesting f) : 0 < nesting := by
  unfold Field.shape NestsWithin at h
  obtain ⟨c, -, hblank, -⟩ := h
  refine Nat.pos_of_ne_zero fun hzero => ?_
  cases hblank hzero

/-- An enum's deepest line takes two collections for each level, and one for the enum. -/
theorem Enum.deepest_le_of_nestsWithin {nesting : Nat} {e : Enum}
    (h : NestsWithin Enum.shape nesting e) (depth : Nat) :
    0 < nesting ∧ e.deepest depth ≤ depth + (nesting - 1) / 2 := by
  obtain ⟨hpos, ⟨name, values, ⟨⟩⟩, rfl, hparts⟩ := parts_of_nestsWithin_named h
  unfold Parts.list PartsNestWithin at hparts
  refine ⟨hpos, statementDepth_le_of_forall hpos fun v hv => ?_⟩
  obtain ⟨hlist, hvalue⟩ := forall_mem_of_nestsWithin_list hparts.1 v hv
  exact ⟨hlist, (parts_of_nestsWithin_named hvalue).1⟩

/-- So does a service's. -/
theorem Service.deepest_le_of_nestsWithin {nesting : Nat} {d : Service}
    (h : NestsWithin Service.shape nesting d) : d.deepest ≤ (nesting - 1) / 2 := by
  obtain ⟨hpos, ⟨name, methods, ⟨⟩⟩, rfl, hparts⟩ := parts_of_nestsWithin_named h
  unfold Parts.list PartsNestWithin at hparts
  show statementDepth 0 methods ≤ _
  rw [← Nat.zero_add ((nesting - 1) / 2)]
  refine statementDepth_le_of_forall hpos fun m hm => ?_
  obtain ⟨hlist, hmethod⟩ := forall_mem_of_nestsWithin_list hparts.1 m hm
  exact ⟨hlist, (parts_of_nestsWithin_named hmethod).1⟩

theorem Message.listDeepest_le {depth k : Nat} {ms : List Message}
    (h : ∀ m ∈ ms, m.deepest depth ≤ k) : listDeepest depth ms ≤ k := by
  induction ms with
  | nil => simp [listDeepest]
  | cons m ms ih =>
    obtain ⟨hm, hms⟩ := List.forall_mem_cons.mp h
    simp [listDeepest, hm, ih hms]

/-- And so does a message's, whatever is nested in it. -/
theorem Message.deepest_le_of_nestsWithin : ∀ (bound : Nat) {nesting : Nat} {m : Message},
    NestsWithin (Message.shape bound) nesting m → ∀ depth : Nat,
      0 < nesting ∧ m.deepest depth ≤ depth + (nesting - 1) / 2
  | 0, _, _, h, _ => by simp [Message.shape, NestsWithin] at h
  | bound + 1, nesting, m, h, depth => by
    unfold Message.shape at h
    obtain ⟨hpos, ⟨name, fields, enums, messages, ⟨⟩⟩, rfl, hparts⟩ := parts_of_nestsWithin_named h
    simp only [Parts.list, PartsNestWithin, and_true] at hparts
    obtain ⟨hfields, henums, hmessages⟩ := hparts
    refine ⟨hpos, ?_⟩
    have hf : statementDepth depth fields ≤ depth + (nesting - 1) / 2 := by
      refine statementDepth_le_of_forall hpos fun f hf => ?_
      obtain ⟨hlist, hfield⟩ := forall_mem_of_nestsWithin_list hfields f hf
      exact ⟨hlist, Field.pos_of_nestsWithin hfield⟩
    have he : greatest (enums.map (Enum.deepest (depth + 1))) ≤ depth + (nesting - 1) / 2 := by
      refine greatest_le_iff.mpr (List.forall_mem_map.mpr fun e he => ?_)
      obtain ⟨hlist, henum⟩ := forall_mem_of_nestsWithin_list henums e he
      obtain ⟨hinner, hle⟩ := Enum.deepest_le_of_nestsWithin henum (depth + 1)
      omega
    have hm : listDeepest (depth + 1) messages ≤ depth + (nesting - 1) / 2 := by
      refine Message.listDeepest_le fun m hm => ?_
      obtain ⟨hlist, hmessage⟩ := forall_mem_of_nestsWithin_list hmessages m hm
      obtain ⟨hinner, hle⟩ := Message.deepest_le_of_nestsWithin bound hmessage (depth + 1)
      omega
    simp only [Message.deepest, Nat.max_le]
    exact ⟨hf, he, hm⟩

/-- A schema takes a collection for itself and one for each of its lists. -/
theorem Schema.deepest_le_of_nestsWithin {nesting : Nat} {s : Schema}
    (h : NestsWithin Schema.shape nesting s) : s.deepest ≤ (nesting - 3) / 2 := by
  unfold Schema.shape NestsWithin at h
  obtain ⟨⟨messages, enums, services, ⟨⟩⟩, rfl, -, hparts⟩ := h
  simp only [Parts.list, PartsNestWithin, and_true] at hparts
  obtain ⟨hmessages, henums, hservices⟩ := hparts
  have hm : Message.listDeepest 0 messages ≤ (nesting - 3) / 2 := by
    refine Message.listDeepest_le fun m hm => ?_
    obtain ⟨-, hmessage⟩ := forall_mem_of_nestsWithin_list hmessages m hm
    obtain ⟨-, hle⟩ := Message.deepest_le_of_nestsWithin _ hmessage 0
    omega
  have he : greatest (enums.map (Enum.deepest 0)) ≤ (nesting - 3) / 2 := by
    refine greatest_le_iff.mpr (List.forall_mem_map.mpr fun e he => ?_)
    obtain ⟨-, henum⟩ := forall_mem_of_nestsWithin_list henums e he
    obtain ⟨-, hle⟩ := Enum.deepest_le_of_nestsWithin henum 0
    omega
  have hs : greatest (services.map Service.deepest) ≤ (nesting - 3) / 2 := by
    refine greatest_le_iff.mpr (List.forall_mem_map.mpr fun d hd => ?_)
    obtain ⟨-, hservice⟩ := forall_mem_of_nestsWithin_list hservices d hd
    have hle := Service.deepest_le_of_nestsWithin hservice
    omega
  simp only [Schema.deepest, Nat.max_le]
  exact ⟨hm, he, hs⟩

/-! ## Schemas that have been read -/

/-- JSON lets one collection less nest than YAML, which is not enough for another level. -/
theorem Schema.deepest_of_read {format : Format} {text : String} {s : Schema}
    (h : Schema.read format text = .ok s) : s.deepest ≤ 62 := by
  unfold Schema.read at h
  have hread := Json.of_mapError h
  cases format with
  | json =>
    have hnests := Json.nestsWithin_of_read (Json.of_mapError hread)
    exact Schema.deepest_le_of_nestsWithin hnests
  | yaml =>
    have hnests := Yaml.nestsWithin_of_read (Json.of_mapError hread)
    exact Schema.deepest_le_of_nestsWithin hnests

/-- **A schema that has been read has a text at every width up to 1057.** None of its lines is more
than 62 levels deep, so all of them can be indented, with a header before them or without, whoever
asks. -/
theorem Schema.renders_of_read {format : Format} {text : String} {s : Schema}
    (h : Schema.read format text = .ok s) :
    (∀ l ∈ s.lines, l.depth ≤ 62) ∧
    ∀ width ≤ 1057, (∃ t, s.render width = .ok t) ∧
      ∀ g : Generator, g.width.toNat = width →
        ∃ t, g.text s = .ok t ∧ ∀ world : World, (World.host.render g s world).1 = .ok t := by
  have hdeepest := Schema.deepest_of_read h
  refine ⟨Schema.deepest_le_iff.mp hdeepest, ?_⟩
  intro width hwidth
  have hmul : s.deepest * width ≤ maxIndent :=
    (Nat.mul_le_mul hdeepest hwidth).trans (by decide)
  have hrender := Schema.render_eq_ok_iff.mpr ⟨hmul, rfl⟩
  refine ⟨⟨_, hrender⟩, ?_⟩
  rintro g rfl
  have htext : g.text s
      = .ok (g.header.elim "" Header.render ++ Source.text g.width.toNat s.lines) := by
    unfold Generator.text
    rw [hrender]
    rfl
  refine ⟨_, htext, fun world => ?_⟩
  rw [World.render_fst, htext]

/-- Each of some messages in one another stands one level deeper than the one around it. -/
theorem Schema.deepest_chain (name : String) (names : List String) :
    (chain (name :: names)).deepest = names.length := by
  have hlist : ∀ (names : List String) (name : String) (depth : Nat),
      Message.listDeepest depth (Message.chain (name :: names)) = depth + names.length := by
    intro names
    induction names with
    | nil =>
      intro name depth
      simp [Message.chain, Message.listDeepest, Message.deepest, statementDepth, greatest]
    | cons next names ih =>
      intro name depth
      rw [Message.chain, Message.listDeepest, Message.deepest, ih]
      simp only [statementDepth, greatest, Message.listDeepest, List.isEmpty_nil, List.map_nil,
        List.foldr_nil, if_true, List.length_cons]
      omega
  simp [Schema.deepest, chain, hlist, greatest]

/-- Messages in one another as far as a document can nest have a text at that width, and none at the
next one. -/
theorem Schema.renders_of_read_chain :
    let s := chain (List.replicate 63 "m")
    Schema.read .json (chainText (List.replicate 63 "m")) = .ok s ∧
      (∃ t, s.render 1057 = .ok t) ∧ ∃ e, s.render 1058 = .error e := by
  intro s
  have hread := Schema.read_chainText (Nat.le_of_eq (List.length_replicate (n := 63) (a := "m")))
  obtain ⟨-, hrenders⟩ := Schema.renders_of_read hread
  refine ⟨hread, (hrenders 1057 (Nat.le_refl _)).1, Schema.render_eq_error_iff.mpr ?_⟩
  have hdeepest : s.deepest = 62 := Schema.deepest_chain "m" (List.replicate 62 "m")
  rw [hdeepest]
  decide

end ProtoScribe
