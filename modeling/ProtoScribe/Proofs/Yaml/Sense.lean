import ProtoScribe.Proofs.Json.Reading
import ProtoScribe.Proofs.Yaml.Content

/-!
# Reading says what contents mean

A document without tags and aliases is read as what its content means (`toOption_read`): the reader
succeeds exactly if the content means something, and returns that. Where nodes stand only shows in
its complaints, and as no alias is followed, none is counted.

A reading that does so at every count of aliases `Yields` the value, or nothing. The recursion is on
the shape, which says by how much documents nest where it looks at them (`Shallow`).
-/

namespace ProtoScribe.Yaml

open Content
open Json (Distinct PartsDistinct)
open ProtoScribe.Document (IntegerKind Parts Shape)

/-! ## Readings that follow no alias -/

namespace Reading

variable {α β : Type} {r : Reading α} {x : Option α}

/-- Returns the value, if there is one, and else fails; no alias is counted. -/
def Yields (r : Reading α) (x : Option α) : Prop := ∀ jumps, (r jumps).toOption = x.map (·, jumps)

theorem yields_pure (a : α) : Yields (pure a) (some a) := fun _ => rfl

theorem yields_complain (c : Document.Complaint) : Yields (complain c : Reading α) none := fun _ => rfl

theorem Yields.within (h : Yields r x) (place : Place) : Yields (within place r) x := by
  intro jumps
  rw [← h jumps, Reading.within]
  split
  · next hr => rw [hr]; rfl
  · rfl

theorem Yields.bind {f : α → Reading β} {y : α → Option β} (h : Yields r x)
    (hf : ∀ a ∈ x, Yields (f a) (y a)) : Yields (r >>= f) (x.bind y) := by
  intro jumps
  have hr := h jumps
  show (do let (a, s) ← r jumps; f a s : Except Error _).toOption = _
  cases hrun : r jumps with
  | error e =>
    rw [hrun] at hr
    cases x with
    | none => rfl
    | some a => cases hr
  | ok out =>
    rw [hrun] at hr
    cases x with
    | none => cases hr
    | some a =>
      cases hr
      exact hf a rfl jumps

/-- A result may be wrapped. -/
theorem Yields.map (h : Yields r x) (f : α → β) :
    Yields (r >>= fun a => pure (f a)) (x.map f) := by
  rw [Option.map_eq_bind]
  exact h.bind fun a _ => yields_pure (f a)

/-- What is read first may be known. -/
theorem Yields.andThen {f : α → Reading β} {a : α} {y : Option β} (h : Yields r (some a))
    (hf : Yields (f a) y) : Yields (r >>= f) y :=
  h.bind (y := fun _ => y) fun _ hb => Option.some.inj hb ▸ hf

end Reading

open Reading

namespace LinkedNode

variable {d : Document} {n : LinkedNode} {c : Content}

/-! ## Single nodes -/

/-- A node with a content is a scalar, a sequence or a mapping, and has no tag. -/
theorem content?_cases (h : n.content? = some c) :
    (∃ head style text, n = .scalar head style text ∧ head.tag = none ∧
        c = .scalar (style = .plain) text) ∨
      (∃ head items cs, n = .sequence head items ∧ head.tag = none ∧
        contentOfItems? items = some cs ∧ c = .sequence cs) ∨
      ∃ head pairs cs, n = .mapping head pairs ∧ head.tag = none ∧
        contentOfPairs? pairs = some cs ∧ c = .mapping cs := by
  cases n with
  | scalar head style text =>
    rw [Node.content?, Option.ite_none_right_eq_some, Option.some.injEq] at h
    exact .inl ⟨head, style, text, rfl, h.1, h.2.symm⟩
  | sequence head items =>
    rw [Node.content?, Option.ite_none_right_eq_some, Option.map_eq_some_iff] at h
    obtain ⟨htag, cs, hcs, rfl⟩ := h
    exact .inr (.inl ⟨head, items, cs, rfl, htag, hcs, rfl⟩)
  | mapping head pairs =>
    rw [Node.content?, Option.ite_none_right_eq_some, Option.map_eq_some_iff] at h
    obtain ⟨htag, cs, hcs, rfl⟩ := h
    exact .inr (.inr ⟨head, pairs, cs, rfl, htag, hcs, rfl⟩)
  | «alias» mark target => cases h

theorem yields_follow (h : n.content? = some c) : Yields (follow d n) (some n) := by
  obtain ⟨_, _, _, rfl, -⟩ | ⟨_, _, _, rfl, -⟩ | ⟨_, _, _, rfl, -⟩ := content?_cases h <;>
    exact fun _ => rfl

theorem yields_refuse {α : Type} (h : n.content? = some c) (expected : String) :
    Yields (refuse expected n : Reading α) none := by
  obtain ⟨_, _, _, rfl, -⟩ | ⟨_, _, _, rfl, -⟩ | ⟨_, _, _, rfl, -⟩ := content?_cases h <;>
    exact fun _ => rfl

theorem yields_readText (h : n.content? = some c) (expected : String) :
    Yields (readText expected n) c.name? := by
  obtain ⟨_, _, _, rfl, -, rfl⟩ | ⟨_, _, _, rfl, -, -, rfl⟩ | ⟨_, _, _, rfl, -, -, rfl⟩ :=
    content?_cases h
  · exact yields_pure _
  · exact yields_refuse h _
  · exact yields_refuse h _

/-- Without a tag only plain scalars are bare. -/
theorem isBare_of_tag {head : NodeHead} (htag : head.tag = none) (tag : TagBytes)
    (style : ScalarStyle) : isBare tag head style = decide (style = .plain) := by
  simp [isBare, htag]

theorem word?_scalar (style : ScalarStyle) (text : String) :
    (Content.scalar (style = .plain) text).word? = if style = .plain then some text else none := by
  by_cases h : style = .plain <;> simp [h, word?]

theorem yields_readFlag (h : n.content? = some c) :
    Yields (readFlag n) (c.word?.bind Plain.flag?) := by
  obtain ⟨head, style, text, rfl, htag, rfl⟩ | ⟨_, _, _, rfl, -, -, rfl⟩ | ⟨_, _, _, rfl, -, -, rfl⟩ :=
    content?_cases h
  · have hvalue : (Content.scalar (style = .plain) text).word?.bind Plain.flag?
        = if isBare Tag.flag head style then Plain.flag? text else none := by
      rw [word?_scalar, isBare_of_tag htag]
      by_cases hs : style = .plain <;> simp [hs]
    rw [readFlag, hvalue]
    split
    · next b hb => rw [hb]; exact yields_pure b
    · next hb => rw [hb]; exact yields_refuse h _
  · exact yields_refuse h _
  · exact yields_refuse h _

theorem yields_readInteger {α : Type} (kind : IntegerKind α) (h : n.content? = some c) :
    Yields (readInteger kind n) ((c.word?.bind (narrowInteger? kind.isSigned)).bind kind.ofInt?) := by
  obtain ⟨head, style, text, rfl, htag, rfl⟩ | ⟨_, _, _, rfl, -, -, rfl⟩ | ⟨_, _, _, rfl, -, -, rfl⟩ :=
    content?_cases h
  · have hvalue : (Content.scalar (style = .plain) text).word?.bind (narrowInteger? kind.isSigned)
        = if isBare Tag.integer head style then narrowInteger? kind.isSigned text else none := by
      rw [word?_scalar, isBare_of_tag htag]
      by_cases hs : style = .plain <;> simp [hs]
    rw [readInteger, hvalue]
    split
    · next i hi =>
      rw [hi, Option.bind_some]
      split
      · next a ha => rw [ha]; exact yields_pure a
      · next ha => rw [ha]; exact yields_complain _
    · next hi => rw [hi]; exact yields_refuse h _
  · exact yields_refuse h _
  · exact yields_refuse h _

theorem yields_readChoice {α : Type} (words : List (String × α)) (place : Place)
    (h : n.content? = some c) :
    Yields (readChoice words place n) (c.name?.bind fun word => words.lookup word) := by
  obtain ⟨head, style, text, rfl, htag, rfl⟩ | ⟨head, _, _, rfl, htag, -, rfl⟩ |
    ⟨head, _, _, rfl, htag, -, rfl⟩ := content?_cases h
  all_goals
    simp only [readChoice, head?, Option.bind_some, htag, Option.bind_none]
    refine Yields.within ?_ place
  · simp only [name?, Option.bind_some, readWord]
    split
    · next a ha => rw [ha]; exact yields_pure a
    · next ha => rw [ha]; exact yields_complain _
  · exact yields_refuse h _
  · exact yields_refuse h _

theorem yields_isPresent (h : n.content? = some c) :
    Yields (isPresent n) (some (decide (¬c.IsNothing))) := by
  obtain ⟨head, style, text, rfl, htag, rfl⟩ | ⟨_, _, _, rfl, -, -, rfl⟩ | ⟨_, _, _, rfl, -, -, rfl⟩ :=
    content?_cases h
  · have hpresent : decide (¬(Content.scalar (style = .plain) text).IsNothing)
        = if style ≠ .plain then true else !(text = "" || Plain.isNull text) := by
      by_cases hs : style = .plain <;> simp [IsNothing, word?, hs]
    rw [isPresent, hpresent, htag]
    split
    · exact yields_pure true
    · exact yields_pure _
  · exact yields_pure _
  · exact yields_pure _

/-! ## Lists and records -/

theorem yields_readItems {α : Type} {read : Path → LinkedNode → Reading α} {value : Content → Option α}
    (hread : ∀ {n c}, n.content? = some c → ∀ path, Yields (read path n) (value c)) (path : Path) :
    ∀ {ns : List LinkedNode} {cs : List Content} (index : Nat), contentOfItems? ns = some cs →
      Yields (readItems read path index ns) (cs.mapM value)
  | [], cs, index, h => by
    cases h
    exact yields_pure []
  | n :: ns, cs, index, h => by
    obtain ⟨c, hc, h⟩ := Option.bind_eq_some_iff.mp h
    obtain ⟨cs, hcs, rfl⟩ := Option.map_eq_some_iff.mp h
    rw [readItems, List.mapM_cons]
    refine (hread hc _).bind fun a _ => ?_
    exact (yields_readItems hread path (index + 1) hcs).bind fun as _ => yields_pure (a :: as)

theorem yields_readKey (closed : Bool) (names : List String) (path : Path) (h : n.content? = some c) :
    Yields (readKey d closed names path n) (c.name?.bind fun name =>
      if closed = true ∧ name ∉ names then none else some name) := by
  refine (yields_follow h).andThen (Yields.within ((yields_readText h _).bind fun name _ => ?_) _)
  split
  · exact yields_complain _
  · exact yields_pure name

theorem yields_finish {γ : Type} (parts : Parts γ) (draft : parts.Draft) :
    Yields (LinkedNode.finish parts draft) (parts.finish draft).toOption := by
  rw [LinkedNode.finish]
  cases parts.finish draft with
  | ok c => exact yields_pure c
  | error name => exact yields_complain _

theorem yields_readPairs {closed : Bool} {γ : Type} {parts : Parts γ} (path : Path)
    {put : String → Path → LinkedNode → parts.Draft → Reading parts.Draft}
    (hput : ∀ {n c}, n.content? = some c → ∀ name path draft,
      Yields (put name path n draft) (put? parts name c draft)) :
    ∀ {ps : List (LinkedNode × LinkedNode)} {cs : List (Content × Content)} (draft : parts.Draft),
      contentOfPairs? ps = some cs →
      Yields (readPairs d closed parts path put ps draft) (fill? closed parts cs draft)
  | [], cs, draft, h => by
    cases h
    exact yields_pure draft
  | (k, v) :: ps, cs, draft, h => by
    obtain ⟨key, hkey, h⟩ := Option.bind_eq_some_iff.mp h
    obtain ⟨c, hc, h⟩ := Option.bind_eq_some_iff.mp h
    obtain ⟨cs, hcs, rfl⟩ := Option.map_eq_some_iff.mp h
    have hnames : fill? closed parts ((key, c) :: cs) draft =
        (key.name?.bind fun name =>
          if closed = true ∧ name ∉ parts.names then none else some name).bind
          fun name => if name ∈ parts.names then
            if parts.has name draft then none
            else (put? parts name c draft).bind (fill? closed parts cs)
          else fill? closed parts cs draft := by
      rw [fill?, Option.bind_assoc]
      refine congrArg key.name?.bind (funext fun name => ?_)
      by_cases hname : name ∈ parts.names <;> cases closed <;> simp [hname]
    rw [readPairs, hnames]
    refine (yields_readKey closed parts.names path hkey).bind fun name _ => ?_
    split
    · split
      · exact yields_complain _
      · exact (hput hc _ _ _).bind fun draft _ => yields_readPairs path hput draft hcs
    · exact yields_readPairs path hput draft hcs

/-! ## All shapes -/

mutual

/-- Where a shape looks, no more than `depth` sequences and mappings nest. -/
def Shallow : {α : Type} → Shape α → (depth : Nat) → Prop
  | _, .text _, _ => True
  | _, .integer _, _ => True
  | _, .flag, _ => True
  | _, .choice _, _ => True
  | _, .optional shape, depth => Shallow shape depth
  | _, .list shape, depth => 0 < depth ∧ Shallow shape (depth - 1)
  | _, .record _ _ parts _, depth => 0 < depth ∧ PartsShallow parts (depth - 1)
  | _, .beyond, _ => False

/-- So it is with the shapes of some parts. -/
def PartsShallow : {γ : Type} → Parts γ → (depth : Nat) → Prop
  | _, .none, _ => True
  | _, .part _ _ shape rest, depth => Shallow shape depth ∧ PartsShallow rest depth

end

theorem yields_enter (mark : Mark) {depth : Nat} (h : 0 < depth) :
    Yields (enter mark depth) (some (depth - 1)) := by
  obtain ⟨depth, rfl⟩ := Nat.exists_eq_succ_of_ne_zero (Nat.ne_of_gt h)
  exact yields_pure depth

/-- An empty plain scalar is blank. -/
theorem isBlank_iff (style : ScalarStyle) (text : String) : isBlank style text = true ↔
    (Content.scalar (style = .plain) text).word? = some "" := by
  rw [word?_scalar, isBlank]
  by_cases hs : style = .plain <;> simp [hs]

mutual

/-- **A node without tags and aliases is read as what its content means.** -/
theorem yields_read (d : Document) : ∀ {α : Type} (shape : Shape α), Distinct shape →
    ∀ {depth : Nat}, Shallow shape depth → ∀ {n : LinkedNode} {c : Content}, n.content? = some c →
      ∀ path, Yields (LinkedNode.read d shape depth path n) (value? shape c)
  | _, .text expected, _, _, _, n, c, h, path => by
    rw [LinkedNode.read, value?]
    exact (yields_follow h).andThen ((yields_readText h expected).within _)
  | _, .integer kind, _, _, _, n, c, h, path => by
    rw [LinkedNode.read, value?]
    exact (yields_follow h).andThen ((yields_readInteger kind h).within _)
  | _, .flag, _, _, _, n, c, h, path => by
    rw [LinkedNode.read, value?]
    exact (yields_follow h).andThen ((yields_readFlag h).within _)
  | _, .choice words, _, _, _, n, c, h, path => by
    have hchosen : Yields (follow d n >>= fun n => readChoice words ⟨path, n.mark⟩ n)
        (c.name?.bind fun word => words.lookup word) :=
      (yields_follow h).andThen (yields_readChoice words _ h)
    rw [LinkedNode.read, value?]
    · exact hchosen
    · rintro mark slot rfl
      cases h
  | _, .optional shape, hd, depth, hs, n, c, h, path => by
    rw [Distinct] at hd
    rw [Shallow] at hs
    rw [LinkedNode.read, value?]
    refine (yields_follow h).andThen ((yields_isPresent h).andThen ?_)
    by_cases hnothing : c.IsNothing
    · rw [if_neg (by simpa using hnothing), if_pos hnothing]
      exact yields_pure none
    · rw [if_pos (by simpa using hnothing), if_neg hnothing]
      exact (yields_read d shape hd hs h path).map some
  | _, .list shape, hd, depth, hs, n, c, h, path => by
    rw [Distinct] at hd
    rw [Shallow] at hs
    rw [LinkedNode.read]
    refine (yields_follow h).andThen (Yields.within ?_ _)
    obtain ⟨head, style, text, rfl, htag, rfl⟩ | ⟨head, items, cs, rfl, -, hcs, rfl⟩ |
      ⟨_, _, _, rfl, -, -, rfl⟩ := content?_cases h
    · simp only [value?, ← isBlank_iff]
      split
      · exact yields_pure []
      · exact yields_refuse h _
    · rw [value?]
      refine (yields_enter head.mark hs.1).andThen (yields_readItems ?_ path 0 hcs)
      exact fun hitem path => yields_read d shape hd hs.2 hitem path
    · exact yields_refuse h _
  | _, .record name closed parts build, hd, depth, hs, n, c, h, path => by
    rw [Distinct] at hd
    rw [Shallow] at hs
    rw [LinkedNode.read]
    refine (yields_follow h).andThen (Yields.within ?_ _)
    obtain ⟨head, style, text, rfl, htag, rfl⟩ | ⟨_, _, _, rfl, -, -, rfl⟩ |
      ⟨head, pairs, cs, rfl, -, hcs, rfl⟩ := content?_cases h
    · simp only [value?, ← isBlank_iff]
      split
      · rw [← finish_of_draft?, draft?_none, Option.bind_some]
        exact (yields_finish parts parts.blank).map build
      · exact yields_refuse h _
    · exact yields_refuse h _
    · have hvalue : value? (.record name closed parts build) (.mapping cs)
          = ((fill? closed parts cs parts.blank).bind fun draft =>
              ((parts.finish draft).toOption).map build) := by
        have hpairs := congrArg (Option.map build) (finish_of_fill? closed hd.1 cs)
        rw [Option.map_bind] at hpairs
        refine Eq.trans ?_ hpairs.symm
        rw [value?]
        split <;> rfl
      rw [hvalue]
      refine (yields_enter head.mark hs.1).andThen ((yields_readPairs path ?_ _ hcs).bind
        fun draft _ => (yields_finish parts draft).map build)
      exact fun hvalue name path draft => yields_readPart d parts hd.2 hs.2 hvalue name path draft
  | _, .beyond, _, _, hs, _, _, _, _ => by
    rw [Shallow] at hs
    exact hs.elim

theorem yields_readPart (d : Document) : ∀ {γ : Type} (parts : Parts γ), PartsDistinct parts →
    ∀ {depth : Nat}, PartsShallow parts depth → ∀ {n : LinkedNode} {c : Content},
      n.content? = some c → ∀ (key : String) (path : Path) (draft : parts.Draft),
        Yields (readPart d parts depth key path n draft) (put? parts key c draft)
  | _, .none, _, _, _, n, c, h, key, path, draft => yields_pure draft
  | _, .part name default shape rest, hd, depth, hs, n, c, h, key, path, draft => by
    rw [PartsDistinct] at hd
    rw [PartsShallow] at hs
    rw [readPart, put?]
    have hpart : Yields (if name = key then (do
          let a ← LinkedNode.read d shape depth path n
          return (some a, draft.2))
        else (do
          let later ← readPart d rest depth key path n draft.2
          return (draft.1, later)) : Reading (Option _ × rest.Draft))
        (if name = key then (value? shape c).map fun a => (some a, draft.2)
        else (put? rest key c draft.2).map fun later => (draft.1, later)) := by
      split
      · exact (yields_read d shape hd.1 hs.1 h path).map fun a => (some a, draft.2)
      · exact (yields_readPart d rest hd.2 hs.2 h key path draft.2).map fun later => (draft.1, later)
    exact hpart

end

end LinkedNode

/-! ## Texts -/

theorem content?_eq_some_iff {text : String} {c : Content} : content? text = some c ↔
    ∃ d root, Document.ofText? text = some d ∧ d.more = false ∧ d.root = some root ∧
      root.content? = some c := by
  rw [content?, Option.bind_eq_bind, Option.bind_eq_some_iff]
  constructor
  · rintro ⟨d, hd, h⟩
    obtain ⟨hone, h⟩ := Option.ite_none_left_eq_some.mp h
    obtain ⟨root, hroot, hc⟩ := Option.bind_eq_some_iff.mp h
    exact ⟨d, root, hd, by simpa using hone, hroot, hc⟩
  · rintro ⟨d, root, hd, hone, hroot, hc⟩
    exact ⟨d, hd, by rw [if_neg (by simp [hone]), hroot]; exact hc⟩

/-- A text with a content is read as what that means. -/
theorem toOption_read {α : Type} {shape : Shape α} (hd : Distinct shape)
    (hs : LinkedNode.Shallow shape depthLimit) {text : String} {c : Content}
    (hc : content? text = some c) : (read shape text).toOption = value? shape c := by
  obtain ⟨d, root, htext, hone, hroot, hc⟩ := content?_eq_some_iff.mp hc
  have hread := LinkedNode.yields_read d shape hd hs hc [] 0
  have hfst (r : Except Error (α × Nat)) :
      ((r.map Prod.fst).bind Except.ok).toOption = r.toOption.map Prod.fst := by
    cases r <;> rfl
  rw [read, htext]
  show (Document.read shape d).toOption = _
  rw [Document.read, hroot, hone]
  refine (hfst _).trans ?_
  rw [hread, Option.map_map]
  exact congrFun Option.map_id _

end ProtoScribe.Yaml
