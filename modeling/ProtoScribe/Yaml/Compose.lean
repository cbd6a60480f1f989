import ProtoScribe.Yaml.Node

/-!
# From tokens to nodes

Each function takes what it knows from the head of the tokens and says how many tokens that is.
`none` means that the tokens form no document, or end too early.
-/

namespace ProtoScribe.Yaml.Compose

/-- The node of a text, its aliases by name. -/
abbrev NamedNode : Type := Node String

/-! ## What precedes a node -/

/-- What the handles of tags stand for. -/
abbrev Handles : Type := List (String × TagBytes)

/-- The handles that every document knows. -/
def standardHandles : Handles :=
  [("!", Utf8.encode "!"), ("!!", Utf8.encode "tag:yaml.org,2002:")]

/-- A tag in full; one without a handle is so already. -/
def expand (handles : Handles) (t : TagName) : Option TagBytes :=
  if t.handle = "" then some t.suffix else (handles.lookup t.handle).map (· ++ t.suffix)

/-- The anchor and tag at the head of the tokens, in either order. -/
def head (handles : Handles) (ts : List Token) : Option (Taken (Option NodeHead)) :=
  match ts with
  | a :: b :: _ =>
    match a.kind, b.kind with
    | .anchor name, .tag t | .tag t, .anchor name => do
      return ⟨some ⟨a.start, some name, some (← expand handles t)⟩, 2⟩
    | .anchor name, _ => some ⟨some ⟨a.start, some name, none⟩, 1⟩
    | .tag t, _ => do return ⟨some ⟨a.start, none, some (← expand handles t)⟩, 1⟩
    | _, _ => some ⟨none, 0⟩
  | _ => some ⟨none, 0⟩

/-! ## Nodes -/

/-- Whether the tokens go on with one of some kinds. -/
def nextIs (kinds : List TokenKind) : List Token → Bool
  | [] => false
  | t :: _ => kinds.contains t.kind

/-- The place of the first token. -/
def nextStart : List Token → Option Mark
  | [] => none
  | t :: _ => some t.start

mutual

/-- A node. A block may open only in a `block` context, and the items of a sequence may stand at
the column of the mapping around them only in an `indentless` one. -/
def node (handles : Handles) (block indentless : Bool) (ts : List Token) :
    Option (Taken NamedNode) :=
  match ts with
  | [] => none
  | ⟨.alias name, start, _⟩ :: _ => some ⟨.alias start name, 1⟩
  | t₀ :: ts₀ =>
    match head handles (t₀ :: ts₀) with
    | none => none
    | some ⟨before, skipped⟩ =>
      match _h : (t₀ :: ts₀).drop skipped with
      | [] => none
      | t :: rest =>
        let head : NodeHead := before.getD ⟨t.start, none, none⟩
        match t.kind with
        | .scalar style text => some ⟨.scalar head style text, skipped + 1⟩
        | .flowSequence => do
          let ⟨items, count⟩ ← flowItems handles rest
          return ⟨.sequence head items, skipped + 1 + count⟩
        | .flowMapping => do
          let ⟨pairs, count⟩ ← flowPairs handles rest
          return ⟨.mapping head pairs, skipped + 1 + count⟩
        | kind =>
          if kind = .blockEntry ∧ indentless then do
            let ⟨items, count⟩ ← indentlessItems handles t rest
            return ⟨.sequence head items, skipped + 1 + count⟩
          else if kind = .blockSequence ∧ block then do
            let ⟨items, count⟩ ← blockItems handles rest
            return ⟨.sequence head items, skipped + 1 + count⟩
          else if kind = .blockMapping ∧ block then do
            let ⟨pairs, count⟩ ← blockPairs handles rest
            return ⟨.mapping head pairs, skipped + 1 + count⟩
          else if before.isSome then some ⟨.scalar head .plain "", skipped⟩
          else none
termination_by (ts.length, 0)
decreasing_by
  all_goals
    have := congrArg List.length ‹List.drop _ _ = _›
    simp only [List.length_drop, List.length_cons] at this ⊢
    omega

/-- The rest of a block sequence, up to its end. -/
def blockItems (handles : Handles) (ts : List Token) : Option (Taken (List NamedNode)) :=
  match ts with
  | [] => none
  | t :: rest =>
    match t.kind with
    | .blockEnd => some ⟨[], 1⟩
    | .blockEntry =>
      match if nextIs [.blockEntry, .blockEnd] rest then some ⟨.empty t.stop, 0⟩
          else node handles true false rest with
      | none => none
      | some ⟨item, count⟩ => do
        let ⟨items, more⟩ ← blockItems handles (rest.drop count)
        return ⟨item :: items, 1 + count + more⟩
    | _ => none
termination_by (ts.length, 1)
decreasing_by all_goals (simp only [List.length_drop, List.length_cons]; omega)

/-- The rest of a sequence without indentation, after the dash `t`. -/
def indentlessItems (handles : Handles) (t : Token) (ts : List Token) :
    Option (Taken (List NamedNode)) :=
  match if nextIs [.blockEntry, .key, .value, .blockEnd] ts then some ⟨.empty t.stop, 0⟩
      else node handles true false ts with
  | none => none
  | some ⟨item, count⟩ =>
    match _h : ts.drop count with
    | [] => none
    | t :: rest =>
      if t.kind = .blockEntry then do
        let ⟨items, more⟩ ← indentlessItems handles t rest
        return ⟨item :: items, count + 1 + more⟩
      else some ⟨[item], count⟩
termination_by (ts.length, 1)
decreasing_by
  · exact Prod.Lex.right _ (by decide)
  · have := congrArg List.length ‹List.drop _ _ = _›
    simp only [List.length_drop, List.length_cons] at this
    omega

/-- The rest of a block mapping, up to its end. -/
def blockPairs (handles : Handles) (ts : List Token) :
    Option (Taken (List (NamedNode × NamedNode))) :=
  match ts with
  | [] => none
  | t :: rest =>
    match t.kind with
    | .blockEnd => some ⟨[], 1⟩
    | .key =>
      match if nextIs [.key, .value, .blockEnd] rest then some ⟨.empty t.stop, 0⟩
          else node handles true true rest with
      | none => none
      | some ⟨key, count⟩ =>
        match blockValue handles (rest.drop count) with
        | none => none
        | some ⟨value, more⟩ => do
          let ⟨pairs, others⟩ ← blockPairs handles (rest.drop (count + more))
          return ⟨(key, value) :: pairs, 1 + count + more + others⟩
    | _ => none
termination_by (ts.length, 2)
decreasing_by all_goals (simp only [List.length_drop, List.length_cons]; omega)

/-- The value of a key in a block mapping. -/
def blockValue (handles : Handles) (ts : List Token) : Option (Taken NamedNode) :=
  match ts with
  | [] => none
  | t :: rest =>
    if t.kind = .value then
      if nextIs [.key, .value, .blockEnd] rest then some ⟨.empty t.stop, 1⟩
      else (node handles true true rest).map fun ⟨n, count⟩ => ⟨n, count + 1⟩
    else some ⟨.empty t.start, 0⟩
termination_by (ts.length, 1)
decreasing_by all_goals (simp only [List.length_cons]; omega)

/-- The rest of a flow sequence, at the start of an item or at the end. -/
def flowItems (handles : Handles) (ts : List Token) : Option (Taken (List NamedNode)) :=
  match ts with
  | [] => none
  | t :: rest =>
    if t.kind = .flowSequenceEnd then some ⟨[], 1⟩
    else
      match if t.kind = .key then flowPair handles t rest else node handles false false (t :: rest) with
      | none => none
      | some ⟨item, count⟩ =>
        match _h : (t :: rest).drop count with
        | [] => none
        | next :: rest =>
          if next.kind = .flowSequenceEnd then some ⟨[item], count + 1⟩
          else if next.kind = .flowEntry then do
            let ⟨items, more⟩ ← flowItems handles rest
            return ⟨item :: items, count + 1 + more⟩
          else none
termination_by (ts.length, 3)
decreasing_by
  · exact Prod.Lex.left _ _ (Nat.lt_succ_self _)
  · exact Prod.Lex.right _ (by decide)
  · have := congrArg List.length ‹List.drop _ _ = _›
    simp only [List.length_drop, List.length_cons] at this ⊢
    omega

/-- A mapping of one pair as an item of a flow sequence, after its key mark `t`. Where the key is
left out, the token after the mark is lost. -/
def flowPair (handles : Handles) (t : Token) (ts : List Token) : Option (Taken NamedNode) :=
  match ts with
  | [] => none
  | next :: rest =>
    match if nextIs [.value, .flowEntry, .flowSequenceEnd] (next :: rest) then some ⟨.empty next.stop, 1⟩
        else node handles false false (next :: rest) with
    | none => none
    | some ⟨key, count⟩ =>
      match flowValue handles .flowSequenceEnd ((next :: rest).drop count) with
      | none => none
      | some ⟨value, more⟩ =>
        some ⟨.mapping ⟨t.start, none, none⟩ [(key, value)], 1 + count + more⟩
termination_by (ts.length, 2)
decreasing_by all_goals (simp only [List.length_drop, List.length_cons]; omega)

/-- The value of a key in a flow collection that `close` ends. -/
def flowValue (handles : Handles) (close : TokenKind) (ts : List Token) : Option (Taken NamedNode) :=
  match ts with
  | [] => none
  | t :: rest =>
    if t.kind = .value then
      if nextIs [.flowEntry, close] rest then (nextStart rest).map fun start => ⟨.empty start, 1⟩
      else (node handles false false rest).map fun ⟨n, count⟩ => ⟨n, count + 1⟩
    else some ⟨.empty t.start, 0⟩
termination_by (ts.length, 1)
decreasing_by all_goals (simp only [List.length_cons]; omega)

/-- A pair of a flow mapping, with a key mark before it or without. Without one it has no value. -/
def flowMember (handles : Handles) (ts : List Token) : Option (Taken (NamedNode × NamedNode)) :=
  match ts with
  | [] => none
  | t :: rest =>
    if t.kind = .key then
      match if nextIs [.value, .flowEntry, .flowMappingEnd] rest then
          (nextStart rest).map fun start => ⟨.empty start, 0⟩
        else node handles false false rest with
      | none => none
      | some ⟨key, count⟩ =>
        (flowValue handles .flowMappingEnd (rest.drop count)).map fun ⟨value, more⟩ =>
          ⟨(key, value), 1 + count + more⟩
    else
      match node handles false false (t :: rest) with
      | none => none
      | some ⟨key, count⟩ =>
        (nextStart ((t :: rest).drop count)).map fun start => ⟨(key, .empty start), count⟩
termination_by (ts.length, 2)
decreasing_by
  · simp only [List.length_cons]
    omega
  · simp only [List.length_drop, List.length_cons]
    omega
  · exact Prod.Lex.right _ (by decide)

/-- The rest of a flow mapping, at the start of a pair or at the end. -/
def flowPairs (handles : Handles) (ts : List Token) :
    Option (Taken (List (NamedNode × NamedNode))) :=
  match ts with
  | [] => none
  | t :: rest =>
    if t.kind = .flowMappingEnd then some ⟨[], 1⟩
    else
      match flowMember handles (t :: rest) with
      | none => none
      | some ⟨pair, count⟩ =>
        match _h : (t :: rest).drop count with
        | [] => none
        | next :: rest =>
          if next.kind = .flowMappingEnd then some ⟨[pair], count + 1⟩
          else if next.kind = .flowEntry then do
            let ⟨pairs, more⟩ ← flowPairs handles rest
            return ⟨pair :: pairs, count + 1 + more⟩
          else none
termination_by (ts.length, 3)
decreasing_by
  · exact Prod.Lex.right _ (by decide)
  · have := congrArg List.length ‹List.drop _ _ = _›
    simp only [List.length_drop, List.length_cons] at this ⊢
    omega

end

/-! ## Documents -/

/-- What the directives before a document say. -/
structure Directives where
  versioned : Bool := false
  handles : Handles := []

/-- Adds a directive. A second one for the same thing, or another major version, is an error. -/
def Directives.add (ds : Directives) : Directive → Option Directives
  | .version major minor =>
    if ds.versioned ∨ major ≠ 1 ∨ (minor ≠ 1 ∧ minor ≠ 2) then none
    else some { ds with versioned := true }
  | .tag handle expansion =>
    if (ds.handles.lookup handle).isSome then none
    else some { ds with handles := (handle, expansion) :: ds.handles }

/-- Takes directives up to the start of the document. -/
def directives (ds : Directives) : List Token → Option (Handles × List Token)
  | [] => none
  | t :: ts =>
    match t.kind with
    | .directive d => (ds.add d).bind fun ds => directives ds ts
    | .documentStart => some (ds.handles ++ standardHandles, ts)
    | _ => none

/-- The root of a first document, and the tokens after it. -/
def root (ts : List Token) : Option (Option NamedNode × List Token) :=
  let bare (handles : Handles) (ts : List Token) : Option (Option NamedNode × List Token) :=
    (node handles true false ts).map fun ⟨n, count⟩ => (some n, ts.drop count)
  match ts with
  | [] => none
  | t :: _ =>
    match t.kind with
    | .streamEnd => some (none, ts)
    | .directive _ | .documentStart => do
      let (handles, ts) ← directives {} ts
      match ts with
      | [] => none
      | t :: _ =>
        match t.kind with
        | .directive _ | .documentStart | .documentEnd | .streamEnd => some (some (.empty t.start), ts)
        | _ => bare handles ts
    | _ => bare standardHandles ts

/-- The first document of a text: its root, if it has one, and whether anything follows. -/
structure FirstDocument where
  root : Option NamedNode
  more : Bool

/-- The first document of a stream. It ends where another token stands, so it is lost if a fault
stands there. -/
def firstDocument (s : TokenStream) : Option FirstDocument := do
  let (root, rest) ← root s.tokens
  if rest.isEmpty then none
  else
    let next := rest.dropWhile (·.kind = .documentEnd)
    return ⟨root, !nextIs [.streamEnd] next⟩

end ProtoScribe.Yaml.Compose
