import ProtoScribe.Json.Tree

/-!
# Parsing JSON

A text is read token by token. The arrays and objects that are open form a stack of frames, and a
state says what the innermost one waits for. A token that does not fit ends the reading: the frames
are closed as they are, around the broken place.
-/

namespace ProtoScribe.Json

/-- An array or object that is still open, with what it holds in reverse. -/
inductive Frame where
  | array (start : Nat) (before : List Tree)
  /-- An object that waits for the value of a key. -/
  | object (start : Nat) (before : List (Member Tree)) (key : Literal String) (colonAt : Nat)
  deriving Repr, Inhabited

/-- What a text has to go on with. -/
inductive State where
  | value
  /-- The first value of an array, or its end. -/
  | firstItem (start : Nat)
  /-- A value after a comma. -/
  | nextItem (start : Nat) (before : List Tree)
  /-- The first key of an object, or its end. -/
  | firstKey (start : Nat)
  /-- A key after a comma. -/
  | nextKey (start : Nat) (before : List (Member Tree))
  /-- The colon after a key. -/
  | colon (start : Nat) (before : List (Member Tree)) (key : Literal String)
  /-- Whatever follows a value. -/
  | done (tree : Tree)
  deriving Repr, Inhabited

/-- A whole text: its value, and where the text goes on after it if it does. -/
structure Parse where
  root : Tree
  trailing : Option Nat := none
  deriving Repr, Inhabited

/-- The frame's array or object around its last value. -/
def Frame.stop (tree : Tree) : Frame → Tree
  | array start before => .array start (tree :: before).reverse .stopped
  | object start before key colonAt =>
    .object start (⟨key, colonAt, tree, 0⟩ :: before).reverse .stopped

/-- The parse of a text of which `tree` is the broken end. -/
def Parse.stop (frames : List Frame) (tree : Tree) : Parse :=
  ⟨frames.foldl Frame.stop tree, none⟩

/-- How reading goes on after a token. -/
inductive Step where
  | next (frames : List Frame) (state : State)
  | stop (parse : Parse)
  deriving Repr, Inhabited

/-- A token as a value, without what a bracket opens. -/
def Token.leaf (t : Token) : Tree :=
  match t.kind with
  | .word .null => .null t.start t.stop
  | .word .yes => .flag true t.start t.stop
  | .word .no => .flag false t.start t.stop
  | .brokenWord w f => .brokenWord w t.start f
  | .number literal => .number t.start literal
  | .string literal => .string t.start literal
  | .openArray => .array t.start [] .stopped
  | .openObject => .object t.start [] .stopped
  | .closeArray | .closeObject | .comma | .colon | .stray =>
    .fault t.start ⟨.valueExpected, t.start + 1⟩

/-- A token where a value has to stand. -/
def Step.value (frames : List Frame) (t : Token) : Step :=
  match t.kind with
  | .openArray => .next frames (.firstItem t.start)
  | .openObject => .next frames (.firstKey t.start)
  | _ => if t.leaf.looseFault.isSome then .stop (.stop frames t.leaf) else .next frames (.done t.leaf)

/-- A token where a key has to stand. -/
def Step.key (frames : List Frame) (start : Nat) (before : List (Member Tree)) (t : Token) : Step :=
  match t.kind with
  | .string literal =>
    if literal.loose.isSome then
      .stop (.stop frames (.object start (⟨literal, 0, default, 0⟩ :: before).reverse .stopped))
    else .next frames (.colon start before literal)
  | _ => .stop (.stop frames (.object start before.reverse (.badKey t.leaf)))

/-- A token after a value. -/
def Step.after (tree : Tree) : List Frame → Token → Step
  | [], t => .stop ⟨tree, some t.start⟩
  | .array start before :: frames, t =>
    let before := tree :: before
    match t.kind with
    | .comma => .next frames (.nextItem start before)
    | .closeArray => .next frames (.done (.array start before.reverse (.closed t.stop)))
    | _ => .stop (.stop frames (.array start before.reverse (.noSeparator t.start)))
  | .object start before key colonAt :: frames, t =>
    let before := ⟨key, colonAt, tree, t.start⟩ :: before
    match t.kind with
    | .comma => .next frames (.nextKey start before)
    | .closeObject => .next frames (.done (.object start before.reverse (.closed t.stop)))
    | _ => .stop (.stop frames (.object start before.reverse (.noSeparator t.start)))

/-- How reading goes on. -/
def Step.of (frames : List Frame) (state : State) (t : Token) : Step :=
  match state, t.kind with
  | .value, _ => .value frames t
  | .firstItem start, .closeArray => .next frames (.done (.array start [] (.closed t.stop)))
  | .firstItem start, _ => .value (.array start [] :: frames) t
  | .nextItem start before, .closeArray =>
    .stop (.stop frames (.array start before.reverse (.trailingComma t.start)))
  | .nextItem start before, _ => .value (.array start before :: frames) t
  | .firstKey start, .closeObject => .next frames (.done (.object start [] (.closed t.stop)))
  | .firstKey start, _ => .key frames start [] t
  | .nextKey start before, .closeObject =>
    .stop (.stop frames (.object start before.reverse (.trailingComma t.start)))
  | .nextKey start before, _ => .key frames start before t
  | .colon start before key, .colon => .next (.object start before key t.start :: frames) .value
  | .colon start before key, .closeObject =>
    .stop (.stop (.object start before key t.stop :: frames)
      (.fault t.start ⟨.colonExpected, t.start + 1⟩))
  | .colon start before key, _ =>
    .stop (.stop (.object start before key t.start :: frames)
      (.fault t.start ⟨.colonExpected, t.start + 1⟩))
  | .done tree, _ => .after tree frames t

/-- The parse of a text that ends, at `length`, where something has to follow. -/
def Parse.cut (length : Nat) (frames : List Frame) : State → Parse
  | .value => .stop frames (.fault length ⟨.endInValue, length⟩)
  | .firstItem start => .stop frames (.array start [] (.ended length))
  | .nextItem start before => .stop frames (.array start before.reverse (.endAfterComma length))
  | .firstKey start => .stop frames (.object start [] (.ended length))
  | .nextKey start before => .stop frames (.object start before.reverse (.endAfterComma length))
  | .colon start before key =>
    .stop (.object start before key length :: frames) (.fault length ⟨.endInObject, length⟩)
  | .done tree =>
    match frames with
    | [] => ⟨tree, none⟩
    | .array start before :: frames =>
      .stop frames (.array start (tree :: before).reverse (.ended length))
    | .object start before key colonAt :: frames =>
      .stop frames (.object start (⟨key, colonAt, tree, length⟩ :: before).reverse (.ended length))

/-- Reads on from `offset` in a text of `length` bytes. -/
def Parse.readFrom (length offset : Nat) (frames : List Frame) (state : State) (cs : List Char) :
    Parse :=
  match _h : Token.next length offset cs with
  | none => .cut length frames state
  | some (t, rest) =>
    match Step.of frames state t with
    | .next frames state => readFrom length t.stop frames state rest
    | .stop parse => parse
termination_by cs.length
decreasing_by exact Token.length_next ‹_›

/-- The parse of a text. -/
def Parse.ofText (text : String) : Parse :=
  .readFrom text.utf8ByteSize 0 [] .value text.toList

end ProtoScribe.Json
