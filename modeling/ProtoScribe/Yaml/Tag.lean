import ProtoScribe.Json.StringLiteral
import ProtoScribe.Text.Utf8
import ProtoScribe.Yaml.Glyph

/-!
# Names, tags and directives

Anchors and aliases have names of word characters. A tag is given in full between angle brackets,
or as a handle, which a directive expands, with a suffix. Tags are bytes, since an escape in a
suffix may name any. A zero byte ends what it stands in.
-/

namespace ProtoScribe.Yaml

/-- The bytes of a tag. -/
abbrev TagBytes : Type := List UInt8

/-- A tag as it is written: a handle that stands for the start of a tag, and what follows it. -/
structure TagName where
  handle : String
  suffix : TagBytes
  deriving DecidableEq, Repr, Inhabited

/-- The word at the head of a text. -/
def word (gs : List Glyph) : Taken String :=
  let cs := (gs.takeWhile (isWordChar ·.char)).map Glyph.char
  ⟨String.ofList cs, cs.length⟩

/-- How many blanks a text starts with. -/
def blanks (gs : List Glyph) : Nat := (gs.takeWhile Glyph.isBlank).length

/-! ## Anchors -/

/-- The characters besides gaps that may follow a name. -/
def endsName (c : Char) : Bool :=
  c = '?' || c = ':' || c = ',' || c = ']' || c = '}' || c = '%' || c = '@' || c = '\x60'

/-- The name of an anchor or alias. -/
def anchorName (gs : List Glyph) : Option (Taken String) :=
  let name := word gs
  let rest := gs.drop name.count
  if name.count = 0 then none
  else if atGap rest || rest.head?.any (endsName ·.char) then some name
  else none

/-! ## Tags -/

/-- The handle at the head of a text: an exclamation mark, and a word with another one if both are
there. In a directive the second mark is needed after a word. -/
def handle (directive : Bool) (gs : List Glyph) : Option (Taken String) :=
  if startsWith '!' gs then
    let name := word (gs.drop 1)
    if startsWith '!' (gs.drop (1 + name.count)) then
      some ⟨"!" ++ name.value ++ "!", name.count + 2⟩
    else if directive && name.count ≠ 0 then none
    else some ⟨"!" ++ name.value, name.count + 1⟩
  else none

/-- The characters of suffixes and prefixes; brackets and commas are for some places only. -/
def isUriChar (brackets : Bool) (c : Char) : Bool :=
  isWordChar c || c = ';' || c = '/' || c = '?' || c = ':' || c = '@' || c = '&' || c = '=' || c = '+'
    || c = '$' || c = '.' || c = '!' || c = '~' || c = '*' || c = '\'' || c = '(' || c = ')'
    || (brackets && (c = ',' || c = '[' || c = ']'))

/-- The byte that a percent sign and two hexadecimal digits name. -/
def escapedByte? (gs : List Glyph) : Option UInt8 :=
  match gs with
  | p :: a :: b :: _ =>
    if p.char = '%' then do
      return .ofNat ((← Json.StringLiteral.hexDigit? a.char) * 16
        + (← Json.StringLiteral.hexDigit? b.char))
    else none
  | _ => none

/-- How many bytes a character has that starts with `b`, judged by its leading bits. -/
def sequenceLength? (b : UInt8) : Option Nat :=
  if b < 0x80 then some 1
  else if 0xC0 ≤ b ∧ b < 0xE0 then some 2
  else if 0xE0 ≤ b ∧ b < 0xF0 then some 3
  else if 0xF0 ≤ b ∧ b < 0xF8 then some 4
  else none

/-- The bytes that `count` escapes name inside a character. -/
def continuation? : (count : Nat) → List Glyph → Option TagBytes
  | 0, _ => some []
  | count + 1, gs => do
    let b ← escapedByte? gs
    if 0x80 ≤ b ∧ b < 0xC0 then return b :: (← continuation? count (gs.drop 3)) else none

/-- The bytes of the character whose escapes stand at the head of a text. -/
def escapedBytes? (gs : List Glyph) : Option TagBytes := do
  let b ← escapedByte? gs
  return b :: (← continuation? ((← sequenceLength? b) - 1) (gs.drop 3))

/-- Reads on in a suffix or prefix, its bytes so far in reverse. -/
def uriFrom (brackets : Bool) (before : TagBytes) (count : Nat) (gs : List Glyph) :
    Option (Taken TagBytes) :=
  match gs with
  | [] => some ⟨before.reverse, count⟩
  | g :: rest =>
    if g.char = '%' then
      match escapedBytes? gs with
      | none => none
      | some bytes =>
        uriFrom brackets (bytes.reverse ++ before) (count + 3 * bytes.length)
          (rest.drop (3 * bytes.length - 1))
    else if isUriChar brackets g.char then
      uriFrom brackets ((String.utf8EncodeChar g.char).reverse ++ before) (count + 1) rest
    else some ⟨before.reverse, count⟩
termination_by gs.length
decreasing_by all_goals (simp only [List.length_drop, List.length_cons]; omega)

/-- What counts of a suffix or prefix: the bytes before the first zero. -/
def beforeZero (bytes : TagBytes) : TagBytes := bytes.takeWhile (· ≠ 0)

/-- The suffix or prefix at the head of a text, for which something has to be written. -/
def uri (brackets : Bool) (gs : List Glyph) : Option (Taken TagBytes) := do
  let ⟨bytes, count⟩ ← uriFrom brackets [] 0 gs
  if count = 0 then none else return ⟨beforeZero bytes, count⟩

/-- The tag between angle brackets, the first of which has been taken. -/
def verbatimTag (gs : List Glyph) : Option (Taken TagName) := do
  let suffix ← uri true gs
  if startsWith '>' (gs.drop suffix.count) then return ⟨⟨"", suffix.value⟩, suffix.count + 1⟩
  else none

/-- A tag whose handle is followed by its suffix. A handle with a single mark is the start of a
suffix, and a lone mark is a whole tag. -/
def shorthandTag (gs : List Glyph) : Option (Taken TagName) := do
  let name ← handle false gs
  let rest := gs.drop name.count
  if 1 < name.count ∧ name.value.toList.getLast? = some '!' then
    let suffix ← uri false rest
    return ⟨⟨name.value, suffix.value⟩, name.count + suffix.count⟩
  else
    let ⟨bytes, count⟩ ← uriFrom false (Utf8.encode name.value).tail.reverse name.count rest
    let suffix := beforeZero bytes
    if suffix.isEmpty then return ⟨⟨"", Utf8.encode "!"⟩, count⟩
    else return ⟨⟨"!", suffix⟩, count⟩

/-- The tag at the head of a text, which a gap has to follow, or in flow context a comma. -/
def tag (flow : Bool) (gs : List Glyph) : Option (Taken TagName) := do
  let found ← match gs with
    | _ :: b :: rest =>
      if b.char = '<' then do
        let found ← verbatimTag rest
        pure { found with count := found.count + 2 }
      else shorthandTag gs
    | gs => shorthandTag gs
  let rest := gs.drop found.count
  if atGap rest || (flow && startsWith ',' rest) then return found else none

/-! ## Directives -/

/-- A line that says something about the document after it. -/
inductive Directive where
  | version (major minor : Nat)
  | tag (handle : String) (expansion : TagBytes)
  deriving DecidableEq, Repr, Inhabited

/-- A number of at most nine digits. -/
def versionNumber (gs : List Glyph) : Option (Taken Nat) :=
  let digits := (gs.takeWhile (·.char.isDigit)).map Glyph.char
  if digits.isEmpty ∨ 9 < digits.length then none
  else some ⟨digits.foldl (fun n c => n * 10 + (c.toNat - '0'.toNat)) 0, digits.length⟩

/-- Two numbers with a point between them. -/
def versionDirective (gs : List Glyph) : Option (Taken Directive) := do
  let skipped := blanks gs
  let major ← versionNumber (gs.drop skipped)
  let dot := skipped + major.count
  if startsWith '.' (gs.drop dot) then
    let minor ← versionNumber (gs.drop (dot + 1))
    return ⟨.version major.value minor.value, dot + 1 + minor.count⟩
  else none

/-- A handle and what it stands for. -/
def tagDirective (gs : List Glyph) : Option (Taken Directive) := do
  let skipped := blanks gs
  let name ← handle true (gs.drop skipped)
  let after := skipped + name.count
  let gap := blanks (gs.drop after)
  if gap = 0 then none
  else
    let expansion ← uri true (gs.drop (after + gap))
    let stop := after + gap + expansion.count
    if atGap (gs.drop stop) then return ⟨.tag name.value expansion.value, stop⟩ else none

/-- The directive after a percent sign, without the rest of its line. -/
def directive (gs : List Glyph) : Option (Taken Directive) := do
  let name := word gs
  let rest := gs.drop name.count
  if !atGap rest then none
  else
    let found ← if name.value = "YAML" then versionDirective rest
      else if name.value = "TAG" then tagDirective rest
      else none
    return { found with count := name.count + found.count }

end ProtoScribe.Yaml
