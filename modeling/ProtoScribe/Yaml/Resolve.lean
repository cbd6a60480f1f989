import ProtoScribe.Document.Complaint
import ProtoScribe.Json.StringLiteral
import ProtoScribe.Yaml.Node

/-!
# What scalars mean

A plain scalar is nothing, a truth value, an integer, a number with a fraction or a text, whichever
its spelling fits first. Integers have a radix mark or no leading zeros; digits with leading zeros
are text. A tag of the standard ones decides alone, and another tag makes a text of a scalar.
-/

namespace ProtoScribe.Yaml

open ProtoScribe.Document (Found Complaint)

namespace Plain

/-- The words for nothing. -/
def isNull (s : String) : Bool := s = "null" || s = "Null" || s = "NULL" || s = "~"

/-- The words for truth values. -/
def flag? (s : String) : Option Bool :=
  if s = "true" ∨ s = "True" ∨ s = "TRUE" then some true
  else if s = "false" ∨ s = "False" ∨ s = "FALSE" then some false
  else none

/-! ## Integers -/

/-- The number that digits spell, if there are any and all are below the radix. -/
def digits? (radix : Nat) (cs : List Char) : Option Nat :=
  if cs.isEmpty then none
  else
    cs.foldlM (fun n c => do
      let d ← Json.StringLiteral.hexDigit? c
      if d < radix then some (n * radix + d) else none) 0

/-- A number without a sign, with a radix mark or in decimal without leading zeros. -/
def magnitude? : List Char → Option Nat
  | '0' :: 'x' :: cs => digits? 16 cs
  | '0' :: 'o' :: cs => digits? 8 cs
  | '0' :: 'b' :: cs => digits? 2 cs
  | '0' :: _ :: _ => none
  | cs => digits? 10 cs

/-- A number with a plus sign or no sign. -/
def unsigned? : List Char → Option Nat
  | '+' :: cs => magnitude? cs
  | cs => magnitude? cs

/-- A number with a minus sign. -/
def negative? : List Char → Option Int
  | '-' :: cs => (magnitude? cs).map fun n => -(n : Int)
  | _ => none

/-- An integer of any size. -/
def integer? (s : String) : Option Int :=
  ((unsigned? s.toList).map Int.ofNat) <|> negative? s.toList

/-! ## Numbers with a fraction -/

/-- Digits with leading zeros, which are no number. -/
def isPadded (s : String) : Bool :=
  match s.toList with
  | '-' :: cs | '+' :: cs | cs =>
    match cs with
    | '0' :: d :: ds => (d :: ds).all Char.isDigit
    | _ => false

/-- An exponent with its mark, if there is one. -/
def exponent? : List Char → Option Int
  | [] => some 0
  | e :: cs =>
    if e = 'e' ∨ e = 'E' then
      match cs with
      | '-' :: cs => (digits? 10 cs).map fun n => -(n : Int)
      | '+' :: cs | cs => (digits? 10 cs).map Int.ofNat
    else none

/-- A decimal with digits before or after its point, or both. -/
def decimal? (cs : List Char) : Option Decimal.Magnitude := do
  let whole := cs.takeWhile Char.isDigit
  let (fraction, rest) := match cs.dropWhile Char.isDigit with
    | '.' :: cs => (cs.takeWhile Char.isDigit, cs.dropWhile Char.isDigit)
    | cs => ([], cs)
  let digits ← digits? 10 (whole ++ fraction)
  let exponent ← exponent? rest
  match Decimal.Magnitude.ofDecimal digits (exponent - fraction.length) with
  | .infinite => none
  | magnitude => some magnitude

/-- The words for infinity. -/
def isInfinity (s : String) : Bool := s = ".inf" || s = ".Inf" || s = ".INF"

/-- A number with a fraction or an exponent, or one of the words for what is none. -/
def real? (s : String) : Option Decimal.Real :=
  if s = ".nan" ∨ s = ".NaN" ∨ s = ".NAN" then some .notANumber
  else
    let signed (negative : Bool) (cs : List Char) : Option Decimal.Real :=
      if isInfinity (String.ofList cs) then some (.signed negative .infinite)
      else (decimal? cs).map (.signed negative)
    match s.toList with
    | '+' :: cs => signed false cs
    | '-' :: cs => signed true cs
    | cs => signed false cs

/-- Whether an integer fits 64 bits, with a sign or without. -/
def isNarrow (i : Int) : Bool := Int64.minValue.toInt ≤ i ∧ i < UInt64.size

/-- Whether an integer fits 128 bits, with a sign or without. -/
def isWide (i : Int) : Bool := -(Nat.pow 2 127 : Int) ≤ i ∧ i < (Nat.pow 2 128 : Int)

/-- An integer as messages show it. -/
def foundInteger? (s : String) : Option Found := do
  let i ← integer? s
  if isNarrow i then return .integer i else if isWide i then return .wide i else none

/-- What a plain scalar is. -/
def resolve (s : String) : Found :=
  if s = "" ∨ isNull s then .nothing
  else
    match flag? s, foundInteger? s, real? s with
    | some b, _, _ => .flag b
    | _, some found, _ => found
    | _, _, some r => if isPadded s then .text s else .real r
    | _, _, _ => .text s

end Plain

namespace Tag

/-- The standard tag of a kind of value. -/
def standard (name : String) : TagBytes := Utf8.encode ("tag:yaml.org,2002:" ++ name)

/-- A truth value's tag. -/
def flag : TagBytes := standard "bool"

/-- An integer's tag. -/
def integer : TagBytes := standard "int"

/-- The tag of a number with a fraction. -/
def real : TagBytes := standard "float"

/-- The tag of nothing. -/
def null : TagBytes := standard "null"

/-- Whether a tag belongs to the document alone. -/
def isLocal (tag : TagBytes) : Bool := tag.head? = some '!'.toUInt8

/-- The word that a local tag is. -/
def word? (tag : TagBytes) : Option String :=
  match tag with
  | b :: rest =>
    if b = '!'.toUInt8 then (Utf8.decode (if rest.isEmpty then tag else rest)).toOption else none
  | [] => none

end Tag

/-- The complaint about a scalar where messages call the wanted value `expected`. A scalar that
does not fit its own tag is told so instead. -/
def scalarComplaint (expected : String) (tag : Option TagBytes) (style : ScalarStyle) (text : String) :
    Complaint :=
  let fits (found : Option Found) (tagged : String) : Complaint :=
    found.elim (.wrongValue (.text text) tagged) (.wrongType · expected)
  let plain : Complaint :=
    .wrongType (if style = .plain then Plain.resolve text else .text text) expected
  match tag with
  | none => plain
  | some tag =>
    if tag = Tag.flag then fits ((Plain.flag? text).map .flag) "a boolean"
    else if tag = Tag.integer then fits (Plain.foundInteger? text) "an integer"
    else if tag = Tag.real then fits ((Plain.real? text).map .real) "a float"
    else if tag = Tag.null then fits (if Plain.isNull text then some .nothing else none) "null"
    else if Tag.isLocal tag then plain
    else .wrongType (.text text) expected

end ProtoScribe.Yaml
