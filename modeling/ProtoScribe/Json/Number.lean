import ProtoScribe.Json.Literal

/-!
# JSON numbers

A literal without fraction and exponent that fits 64 bits is an integer, and every other one is a
double. Its digits are gathered as long as they fit 64 bits; the double is that number divided or
multiplied by a power of ten, each step rounded. So it need not be the double nearest to the
literal.
-/

namespace ProtoScribe.Json

open Decimal

/-- What a number literal means. -/
inductive Number where
  | integer (value : Int)
  | real (value : Decimal.Real)
  deriving DecidableEq, Repr, Inhabited

namespace Number

/-- The value of a decimal digit. -/
def digit (c : Char) : Nat := c.toNat - '0'.toNat

/-- Appends digits to `significand` up to the first that does not fit 64 bits, and counts them. -/
def gather (significand count : Nat) : List Char → Nat × Nat
  | [] => (significand, count)
  | c :: cs =>
    let next := significand * 10 + digit c
    if next < UInt64.size then gather next (count + 1) cs else (significand, count)

/-- `magnitude * 10 ^ exponent`, unless it is too large. Each step of the computation is rounded. -/
def scale (magnitude : Magnitude) (exponent : Int) : Option Magnitude :=
  if exponent < -308 then
    if magnitude = .zero then some magnitude
    else scale (magnitude.div (.ofDecimal 1 308)) (exponent + 308)
  else if exponent < 0 then some (magnitude.div (.ofDecimal 1 (-exponent)))
  else if exponent ≤ 308 then
    let product := magnitude.mul (.ofDecimal 1 exponent)
    if product = .infinite then none else some product
  else if magnitude = .zero then some magnitude
  else none
termination_by (-exponent).toNat

/-- The digits of an exponent, or how many of them lead out of 32 bits. -/
def exponentOf (value count : Nat) : List Char → Except Nat Nat
  | [] => .ok value
  | c :: cs =>
    let next := value * 10 + digit c
    if 2 * next < UInt32.size then exponentOf next (count + 1) cs else .error (count + 1)

/-- The digits and signs of a literal, and the offset of its exponent's digits. -/
structure Spelled where
  negative : Bool
  whole : List Char
  fraction : List Char := []
  exponent : Option (Bool × List Char) := none
  exponentAt : Nat := 0
  deriving Repr

/-- Whether the literal is spelled as an integer. -/
def Spelled.isWhole (s : Spelled) : Bool := s.fraction.isEmpty && s.exponent.isNone

/-- What a literal that ends at `stop` means. -/
def Spelled.value (s : Spelled) (stop : Nat) : Except Fault Number :=
  let (significand, count) := gather 0 0 s.whole
  let dropped := s.whole.length - count
  if s.isWhole ∧ dropped = 0 ∧ ¬s.negative then .ok (.integer significand)
  else if s.isWhole ∧ dropped = 0 ∧ 0 < significand ∧ 2 * significand ≤ UInt64.size then
    .ok (.integer (-significand))
  else
    let (significand, places) := gather significand 0 s.fraction
    let scaled (exponent : Int) : Except Fault Number :=
      match scale (.nearest significand 1) (dropped - places + exponent) with
      | some magnitude => .ok (.real (.signed s.negative magnitude))
      | none => .error ⟨.numberOutOfRange, stop⟩
    match s.exponent with
    | none => scaled 0
    | some (negative, digits) =>
      match exponentOf 0 0 digits with
      | .ok n => scaled (if negative then -n else n)
      | .error count =>
        if significand ≠ 0 ∧ ¬negative then .error ⟨.numberOutOfRange, s.exponentAt + count⟩
        else .ok (.real (.signed s.negative .zero))

/-- A literal of which a digit is missing at `offset` in a text of `length` bytes. -/
def digitMissing (length offset : Nat) : Literal Number :=
  { strict := .error
      (if offset = length then ⟨.endInValue, length⟩ else ⟨.invalidNumber, offset + 1⟩)
    loose := some ⟨.invalidNumber, min (offset + 1) length⟩
    stop := offset }

/-- The digits at the head of a text, and what follows them. -/
def spanDigits (cs : List Char) : List Char × List Char :=
  (cs.takeWhile Char.isDigit, cs.dropWhile Char.isDigit)

/-- The sign of an exponent and how many characters it takes. -/
def exponentSign : List Char → Bool × Nat
  | '+' :: _ => (false, 1)
  | '-' :: _ => (true, 1)
  | _ => (false, 0)

/-- Reads the exponent, if there is one, and finishes the literal. -/
def scanExponent (length offset : Nat) (s : Spelled) (cs : List Char) :
    Literal Number × List Char :=
  match cs with
  | c :: rest =>
    if c = 'e' ∨ c = 'E' then
      let (negative, signs) := exponentSign rest
      let (digits, rest) := spanDigits (rest.drop signs)
      let first := offset + 1 + signs
      let stop := first + digits.length
      if digits.isEmpty then (digitMissing length first, rest)
      else
        let s := { s with exponent := some (negative, digits), exponentAt := first }
        (⟨s.value stop, none, stop⟩, rest)
    else (⟨s.value offset, none, offset⟩, cs)
  | [] => (⟨s.value offset, none, offset⟩, cs)

/-- Reads the fraction, if there is one, and what follows it. -/
def scanFraction (length offset : Nat) (s : Spelled) (cs : List Char) : Literal Number × List Char :=
  match cs with
  | '.' :: rest =>
    let (digits, rest) := spanDigits rest
    if digits.isEmpty then (digitMissing length (offset + 1), rest)
    else scanExponent length (offset + 1 + digits.length) { s with fraction := digits } rest
  | cs => scanExponent length offset s cs

/-- Reads on after the sign and the leading digits, the first of which stands at `offset`. -/
def scanWhole (length offset : Nat) (negative : Bool) (digits rest : List Char) :
    Literal Number × List Char :=
  match digits with
  | [] => (digitMissing length offset, rest)
  | '0' :: _ :: _ => (.broken .invalidNumber (offset + 2), rest)
  | digits => scanFraction length (offset + digits.length) { negative, whole := digits } rest

/-! ## A number takes something from the text -/

theorem length_spanDigits (cs : List Char) : (spanDigits cs).2.length ≤ cs.length :=
  List.Sublist.length_le (List.dropWhile_sublist _)

theorem length_scanExponent (length offset : Nat) (s : Spelled) (cs : List Char) :
    (scanExponent length offset s cs).2.length ≤ cs.length := by
  unfold scanExponent
  split
  · next c rest =>
    have h := length_spanDigits (rest.drop (exponentSign rest).2)
    simp only [List.length_drop] at h
    split
    · dsimp only
      split <;> (simp only [List.length_cons]; omega)
    · exact Nat.le_refl _
  · exact Nat.le_refl _

theorem length_scanFraction (length offset : Nat) (s : Spelled) (cs : List Char) :
    (scanFraction length offset s cs).2.length ≤ cs.length := by
  unfold scanFraction
  split
  · next rest =>
    have h := length_spanDigits rest
    dsimp only
    split
    · simp only [List.length_cons]
      omega
    · refine Nat.le_trans (length_scanExponent ..) ?_
      simp only [List.length_cons]
      omega
  · exact length_scanExponent ..

theorem length_scanWhole (length offset : Nat) (negative : Bool) (digits rest : List Char) :
    (scanWhole length offset negative digits rest).2.length ≤ rest.length := by
  unfold scanWhole
  split
  · exact Nat.le_refl _
  · exact Nat.le_refl _
  · exact length_scanFraction ..

end Number

end ProtoScribe.Json
