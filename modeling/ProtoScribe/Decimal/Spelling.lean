import ProtoScribe.Decimal.Shortest

/-!
# Numbers in messages

Two styles of writing the shortest decimal of a double: all digits in place, with a fraction even
if it is zero; or the same for numbers of ordinary size and one digit before the point with an
exponent for the others.
-/

namespace ProtoScribe.Decimal

/-- `n` zeros. -/
def zeros (n : Nat) : List Char := List.replicate n '0'

/-- Every digit in its place and at least one on either side of the point. -/
def positional (d : Digits) : List Char :=
  let digits := Nat.toDigits 10 d.digits
  let point := d.point
  if point ≤ 0 then '0' :: '.' :: zeros (-point).toNat ++ digits
  else if (digits.length : Int) ≤ point then
    digits ++ zeros (point.toNat - digits.length) ++ ['.', '0']
  else digits.take point.toNat ++ '.' :: digits.drop point.toNat

/-- One digit before the point and a signed exponent. -/
def scientific (d : Digits) : List Char :=
  let exponent := d.point - 1
  let sign := if exponent < 0 then '-' else '+'
  let mantissa := match Nat.toDigits 10 d.digits with
    | [] => []
    | [c] => [c]
    | c :: cs => c :: '.' :: cs
  mantissa ++ 'e' :: sign :: Nat.toDigits 10 exponent.natAbs

/-- Exponents appear where more than sixteen digits precede the point, or five zeros follow it. -/
def compact (d : Digits) : List Char :=
  if -5 < d.point ∧ d.point ≤ 16 then positional d else scientific d

/-- How doubles are written. -/
structure Style where
  tie : Tie
  write : Digits → List Char

/-- All digits in their places, the larger of two equally near decimals. -/
def Style.inPlace : Style := ⟨.up, positional⟩

/-- Exponents for large and small numbers, the even one of two equally near decimals. -/
def Style.brief : Style := ⟨.even, compact⟩

/-- A number in a given style. -/
def Real.spell (style : Style) : Real → String
  | .notANumber => "NaN"
  | .signed negative magnitude =>
    (if negative then "-" else "") ++ match magnitude with
      | .infinite => "inf"
      | .finite 0 _ => "0.0"
      | .finite m e => String.ofList (style.write (shortest style.tie m e))

end ProtoScribe.Decimal
