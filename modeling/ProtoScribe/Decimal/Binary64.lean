/-!
# Double precision numbers

A finite magnitude is `significand * 2 ^ exponent` with a significand below `2 ^ 53` and an
exponent of at least `-1074`; the representation is the one with the largest significand. A ratio
of natural numbers is rounded to the nearest of them, a tie going to the even significand.
-/

namespace ProtoScribe.Decimal

/-- The size of a double precision number. -/
inductive Magnitude where
  | finite (significand : Nat) (exponent : Int)
  | infinite
  deriving DecidableEq, Repr, Inhabited

/-- A double precision number. -/
inductive Real where
  | signed (negative : Bool) (magnitude : Magnitude)
  | notANumber
  deriving DecidableEq, Repr, Inhabited

namespace Magnitude

/-- Zero, in the representation with the least exponent. -/
def zero : Magnitude := .finite 0 (-1074)

/-- `num / den` as a quotient and whether the remainder rounds it up, ties to even. -/
def roundedDiv (num den : Nat) : Nat :=
  let quotient := num / den
  let twice := 2 * (num % den)
  if twice > den ∨ (twice = den ∧ quotient % 2 = 1) then quotient + 1 else quotient

/-- `num * 2 ^ shift / den`, rounded. -/
def scaledDiv (num den : Nat) (shift : Int) : Nat :=
  roundedDiv (num * Nat.pow 2 shift.toNat) (den * Nat.pow 2 (-shift).toNat)

/-- The largest `e` with `2 ^ e ≤ num / den`, for positive arguments. -/
def floorLog2 (num den : Nat) : Int :=
  let e : Int := (num.log2 : Int) - den.log2
  if den * Nat.pow 2 e.toNat ≤ num * Nat.pow 2 (-e).toNat then e else e - 1

/-- The magnitude nearest to `num / den`. -/
def nearest (num den : Nat) : Magnitude :=
  if num = 0 then zero
  else
    let exponent := max (floorLog2 num den - 52) (-1074)
    let significand := scaledDiv num den (-exponent)
    let (significand, exponent) :=
      if significand = Nat.pow 2 53 then (Nat.pow 2 52, exponent + 1) else (significand, exponent)
    if exponent > 971 then .infinite else .finite significand exponent

/-- The magnitude nearest to `digits * 10 ^ exponent`. Beyond any double the outcome is decided
without forming the power. -/
def ofDecimal (digits : Nat) (exponent : Int) : Magnitude :=
  if digits = 0 then zero
  else if exponent > 400 then .infinite
  else if exponent + (digits.log2 : Int) < -1100 then zero
  else nearest (digits * Nat.pow 10 exponent.toNat) (Nat.pow 10 (-exponent).toNat)

/-- The numerator and denominator of a finite magnitude. -/
def ratio (significand : Nat) (exponent : Int) : Nat × Nat :=
  (significand * Nat.pow 2 exponent.toNat, Nat.pow 2 (-exponent).toNat)

/-- The product, rounded. -/
def mul : Magnitude → Magnitude → Magnitude
  | .finite m e, .finite n f =>
    let (a, b) := ratio m e
    let (c, d) := ratio n f
    nearest (a * c) (b * d)
  | _, _ => .infinite

/-- The quotient by a magnitude other than zero, rounded. -/
def div : Magnitude → Magnitude → Magnitude
  | .finite m e, .finite n f =>
    let (a, b) := ratio m e
    let (c, d) := ratio n f
    nearest (a * d) (b * c)
  | .finite _ _, .infinite => zero
  | .infinite, _ => .infinite

end Magnitude

end ProtoScribe.Decimal
