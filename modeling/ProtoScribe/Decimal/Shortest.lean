import ProtoScribe.Decimal.Binary64

/-!
# Shortest decimals

The fewest significant digits that read back as a given double. For one, two, … seventeen digits
the two neighbours of the number on that decimal grid are tried; the first grid on which one of
them reads back wins, and of two that do the nearer one is taken. A style of writing decides which
one that is where both are equally near.
-/

namespace ProtoScribe.Decimal

/-- `digits * 10 ^ exponent`. -/
structure Digits where
  digits : Nat
  exponent : Int
  deriving DecidableEq, Repr, Inhabited

namespace Digits

/-- Drops trailing zeros of the digits, which does not change the number. -/
def trimmed (d : Digits) : Digits :=
  if h : d.digits ≠ 0 ∧ d.digits % 10 = 0 then trimmed ⟨d.digits / 10, d.exponent + 1⟩ else d
termination_by d.digits
decreasing_by exact Nat.div_lt_self (Nat.pos_of_ne_zero h.1) (by decide)

/-- The number of digits before the decimal point. -/
def point (d : Digits) : Int := (Nat.toDigits 10 d.digits).length + d.exponent

end Digits

/-- Which one of two equally near neighbours is taken. -/
inductive Tie where
  /-- The one whose last digit is even. -/
  | even
  /-- The larger one. -/
  | up
  deriving DecidableEq, Repr, Inhabited

/-- The least `k` in range with `num / den < 10 ^ k`. -/
def decimalPoint (num den : Nat) : Int :=
  ((List.range 640).map fun (i : Nat) => (i : Int) - 325).find?
    (fun k => num * Nat.pow 10 (-k).toNat < den * Nat.pow 10 k.toNat) |>.getD 0

/-- The two neighbours of `num / den` among the natural numbers, the one to be taken first. -/
def neighbours (tie : Tie) (num den : Nat) : List Nat :=
  let below := num / den
  let twice := 2 * (num % den)
  if twice < den ∨ (twice = den ∧ tie = .even ∧ below % 2 = 0) then [below, below + 1]
  else [below + 1, below]

/-- The neighbours of `num / den` with `count` digits that read back as `target`, the one to be
taken first. -/
def readingBack (tie : Tie) (target : Magnitude) (num den : Nat) (point : Int) (count : Nat) :
    List Digits :=
  let exponent := point - count
  let order := neighbours tie (num * Nat.pow 10 (-exponent).toNat) (den * Nat.pow 10 exponent.toNat)
  (order.map fun d => ⟨d, exponent⟩).filter fun d => Magnitude.ofDecimal d.digits d.exponent = target

/-- The shortest decimal of a finite magnitude other than zero. -/
def shortest (tie : Tie) (significand : Nat) (exponent : Int) : Digits :=
  let (num, den) := Magnitude.ratio significand exponent
  let point := decimalPoint num den
  ((List.range 17).findSome? fun i =>
    (readingBack tie (.finite significand exponent) num den point (i + 1)).head?).getD ⟨significand, exponent⟩
  |>.trimmed

end ProtoScribe.Decimal
