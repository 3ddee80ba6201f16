/-
  DurableValue.Decimal.Binary64 — finite binary64 numbers as a sign, a mantissa and an exponent, rounded in exact
  arithmetic.

  A value is mantissa · 2^exponent. It is kept in its one normal form: the mantissa has 53 bits, or the exponent is
  the least one. `round` takes an exact fraction to the nearest such number, a tie to the even mantissa, and gives
  none beyond the largest. Product and quotient round the exact result once.
-/

namespace DurableValue.Decimal

structure Binary64 where
  negative : Bool
  mantissa : Nat
  exponent : Int
  deriving DecidableEq, Repr, Inhabited

namespace Binary64

def leastExponent : Int := -1074

def greatestExponent : Int := 971

/-- The mantissas of normal numbers lie from `2^52` up to, not including, this bound. -/
def mantissaBound : Nat := Nat.pow 2 53

def zero : Binary64 := ⟨false, 0, leastExponent⟩

def isZero (x : Binary64) : Bool := x.mantissa = 0

def neg (x : Binary64) : Binary64 := { x with negative := !x.negative }

/-- Numeric equality: the two zeros are equal. -/
def eq (x y : Binary64) : Bool := (x.isZero && y.isZero) || x == y

/-- The quotient to the nearest natural number, a tie to the even one. -/
def divNearest (num den : Nat) : Nat :=
  let q := num / den
  let r := num % den
  if 2 * r < den then q
  else if den < 2 * r then q + 1
  else if q % 2 = 0 then q else q + 1

/-- The positive fraction `num / den` times `2^shift`, as numerator and denominator. -/
def scaled (num den : Nat) (shift : Int) : Nat × Nat :=
  if 0 ≤ shift then (num * Nat.pow 2 shift.toNat, den) else (num, den * Nat.pow 2 (-shift).toNat)

/-- The exponent at which `num / den` has a mantissa of 53 bits, but no less than the least one. -/
def exponentFor (num den : Nat) : Int :=
  let guess : Int := (num.log2 : Int) - (den.log2 : Int) - 52
  let e := if (scaled num den (-guess)).1 < (scaled num den (-guess)).2 * Nat.pow 2 52 then guess - 1 else guess
  max e leastExponent

/-- The number nearest to `num / den` with the given sign; none when it is too large. -/
def round (negative : Bool) (num den : Nat) : Option Binary64 :=
  if num = 0 then some ⟨negative, 0, leastExponent⟩
  else
    let e := exponentFor num den
    let f := scaled num den (-e)
    let m := divNearest f.1 f.2
    let x : Binary64 := if m = mantissaBound then ⟨negative, Nat.pow 2 52, e + 1⟩ else ⟨negative, m, e⟩
    if greatestExponent < x.exponent then none else some x

/-- The exact value as a fraction of naturals, without its sign. -/
def fraction (x : Binary64) : Nat × Nat := scaled x.mantissa 1 x.exponent

def ofNat? (n : Nat) : Option Binary64 := round false n 1

def mul? (x y : Binary64) : Option Binary64 :=
  round (x.negative != y.negative) (x.fraction.1 * y.fraction.1) (x.fraction.2 * y.fraction.2)

/-- The quotient by a number that is not zero. -/
def div? (x y : Binary64) : Option Binary64 :=
  round (x.negative != y.negative) (x.fraction.1 * y.fraction.2) (x.fraction.2 * y.fraction.1)

end Binary64

end DurableValue.Decimal
