/-
  DurableValue.Decimal.Shortest — the shortest decimal text that reads back as a given binary64 number.

  The reals that round to a number form an interval, closed when its mantissa is even. For one digit, two digits and
  so on, the two neighbours of the number on that decimal grid are tried; the first grid with a neighbour inside the
  interval decides, and of two neighbours the nearer one is taken. Exponents from -5 up to 15 are written out, with a
  fraction of at least `.0`; the others get an exponent with its sign.
-/
import DurableValue.Decimal.Binary64
import DurableValue.Decimal.Digits

namespace DurableValue.Decimal

/-- The value `digits · 10^exponent`. -/
structure Scientific where
  digits : Nat
  exponent : Int
  deriving DecidableEq, Repr

namespace Shortest

/-- The fraction `num / den` times `10^k`, as numerator and denominator. -/
def scaled10 (num den : Nat) (k : Int) : Nat × Nat :=
  if 0 ≤ k then (num * Nat.pow 10 k.toNat, den) else (num, den * Nat.pow 10 (-k).toNat)

/-- Whether `a / b < c / d`. -/
def below (a b : Nat × Nat) : Bool := a.1 * b.2 < b.1 * a.2

/-- The ends of the interval of reals that round to a number other than zero. -/
def bounds (x : Binary64) : (Nat × Nat) × (Nat × Nat) :=
  let f (m : Nat) (e : Int) := Binary64.scaled m 1 e
  let low :=
    if x.mantissa = Nat.pow 2 52 ∧ Binary64.leastExponent < x.exponent then f (4 * x.mantissa - 1) (x.exponent - 2)
    else f (2 * x.mantissa - 1) (x.exponent - 1)
  (low, f (2 * x.mantissa + 1) (x.exponent - 1))

def inside (x : Binary64) (v : Nat × Nat) : Bool :=
  let (low, high) := bounds x
  if x.mantissa % 2 = 0 then !below v low && !below high v else below low v && below v high

/-- The power of ten of the leading digit: `10^e ≤ num / den < 10^(e+1)`, from a guess that is off by little. -/
def leading (num den : Nat) : (rounds : Nat) → Int → Int
  | 0, e => e
  | rounds + 1, e =>
    if below (scaled10 num den (-e)) (1, 1) then leading num den rounds (e - 1)
    else if below (scaled10 num den (-e)) (10, 1) then e
    else leading num den rounds (e + 1)

/-- The best of the two neighbours on the grid of `10^p`, if one lies in the interval. -/
def onGrid (x : Binary64) (p : Int) : Option Scientific :=
  let v := x.fraction
  let g := scaled10 v.1 v.2 (-p)
  let down := g.1 / g.2
  let up := down + 1
  let point (n : Nat) := scaled10 n 1 p
  let rest := g.1 % g.2
  match inside x (point down) && down != 0, inside x (point up) with
  | true, true =>
    if 2 * rest < g.2 ∨ (2 * rest = g.2 ∧ down % 2 = 0) then some ⟨down, p⟩ else some ⟨up, p⟩
  | true, false => some ⟨down, p⟩
  | false, true => some ⟨up, p⟩
  | false, false => none

/-- The first grid that has a hit, from `digits` digits on. -/
def search (x : Binary64) (e : Int) : (rounds : Nat) → (digits : Nat) → Scientific
  | 0, digits => (onGrid x (e - digits + 1)).getD ⟨0, 0⟩
  | rounds + 1, digits =>
    match onGrid x (e - digits + 1) with
    | some s => s
    | none => search x e rounds (digits + 1)

/-- Without zeros at the end of the digits. -/
def trimmed : (rounds : Nat) → Scientific → Scientific
  | 0, s => s
  | rounds + 1, s =>
    if s.digits ≠ 0 ∧ s.digits % 10 = 0 then trimmed rounds ⟨s.digits / 10, s.exponent + 1⟩ else s

/-- The shortest decimal of a number other than zero. -/
def scientific (x : Binary64) : Scientific :=
  let v := x.fraction
  let guess : Int := ((v.1.log2 : Int) - (v.2.log2 : Int)) * 30103 / 100000
  trimmed 20 (search x (leading v.1 v.2 8 guess) 17 1)

end Shortest

namespace Binary64

def pointByte : UInt8 := 0x2E

/-- The text of a number other than zero, without its sign. -/
def magnitudeText (x : Binary64) : Bytes :=
  let s := Shortest.scientific x
  let ds := ofNat s.digits
  let lead : Int := s.exponent + ds.length - 1
  if 0 ≤ lead ∧ lead < 16 then
    if 0 ≤ s.exponent then ds ++ List.replicate s.exponent.toNat zeroByte ++ [pointByte, zeroByte]
    else ds.take (lead.toNat + 1) ++ pointByte :: ds.drop (lead.toNat + 1)
  else if -5 ≤ lead ∧ lead < 0 then
    [zeroByte, pointByte] ++ List.replicate (-lead - 1).toNat zeroByte ++ ds
  else
    let tail := ds.drop 1
    ds.take 1 ++ (if tail.isEmpty then [] else pointByte :: tail) ++ [0x65, if lead < 0 then 0x2D else 0x2B] ++
      ofNat lead.natAbs

/-- The shortest text that reads back as `x`. -/
def text (x : Binary64) : Bytes :=
  (if x.negative then [0x2D] else []) ++
    if x.isZero then [zeroByte, pointByte, zeroByte] else magnitudeText x

end Binary64

end DurableValue.Decimal
