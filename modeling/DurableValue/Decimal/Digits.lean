/-
  DurableValue.Decimal.Digits — natural numbers and integers in decimal notation, as bytes.

  `ofNat` writes the digits with no leading zero, and `value` reads any list of digits back.
-/
import DurableValue.Text.Bytes

namespace DurableValue.Decimal

def zeroByte : UInt8 := 0x30

def isDigit (b : UInt8) : Bool := 0x30 ≤ b && b ≤ 0x39

def digitValue (b : UInt8) : Nat := b.toNat - 0x30

/-- The digits of `n`, most significant first. -/
def ofNat (n : Nat) : Bytes :=
  if n < 10 then [zeroByte + .ofNat n] else ofNat (n / 10) ++ [zeroByte + .ofNat (n % 10)]
termination_by n
decreasing_by omega

def ofInt (n : Int) : Bytes := if n < 0 then 0x2D :: ofNat n.natAbs else ofNat n.natAbs

/-- The number that a list of digits stands for. -/
def value (bs : Bytes) : Nat := bs.foldl (fun n b => n * 10 + digitValue b) 0

/-- Reads an integer: an optional sign, then at least one digit and nothing else. -/
def integer? (bs : Bytes) : Option Int :=
  let signed (negative : Bool) (ds : Bytes) : Option Int :=
    if ds.isEmpty || !ds.all isDigit then none
    else some (if negative then -(value ds : Int) else value ds)
  match bs with
  | 0x2D :: ds => signed true ds
  | 0x2B :: ds => signed false ds
  | ds => signed false ds

/-! ## Words of 64 bits -/

def signedLeast : Int := -(Int.pow 2 63)

def signedBound : Int := Int.pow 2 63

/-- Whether a number fits a signed word. -/
def fitsSigned (n : Int) : Bool := signedLeast ≤ n && n < signedBound

end DurableValue.Decimal
