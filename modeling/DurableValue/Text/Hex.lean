/-
  DurableValue.Text.Hex — hexadecimal digits, lower case, as the escapes of quoted text use them.
-/

namespace DurableValue.Text

def hexDigit (n : Nat) : Char :=
  if n < 10 then .ofNat ('0'.toNat + n) else .ofNat ('a'.toNat + (n - 10))

/-- The digits of `n`, most significant first, with no leading zero (zero itself is `0`). -/
def hex (n : Nat) : String := .ofList (Nat.toDigits 16 n)

/-- The last four digits of `n`, padded with zeros. -/
def hex4 (n : Nat) : String :=
  .ofList [hexDigit (n / 4096 % 16), hexDigit (n / 256 % 16), hexDigit (n / 16 % 16), hexDigit (n % 16)]

end DurableValue.Text
