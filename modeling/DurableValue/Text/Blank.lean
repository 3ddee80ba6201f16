/-
  DurableValue.Text.Blank — white space around a word, in the sense of the Unicode property White_Space, and the ASCII
  case map.
-/
import DurableValue.Text.Bytes

namespace DurableValue.Text

/-- The characters with the property White_Space. -/
def isBlank (c : Char) : Bool :=
  let n := c.toNat
  (0x09 ≤ n && n ≤ 0x0D) || n == 0x20 || n == 0x85 || n == 0xA0 || n == 0x1680 ||
    (0x2000 ≤ n && n ≤ 0x200A) || n == 0x2028 || n == 0x2029 || n == 0x202F || n == 0x205F || n == 0x3000

/-- Drops the characters that satisfy `p` from both ends. -/
def stripWhere (p : Char → Bool) (s : String) : String :=
  .ofList ((s.toList.dropWhile p).reverse.dropWhile p).reverse

def strip (s : String) : String := stripWhere isBlank s

/-- Lower case for the letters A to Z; every other character stays. -/
def lowerAscii (s : String) : String := .ofList (s.toList.map Char.toLower)

end DurableValue.Text
