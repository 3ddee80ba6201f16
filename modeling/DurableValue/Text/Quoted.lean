/-
  DurableValue.Text.Quoted — text between double quotes, as diagnostics show it.

  The quote and the backslash are escaped, so are the newline, the carriage return, the tab and NUL by their short
  forms, and every other character that is not printable by its code point: `\u{1f}`.
-/
import DurableValue.Text.Hex
import DurableValue.Text.Printable

namespace DurableValue.Text

def quotedChar (c : Char) : String :=
  if c = '"' then "\\\""
  else if c = '\\' then "\\\\"
  else if c = '\n' then "\\n"
  else if c = '\r' then "\\r"
  else if c = '\t' then "\\t"
  else if c = '\x00' then "\\0"
  else if isPrintable c then c.toString
  else "\\u\x7b" ++ hex c.toNat ++ "\x7d"

def quoted (s : String) : String :=
  "\"" ++ String.join (s.toList.map quotedChar) ++ "\""

end DurableValue.Text
