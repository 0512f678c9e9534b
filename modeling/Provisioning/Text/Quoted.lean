import Provisioning.Text.Unprintable

/-!
# Text in quotation marks, as messages show it

Text inside a message stands in double quotes, a single character in single quotes. The backslash
and the enclosing mark are escaped, NUL, tab, line feed and carriage return have short escapes, and a
character without a glyph of its own is written as its code point in hexadecimal.
-/

namespace Provisioning.Text

/-- The code point of `c` between braces, in lower-case hexadecimal without leading zeros. -/
def codePointEscape (c : Char) : String :=
  "\\u\x7b" ++ String.ofList (Nat.toDigits 16 c.toNat) ++ "\x7d"

/-- One character of quoted text whose enclosing mark is `mark`. -/
def escapeChar (mark c : Char) : String :=
  if c = '\x00' then "\\0"
  else if c = '\t' then "\\t"
  else if c = '\r' then "\\r"
  else if c = '\n' then "\\n"
  else if c = '\\' then "\\\\"
  else if c = mark then "\\" ++ mark.toString
  else if isUnprintable c then codePointEscape c
  else c.toString

/-- A text between double quotes. -/
def quoteText (s : String) : String :=
  "\"" ++ String.join (s.toList.map (escapeChar '"')) ++ "\""

/-- A character between single quotes. -/
def quoteChar (c : Char) : String :=
  "'" ++ escapeChar '\'' c ++ "'"

end Provisioning.Text
