import PageSvg.Text.Printable

/-!
# Quoted text

Identifiers of shared definitions are digests of descriptions in which texts stand in quotes. A
quoted text escapes the quote, the backslash, the common controls, and every character that does
not print.
-/

namespace PageSvg.Quoted

/-- A character between quotes of the given kind. -/
def escape (quote c : Char) : String :=
  if c = quote then "\\" ++ c.toString
  else if c = '\\' then "\\\\"
  else if c = '\n' then "\\n"
  else if c = '\r' then "\\r"
  else if c = '\t' then "\\t"
  else if c = '\x00' then "\\0"
  else if isPrintable c then c.toString
  else "\\u\x7b" ++ String.ofList (Nat.toDigits 16 c.toNat) ++ "\x7d"

/-- A text in double quotes. -/
def text (s : String) : String :=
  "\"" ++ String.join (s.toList.map (escape '"')) ++ "\""

/-- A character in single quotes. -/
def character (c : Char) : String := "'" ++ escape '\'' c ++ "'"

end PageSvg.Quoted
