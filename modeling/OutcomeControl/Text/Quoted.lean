import OutcomeControl.Text.Extending
import OutcomeControl.Text.Printable

/-! String literals of program text. -/

namespace OutcomeControl.Text

/-- A character by its code point. -/
def codeEscape (c : Char) : String :=
  "\\u\x7b" ++ String.ofList (Nat.toDigits 16 c.toNat) ++ "\x7d"

/-- A character inside a string literal: quotes, backslashes and the usual controls have escapes
of one letter, what is not printable or extends its neighbour is written by its code point. -/
def escapeChar (c : Char) : String :=
  if c = '\x00' then "\\0" else if c = '\t' then "\\t"
  else if c = '\r' then "\\r" else if c = '\n' then "\\n"
  else if c = '"' then "\\\"" else if c = '\\' then "\\\\"
  else if isExtending c || !isPrintable c then codeEscape c
  else c.toString

def quoted (s : String) : String := "\"" ++ String.join (s.toList.map escapeChar) ++ "\""

end OutcomeControl.Text
