import OutcomeControl.Toml.Scalar

/-! Quoted texts: between double quotes with escapes, or between apostrophes as they stand, each on
one line or, with three quotes, on several. -/

namespace OutcomeControl.Toml

def isBlank (c : Char) : Bool := c == ' ' || c == '\t'

/-- A character that may stand in a comment or, but for quotes and escapes, in a text. -/
def isPrintable (c : Char) : Bool := c == '\t' || ' ' ≤ c && c ≤ '~' || '\x80' ≤ c

/-- The end of a line. -/
def newline : Scan Unit := do
  if ← Scan.skip? '\r' then Scan.char '\n' else Scan.char '\n'

/-- The character with a code of so many hexadecimal digits. -/
def codePoint (width : Nat) : Scan Char := do
  let n := digitsValue 16 (← Scan.times isHexDigit width)
  if n < 0xD800 || 0xE000 ≤ n && n < 0x110000 then return Char.ofNat n else failure

/-- What stands after a backslash. -/
def escape : Scan Char := do
  match ← Scan.any with
  | 'b' => return '\x08'
  | 't' => return '\t'
  | 'n' => return '\n'
  | 'f' => return '\x0c'
  | 'r' => return '\r'
  | '"' => return '"'
  | '\\' => return '\\'
  | 'u' => codePoint 4
  | 'U' => codePoint 8
  | _ => failure

/-! ### On one line -/

def basicPiece : Scan (Option Char) := do
  match ← Scan.next? with
  | some '"' => return none
  | some '\\' =>
    Scan.char '\\'
    return some (← escape)
  | _ => return some (← Scan.one isPrintable)

def basicText : Scan String := do
  Scan.char '"'
  let cs ← Scan.all basicPiece
  Scan.char '"'
  return String.ofList cs

def literalText : Scan String := do
  Scan.char '\''
  let cs ← Scan.many fun c => isPrintable c && c != '\''
  Scan.char '\''
  return String.ofList cs

/-! ### On several lines -/

/-- Whether a line ends here but for blanks. -/
def endsLine (cs : List Char) : Bool := match cs.dropWhile isBlank with
  | '\n' :: _ | '\r' :: '\n' :: _ => true
  | _ => false

/-- Blanks and ends of lines. -/
def lineGap : Scan Unit := do
  let _ ← Scan.all (α := Unit) do
    match ← Scan.next? with
    | some ' ' | some '\t' => discard Scan.any
    | some '\n' | some '\r' => newline
    | _ => return none
    return some ()

/-- A part of a text on several lines that `quote` encloses. Up to two quotes in a row belong to
the text; where `escapes` holds, a backslash starts an escape or hides the end of the line. -/
def longPiece (quote : Char) (escapes : Bool) : Scan (Option (List Char)) := do
  let cs ← get
  match cs with
  | [] => failure
  | c :: rest =>
    if c == quote then
      let run := cs.takeWhile (· == quote)
      if run.length < 3 then
        set (cs.drop run.length)
        return some run
      else return none
    else if escapes && c == '\\' then
      set rest
      if endsLine rest then
        lineGap
        return some []
      else return some [← escape]
    else if c == '\n' || c == '\r' then
      newline
      return some ['\n']
    else return some [← Scan.one isPrintable]

/-- A text between triple quotes. A line end right after the first three does not count, and up to
two quotes may stand before the last three. -/
def longText (quote : Char) (escapes : Bool) : Scan String := do
  Scan.word [quote, quote, quote]
  match ← Scan.next? with
  | some '\n' | some '\r' => newline
  | _ => pure ()
  let pieces ← Scan.all (longPiece quote escapes)
  let run ← Scan.many (· == quote)
  if 3 ≤ run.length && run.length ≤ 5 then
    return String.ofList (pieces.flatten ++ run.drop 3)
  else failure

/-- A text in any of the four forms. -/
def text : Scan String := do
  match ← get with
  | '"' :: '"' :: '"' :: _ => longText '"' true
  | '\'' :: '\'' :: '\'' :: _ => longText '\'' false
  | '\'' :: _ => literalText
  | _ => basicText

end OutcomeControl.Toml
