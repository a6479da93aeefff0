import OutcomeControl.Toml.Quoted
import OutcomeControl.Toml.Table

/-! Reading TOML documents. -/

namespace OutcomeControl.Toml

def blanks : Scan Unit := discard (Scan.many isBlank)

def comment : Scan Unit := do
  Scan.char '#'
  discard (Scan.many isPrintable)

/-! ### Keys -/

def isBareChar (c : Char) : Bool := isLetter c || isDigit c || c == '-' || c == '_'

def bareName : Scan String := do
  let first ← Scan.one isBareChar
  return String.ofList (first :: (← Scan.many isBareChar))

/-- One part of a key, with blanks around it. -/
def keyPart : Scan String := do
  blanks
  let name ← match ← Scan.next? with
    | some '"' => basicText
    | some '\'' => literalText
    | _ => bareName
  blanks
  return name

/-- How many parts a key may have, and one more than arrays and tables may be open at once. -/
def nestingLimit : Nat := 80

def key : Scan Key := do
  let (first, rest) ← Scan.separated '.' keyPart
  let names := first :: rest
  if names.length < nestingLimit then return ⟨names.dropLast, names.getLastD first⟩ else failure

/-! ### Values -/

/-- Blanks, comments and line ends between the items of an array. -/
def gap : Scan Unit := do
  let _ ← Scan.all (α := Unit) do
    match ← Scan.next? with
    | some ' ' | some '\t' => discard Scan.any
    | some '\n' | some '\r' => newline
    | some '#' => do
      comment
      newline
    | _ => return none
    return some ()

/-- Items with commas between them, and perhaps one after the last. -/
def array (item : Scan Value) : Scan Value := do
  Scan.char '['
  gap
  let items ← Scan.all do
    if (← Scan.next?) == some ']' then return none
    let v ← item
    gap
    let more ← Scan.skip? ','
    gap
    if more || (← Scan.next?) == some ']' then return some v else failure
  Scan.char ']'
  return .array items

/-- A key and its value, with blanks before the key and around the `=`. -/
def pair (item : Scan Value) : Scan (Key × Value) := do
  let k ← key
  Scan.char '='
  blanks
  return (k, ← item)

def inlineTable (item : Scan Value) : Scan Value := do
  Scan.char '\x7b'
  blanks
  if ← Scan.skip? '\x7d' then return .table .inline []
  let (first, rest) ← Scan.separated ',' do
    let p ← pair item
    blanks
    return p
  Scan.char '\x7d'
  match Value.ofPairs? (first :: rest) with
  | some v => return v
  | none => failure

/-- A value in which at most so many arrays and tables are open at once. -/
def value (depth : Nat) : Scan Value := do
  match ← Scan.next? with
  | some '"' | some '\'' => return .text (← text)
  | some '[' => match depth with
    | 0 => failure
    | depth + 1 => array (value depth)
  | some '\x7b' => match depth with
    | 0 => failure
    | depth + 1 => inlineTable (value depth)
  | _ => do
    let literal ← scalar
    return if isMoment literal.toList then .moment literal else .scalar literal

/-! ### Documents -/

/-- The rest of a line that has been read: blanks and perhaps a comment. -/
def lineEnd : Scan Unit := do
  blanks
  if (← Scan.next?) == some '#' then comment
  if (← Scan.next?).isSome then newline

def header : Scan Line := do
  Scan.char '['
  let repeats ← Scan.skip? '['
  let k ← key
  Scan.char ']'
  if repeats then
    Scan.char ']'
    return .tables k
  else return .table k

/-- A line, which may say nothing. -/
def line : Scan (Option (List Line)) := do
  blanks
  match ← Scan.next? with
  | none => return none
  | some '#' | some '\n' | some '\r' =>
    lineEnd
    return some []
  | some '[' =>
    let h ← header
    lineEnd
    return some [h]
  | _ =>
    let (k, v) ← pair (value (nestingLimit - 1))
    lineEnd
    return some [.entry k v]

/-- A mark of the byte order may come first. -/
def lines : Scan (List Line) := do
  discard (Scan.skip? '\ufeff')
  return (← Scan.all line).flatten

/-- The table that a document spells. -/
def read? (s : String) : Option Entries := do
  let ls ← lines.run? s.toList
  let d ← ls.foldlM Document.add? {}
  return d.entries

end OutcomeControl.Toml
