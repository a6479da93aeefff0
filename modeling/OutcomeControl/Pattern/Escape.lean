import OutcomeControl.Pattern.Cursor

/-! What a backslash starts. -/

namespace OutcomeControl.Pattern

open Reading

inductive Escape where
  | atom (a : Atom)
  | edge (e : EdgeSign) (stretch : Stretch)

def Escape.stretch : Escape → Stretch
  | .atom a => a.stretch
  | .edge _ s => s

/-! ### Characters by their numbers -/

def isDigit (c : Char) : Bool := '0' ≤ c && c ≤ '9'

def isLetter (c : Char) : Bool := 'a' ≤ c && c ≤ 'z' || 'A' ≤ c && c ≤ 'Z'

def isHexDigit (c : Char) : Bool := isDigit c || 'a' ≤ c && c ≤ 'f' || 'A' ≤ c && c ≤ 'F'

def hexValue (ds : List Char) : Nat :=
  ds.foldl (fun n c => n * 16 +
    (if c ≤ '9' then c.toNat - '0'.toNat else (c.toNat - 'A'.toNat) % 32 + 10)) 0

/-- The character with a number, if it has one. -/
def charOfHex (ds : List Char) (start stop : Nat) : Reading Char := do
  let n := hexValue ds
  if n < 0xd800 || 0xe000 ≤ n && n < 0x110000 then return Char.ofNat n
  else fail .hexRange start stop

def hexDigit : Reading Char := do
  match ← peek with
  | none => failBetween .escapeUnfinished
  | some c => if isHexDigit c then return c else failHere .hexDigit

/-- So many digits, of which the next character is the first. -/
def hexDigits : Nat → Reading (List Char)
  | 0 => return []
  | n + 1 => do
    let c ← hexDigit
    discard advanceSpaced
    return c :: (← hexDigits n)

/-- Digits up to a closing brace, after the character that is next. -/
def bracedDigits : Nat → Reading (List Char)
  | 0 => return []
  | n + 1 => do
    let more ← advanceSpaced
    if !more || (← peek) == some '\x7d' then return []
    let c ← hexDigit
    return c :: (← bracedDigits n)

/-- A character by digits in braces, which start at the next character. -/
def charInBraces : Reading Char := do
  let start ← place
  let ds ← bracedDigits (← bound)
  if ← atEnd then fail .escapeUnfinished start (← place)
  let stop ← place
  discard advanceSpaced
  if ds.isEmpty then fail .hexEmpty start (← place)
  charOfHex ds (start + 1) stop

/-- A character by so many digits, or by any number of them in braces. Two digits make a byte. -/
def charByNumber (start width : Nat) : Reading Literal := do
  if !(← advanceSpaced) then failBetween .escapeUnfinished
  if (← peek) == some '\x7b' then
    let char ← charInBraces
    return { char, asByte := false, stretch := ← since start }
  else
    let digits ← place
    let char ← charOfHex (← hexDigits width) digits (← place)
    return { char, asByte := width = 2, stretch := ← since start }

/-! ### Classes by their properties -/

/-- The name of a property, after the letter that is next. -/
def propertyName : Reading String := do
  if !(← advanceSpaced) then failBetween .escapeUnfinished
  match ← peek with
  | some '\x7b' =>
    let name ← spacedRun (· != '\x7d') (← bound)
    if ← atEnd then failBetween .escapeUnfinished
    advance
    return String.ofList name.tail
  | some '\\' => failHere .propertyName
  | c =>
    discard advanceSpaced
    return String.ofList c.toList

/-! ### Edges of words -/

def isEdgeLetter (c : Char) : Bool := isLetter c || c == '-'

/-- The edge that is named in braces after the sign of a word's edge, which starts at a place. The
braces may also hold a count. -/
def namedEdge? (start : Nat) : Reading (Option WordEdge) := do
  let before ← get
  if !(← advanceSpaced) then fail .edgeUnfinished start (← place)
  let inside ← place
  if !(← peek).any isEdgeLetter then
    set before
    return none
  let name ← spacedRun isEdgeLetter (← bound)
  if (← peek) != some '\x7d' then fail .edgeUnclosed before.place (← place)
  let stop ← place
  advance
  match WordEdge.named? (String.ofList name) with
  | some w => return some w
  | none => fail .edgeUnknown inside stop

def wordEdge (start : Nat) : Reading WordEdge := do
  if (← peek) == some '\x7b' then return (← namedEdge? start).getD .either
  else return .either

/-! ### Escapes -/

/-- Signs stand for themselves, letters and digits do not. -/
def isSign (c : Char) : Bool :=
  c.toNat < 128 && !isLetter c && !isDigit c && c != '<' && c != '>'

/-- The control character that a letter stands for. -/
def control? (letter : Char) : Option Char := match letter with
  | 'a' => some '\x07'
  | 'f' => some '\x0c'
  | 't' => some '\t'
  | 'n' => some '\n'
  | 'r' => some '\r'
  | 'v' => some '\x0b'
  | _ => none

/-- The set that a letter stands for, and whether it is negated, as a capital letter has it. -/
def shorthand? (letter : Char) : Option (Shorthand × Bool) := match letter with
  | 'd' => some (.digit, false)
  | 'D' => some (.digit, true)
  | 's' => some (.blank, false)
  | 'S' => some (.blank, true)
  | 'w' => some (.word, false)
  | 'W' => some (.word, true)
  | _ => none

/-- The edge that a character stands for, which has been passed. -/
def edgeOf (start : Nat) (c : Char) : Reading EdgeSign := do
  match c with
  | 'A' => return .textStart
  | 'z' => return .textEnd
  | 'b' => return .word (← wordEdge start)
  | 'B' => return .word .neither
  | '<' => return .word .start
  | '>' => return .word .stop
  | _ => fail .escapeUnknown start (← place)

/-- A single character after the backslash. -/
def shortEscape (start : Nat) (c : Char) : Reading Escape := do
  advance
  let stretch ← since start
  if isSign c then return .atom (.char ⟨c, false, stretch⟩)
  match shorthand? c, control? c with
  | some (s, negated), _ => return .atom (.shorthand s negated stretch)
  | none, some char => return .atom (.char ⟨char, false, stretch⟩)
  | none, none =>
    let e ← edgeOf start c
    return .edge e (← since start)

def escape : Reading Escape := do
  let start ← place
  advance
  match ← peek with
  | none => fail .escapeUnfinished start (← place)
  | some 'x' => return .atom (.char (← charByNumber start 2))
  | some 'u' => return .atom (.char (← charByNumber start 4))
  | some 'U' => return .atom (.char (← charByNumber start 8))
  | some 'p' | some 'P' =>
    let name ← propertyName
    return .atom (.property name (← since start))
  | some c =>
    if isDigit c then fail .backReference start ((← place) + 1)
    else shortEscape start c

end OutcomeControl.Pattern
