import OutcomeControl.Pattern.Fault
import OutcomeControl.Text.Blank

/-! Reading a pattern character by character. -/

namespace OutcomeControl.Pattern

structure Cursor where
  rest : List Char
  /-- The place of the next character. -/
  place : Nat := 0
  /-- Blanks and comments do not count. -/
  spaced : Bool := false
  /-- The names of groups so far. -/
  names : List (String × Stretch) := []

abbrev Reading := StateT Cursor (Except Mistake)

namespace Reading

def peek : Reading (Option Char) := return (← get).rest.head?

/-- The character after the next one. -/
def peekSecond : Reading (Option Char) := return (← get).rest.tail.head?

def place : Reading Nat := return (← get).place

/-- The part of the text from a place up to here. -/
def since (start : Nat) : Reading Stretch := return ⟨start, ← place⟩

def atEnd : Reading Bool := return (← get).rest.isEmpty

def advanceBy (n : Nat) : Reading Unit :=
  modify fun c => { c with rest := c.rest.drop n, place := c.place + n }

def advance : Reading Unit := advanceBy 1

def fail {α : Type} (reason : Reason) (start stop : Nat) : Reading α :=
  throw { reason, stretch := ⟨start, stop⟩ }

/-- A fault at the next character. -/
def failHere {α : Type} (reason : Reason) : Reading α := do
  fail reason (← place) ((← place) + 1)

/-- A fault between two characters. -/
def failBetween {α : Type} (reason : Reason) : Reading α := do
  fail reason (← place) (← place)

/-- How many characters are blanks and comments, which start with `#` and end with the line. -/
def spaceLength (inComment : Bool) : List Char → Nat
  | [] => 0
  | c :: cs =>
    if inComment then spaceLength (c != '\n') cs + 1
    else if c == '#' then spaceLength true cs + 1
    else if Text.isBlank c then spaceLength false cs + 1
    else 0

/-- Passes blanks and comments where they do not count. -/
def skipSpace : Reading Unit := do
  if (← get).spaced then advanceBy (spaceLength false (← get).rest)

/-- Passes a character and the space after it. Is there more? -/
def advanceSpaced : Reading Bool := do
  advance
  skipSpace
  return !(← atEnd)

/-- The character after the next one and the space between them. -/
def peekPastSpace : Reading (Option Char) := do
  let rest := (← get).rest.tail
  if (← get).spaced then return (rest.drop (spaceLength false rest)).head?
  else return rest.head?

/-- Passes a text if it comes next. -/
def skipText (s : String) : Reading Bool := do
  if s.toList.isPrefixOf (← get).rest then
    advanceBy s.length
    return true
  else return false

/-- The characters up to one that is not of a kind, with the space after each passed. -/
def spacedRun (isOf : Char → Bool) : Nat → Reading (List Char)
  | 0 => return []
  | n + 1 => do
    match ← peek with
    | some c =>
      if isOf c then
        discard advanceSpaced
        return c :: (← spacedRun isOf n)
      else return []
    | none => return []

/-- Enough steps to read the rest. -/
def bound : Reading Nat := return (← get).rest.length + 1

end Reading

end OutcomeControl.Pattern
