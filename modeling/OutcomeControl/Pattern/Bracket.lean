import OutcomeControl.Pattern.Escape

/-! Sets of characters in brackets. -/

namespace OutcomeControl.Pattern

open Reading

/-- A bracket that has been opened. -/
structure Bracket where
  /-- Where it starts, with the signs that may only stand there. -/
  stretch : Stretch
  negated : Bool

namespace Bracket

def unclosed {α : Type} (b : Bracket) : Reading α :=
  throw { reason := .classUnclosed, stretch := b.stretch }

end Bracket

/-! ### Items -/

/-- The set `[:name:]`, or with `^` before the name all else, that a text starts with, and its
length. -/
def namedSet? (text : List Char) : Option (CharSet × Bool × Nat) := do
  let '[' :: ':' :: rest := text | none
  let negated := rest.head? == some '^'
  let rest := if negated then rest.tail else rest
  let name := rest.takeWhile (· != ':')
  let ':' :: ']' :: _ := rest.drop name.length | none
  return (← CharSet.named? (String.ofList name), negated, name.length + if negated then 5 else 4)

/-- A character that stands for itself. -/
def plainChar (c : Char) : Reading Atom := do
  let start ← place
  advance
  return .char ⟨c, false, ← since start⟩

/-- One character or set. -/
def bracketItem : Reading Escape := do
  match ← peek with
  | some '\\' => escape
  | some c => return .atom (← plainChar c)
  | none => failBetween .classUnclosed

/-- An item that stands for itself. -/
def itemAlone : Escape → Reading SetTree
  | .atom a => return .atom a
  | .edge _ stretch => throw { reason := .classEscape, stretch }

/-- The characters from one to another. -/
def rangeOf (first last : Escape) : Reading SetTree := match first, last with
  | .atom (.char a), .atom (.char z) =>
    if a.char ≤ z.char then return .range a z
    else fail .classRangeOrder a.stretch.start z.stretch.stop
  | .atom (.char _), e | e, _ => throw { reason := .classRangeEnd, stretch := e.stretch }

/-- An item, or a range of characters. A dash before the closing bracket or another dash makes no
range. -/
def itemOrRange (b : Bracket) : Reading SetTree := do
  let first ← bracketItem
  skipSpace
  if ← atEnd then b.unclosed
  let second ← peekPastSpace
  if (← peek) != some '-' || second == some ']' || second == some '-' then itemAlone first
  else
    if !(← advanceSpaced) then b.unclosed
    rangeOf first (← bracketItem)

/-! ### Brackets -/

/-- The dashes that come first in a bracket. -/
def leadingDashes (start : Nat) : Nat → Reading (List SetTree)
  | 0 => return []
  | n + 1 => do
    if (← peek) != some '-' then return []
    let dash ← plainChar '-'
    skipSpace
    if ← atEnd then fail .classUnclosed start start
    return .atom dash :: (← leadingDashes start n)

/-- Items since a place that no operation has taken yet. -/
structure Items where
  place : Nat
  items : List SetTree := []

def Items.add (is : Items) (item : SetTree) : Items := { is with items := is.items ++ [item] }

def Items.tree (is : Items) : SetTree := SetTree.ofItems is.place is.items

/-- Opens a bracket, and takes the signs that stand for themselves at its start only. -/
def openBracket : Reading (Bracket × Items) := do
  let start ← place
  if !(← advanceSpaced) then fail .classUnclosed start (← place)
  let negated := (← peek) == some '^'
  if negated then
    if !(← advanceSpaced) then fail .classUnclosed start (← place)
  let inside ← place
  let dashes ← leadingDashes start (← bound)
  if dashes.isEmpty && (← peek) == some ']' then
    let closing ← plainChar ']'
    skipSpace
    if ← atEnd then fail .classUnclosed start (← place)
    return (⟨← since start, negated⟩, ⟨inside, [.atom closing]⟩)
  else return (⟨← since start, negated⟩, ⟨inside, dashes⟩)

/-- The operation that a doubled sign stands for. -/
def setOperation? (c : Char) : Option SetOperation := match c with
  | '&' => some .inter
  | '-' => some .diff
  | '~' => some .symmDiff
  | _ => none

/-- The rest of a bracket: `earlier` is what the operations so far make of the items since the last
of them. -/
def bracketRest (b : Bracket) : Nat → (SetTree → SetTree) → Items → Reading SetTree
  | 0, earlier, items => return earlier items.tree
  | n + 1, earlier, items => do
    skipSpace
    match ← peek with
    | none => b.unclosed
    | some ']' =>
      advance
      return earlier items.tree
    | some '[' => match namedSet? (← get).rest with
      | some (set, negated, length) =>
        let start ← place
        advanceBy length
        bracketRest b n earlier (items.add (.named set negated (← since start)))
      | none =>
        let (inner, first) ← openBracket
        let content ← bracketRest inner n id first
        bracketRest b n earlier
          (items.add (.bracket content inner.negated (← since inner.stretch.start)))
    | some c => match setOperation? c, (← peekSecond) == some c with
      | some op, true =>
        advanceBy 2
        bracketRest b n (SetTree.operate op (earlier items.tree)) { place := ← place }
      | _, _ => bracketRest b n earlier (items.add (← itemOrRange b))

def bracket : Reading Tree := do
  let (b, first) ← openBracket
  let content ← bracketRest b (← bound) id first
  return .bracket content b.negated (← since b.stretch.start)

end OutcomeControl.Pattern
