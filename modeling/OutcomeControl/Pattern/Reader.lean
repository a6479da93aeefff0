import OutcomeControl.Pattern.Bracket
import OutcomeControl.Pattern.Flags
import OutcomeControl.Text.Letter
import OutcomeControl.Text.Numeral

/-! Groups, repetitions and whole patterns. -/

namespace OutcomeControl.Pattern

open Reading

/-! ### Flags -/

/-- The letters up to a colon or a closing parenthesis, after those that have been read. -/
def flagItems : Nat → List (Char × Stretch) → Reading (List (Char × Stretch))
  | 0, items => return items
  | n + 1, items => do
    let stretch : Stretch := ⟨← place, (← place) + 1⟩
    match ← peek with
    | none => return items
    | some ':' | some ')' => match items.getLast? with
      | some ('-', stretch) => throw { reason := .flagDangling, stretch }
      | _ => return items
    | some c =>
      if c != '-' && !Flags.letters.contains c then failHere .flagUnknown
      if let some earlier := items.lookup c then
        throw {
          reason := if c == '-' then .flagNegatedTwice else .flagRepeated
          stretch
          earlier := some earlier }
      advance
      if ← atEnd then failBetween .flagMissing
      flagItems n (items ++ [(c, stretch)])

/-! ### Groups -/

/-- Letters, and after the first character numerals and some signs. -/
def isNameChar (first : Bool) (c : Char) : Bool :=
  c == '_' || Text.isLetter c
    || !first && (Text.isNumeral c || c == '.' || c == '[' || c == ']')

/-- The characters of a group's name up to its closing bracket. -/
def nameChars (start : Nat) : Nat → Reading (List Char)
  | 0 => return []
  | n + 1 => do
    match ← peek with
    | none | some '>' => return []
    | some c =>
      if !isNameChar ((← place) == start) c then failHere .groupNameCharacter
      advance
      return c :: (← nameChars start n)

/-- Passes the name of a group, which must be new. -/
def groupName : Reading Unit := do
  let start ← place
  let name := String.ofList (← nameChars start (← bound))
  let stretch : Stretch := ⟨start, ← place⟩
  if ← atEnd then failBetween .groupNameUnclosed
  advance
  if name.isEmpty then fail .groupNameEmpty start start
  if let some earlier := (← get).names.lookup name then
    throw { reason := .groupNameRepeated, stretch, earlier := some earlier }
  modify fun c => { c with names := c.names ++ [(name, stretch)] }

/-- How a group starts, or what stands in the place of one. -/
inductive GroupStart where
  | group (kept : Bool) (letters : List Char)
  | flags (letters : List Char)

/-- What follows the question mark of a group or of flags that hold for the rest of the group around
them. -/
def flagsOrGroup (opening : Stretch) (mark : Nat) : Reading GroupStart := do
  if ← atEnd then throw { reason := .groupUnclosed, stretch := opening }
  let items ← flagItems (← bound) []
  let letters := items.map Prod.fst
  let isGroup := (← peek) == some ':'
  advance
  if !isGroup && items.isEmpty then fail .repetitionMissing mark mark
  modify fun c => { c with spaced := Flags.isOn 'x' c.spaced letters }
  return if isGroup then .group false letters else .flags letters

/-- Passes the start of a group. -/
def groupStart : Reading GroupStart := do
  let start ← place
  advance
  skipSpace
  let mark ← place
  if ← ["?=", "?!", "?<=", "?<!"].anyM skipText then fail .lookAround start (← place)
  if ← ["?P<", "?<"].anyM skipText then
    groupName
    return .group true []
  else if ← skipText "?" then flagsOrGroup ⟨start, start + 1⟩ mark
  else return .group true []

/-! ### Repetitions -/

def largestCount : Nat := 0xffffffff

/-- A count, or what is wrong with it. -/
def count : Reading (Except Mistake Nat) := do
  advanceBy ((← get).rest.takeWhile Text.isBlank).length
  let start ← place
  let ds ← spacedRun isDigit (← bound)
  let stop ← place
  discard (spacedRun Text.isBlank (← bound))
  let n := ds.foldl (fun n c => n * 10 + (c.toNat - '0'.toNat)) 0
  if ds.isEmpty then return .error { reason := .countEmpty, stretch := ⟨start, stop⟩ }
  else if largestCount < n then return .error { reason := .decimalRange, stretch := ⟨start, stop⟩ }
  else return .ok n

/-- A question mark after a repetition asks for the shortest match. -/
def skipLazy : Reading Unit := do
  if (← peek) == some '?' then advance

/-- A repetition between braces: how often at least, and at most. -/
def counts : Reading (Nat × Option Nat) := do
  let start ← place
  if !(← advanceSpaced) then fail .countUnclosed start (← place)
  let least ← count
  if ← atEnd then fail .countUnclosed start (← place)
  let range ← if (← peek) != some ',' then do
      let n ← liftM least
      pure (n, some n)
    else do
      if !(← advanceSpaced) then fail .countUnclosed start (← place)
      let n ← liftM least
      if (← peek) == some '\x7d' then pure (n, none) else pure (n, some (← liftM (← count)))
  if (← peek) != some '\x7d' then fail .countUnclosed start (← place)
  discard advanceSpaced
  skipLazy
  if range.2.any (· < range.1) then fail .countOrder start (← place)
  return range

/-- The repetition that a sign stands for. -/
def repetition (c : Char) : Reading (Nat × Option Nat) := do
  if c == '\x7b' then counts
  else
    advance
    skipLazy
    return match c with
      | '?' => (0, some 1)
      | '*' => (0, none)
      | _ => (1, none)

/-! ### Patterns -/

/-- A part of a pattern that is no group and no repetition. -/
def part (c : Char) : Reading Tree := do
  let start ← place
  match c with
  | '[' => bracket
  | '\\' => match ← escape with
    | .atom a => return .atom a
    | .edge e stretch => return .edge e stretch
  | '.' =>
    advance
    return .dot (← since start)
  | '^' =>
    advance
    return .edge .lineStart (← since start)
  | '$' =>
    advance
    return .edge .lineEnd (← since start)
  | c => return .atom (← plainChar c)

def isRepetition (c : Char) : Bool := c == '?' || c == '*' || c == '+' || c == '\x7b'

/-- What has been read of a group: where it starts, and its alternatives, of which the last one
starts at a place of its own and has its parts last first. -/
structure Alternatives where
  first : Nat
  earlier : List Tree := []
  start : Nat
  parts : List Tree := []

namespace Alternatives

def startingAt (place : Nat) : Alternatives := { first := place, start := place }

def add (as : Alternatives) (t : Tree) : Alternatives := { as with parts := t :: as.parts }

/-- The last alternative, which ends at a place. -/
def last (as : Alternatives) (stop : Nat) : Tree :=
  Tree.ofSequence as.parts.reverse ⟨as.start, stop⟩

/-- Goes over to the next alternative after a bar at a place. -/
def next (as : Alternatives) (bar : Nat) : Alternatives :=
  { as with earlier := as.earlier ++ [as.last bar], start := bar + 1, parts := [] }

def tree (as : Alternatives) (stop : Nat) : Tree :=
  Tree.ofAlternatives (as.earlier ++ [as.last stop]) ⟨as.first, stop⟩

end Alternatives

/-- Repeats the last part, which is not made of flags only. -/
def repeatLast (c : Char) (as : Alternatives) : Reading Alternatives := do
  match as.parts with
  | [] | .flags _ _ :: _ => failBetween .repetitionMissing
  | t :: before =>
    let (least, most) ← repetition c
    return { as with parts := .times t least most (← since t.stretch.start) :: before }

/-- The alternatives of a group, which starts at `opening`, or of the whole pattern. -/
def alternatives (opening : Option Nat) : Nat → Alternatives → Reading Tree
  | 0, as => return as.tree as.start
  | n + 1, as => do
    skipSpace
    let here ← place
    match ← peek with
    | none => match opening with
      | some start => fail .groupUnclosed start (start + 1)
      | none => return as.tree here
    | some ')' =>
      if opening.isNone then failHere .groupUnopened
      advance
      return as.tree here
    | some '|' =>
      advance
      alternatives opening n (as.next here)
    | some '(' =>
      let outer := (← get).spaced
      match ← groupStart with
      | .flags letters => alternatives opening n (as.add (.flags letters (← since here)))
      | .group kept letters =>
        let t ← alternatives (some here) n (.startingAt (← place))
        modify ({ · with spaced := outer })
        alternatives opening n (as.add (.group t kept letters (← since here)))
    | some c =>
      if isRepetition c then alternatives opening n (← repeatLast c as)
      else alternatives opening n (as.add (← part c))

/-- The tree that a text spells. -/
def Tree.ofText (s : String) : Except Mistake Tree := do
  let text := s.toList
  (alternatives none (text.length + 1) (.startingAt 0)).run' { rest := text }

end OutcomeControl.Pattern
