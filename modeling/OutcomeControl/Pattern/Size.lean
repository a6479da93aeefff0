import OutcomeControl.Pattern.Build
import OutcomeControl.Pattern.Bytes

/-! The room that matching a pattern takes.

A pattern becomes an automaton that reads bytes, and another one that reads them backward. Each
state takes some room, and more for each way out of it. -/

namespace OutcomeControl.Pattern

/-! ### States -/

/-- Runs that rows start with, of which equal ones stand together. -/
def headsOf (rows : List (List ByteRun)) : List ByteRun := (rows.filterMap List.head?).eraseDups

/-- What follows a run. -/
def tailsAfter (head : ByteRun) (rows : List (List ByteRun)) : List (List ByteRun) :=
  rows.filterMap fun
    | h :: tail => if h = head then some tail else none
    | [] => none

/-- What may still come, before each byte of up to `n`. -/
def endings : Nat → List (List ByteRun) → List (List (List ByteRun))
  | 0, _ => []
  | n + 1, rows => match headsOf rows with
    | [] => []
    | heads => rows :: heads.flatMap fun h => endings n (tailsAfter h rows)

/-- What may have come, after each byte. -/
def beginnings (rows : List (List ByteRun)) : List (List ByteRun) :=
  (rows.flatMap fun row => (List.range row.length).map fun n => row.take (n + 1)).eraseDups

def stateSize : Nat := 32

/-- A state that leads on without a byte, in so many ways. -/
def forkSize (ways : Nat) : Nat := stateSize + 4 * ways

/-- A state that leads on by one of so many runs of bytes. -/
def choiceSize (runs : Nat) : Nat := stateSize + 8 * runs

def sum (ns : List Nat) : Nat := ns.foldl (· + ·) 0

/-- Equal endings share a state forward, and equal beginnings backward. -/
def rowsSize (backward : Bool) (rows : List (List ByteRun)) : Nat :=
  if backward then
    stateSize + forkSize rows.length + stateSize * (beginnings rows).length
  else
    stateSize + sum ((endings 4 rows).eraseDups.map fun e => choiceSize (headsOf e).length)

/-- A set with a single member takes a state for each byte, and one without members a state that
leads nowhere, beside the one that it should lead to. -/
def setSize (backward : Bool) (s : CharSet) : Nat := match rowsOf s with
  | [] => 2 * stateSize
  | row :: rows =>
    if s.isSingle then stateSize * row.length else rowsSize (backward && !s.isAscii) (row :: rows)

/-! ### Words -/

/-- The bytes of a row of characters. -/
def word? (p : Pattern) : Option (List Nat) :=
  let items := p.items
  if items.isEmpty || !items.all isChar then none
  else some (items.flatMap fun
    | .one s => (rowsOf s).flatten.map Prod.fst
    | _ => [])

/-- The words between those that are empty, of which several at the start count as one. -/
def partsOf (words : List (List Nat)) : List (List (List Nat)) := match words with
  | [] :: rest => [] :: (rest.dropWhile List.isEmpty).splitOnP List.isEmpty
  | words => words.splitOnP List.isEmpty

/-- The bytes that words start with. -/
def firstBytes (words : List (List Nat)) : List Nat := (words.filterMap List.head?).eraseDups

/-- What follows a byte. -/
def restsAfter (b : Nat) (words : List (List Nat)) : List (List Nat) := words.filterMap fun
  | c :: rest => if c = b then some rest else none
  | [] => none

/-- A state from which words of up to `n` bytes lead on. Words share their states as long as they
agree, but not with words on the other side of one that ends here. -/
def branchingSize : Nat → List (List Nat) → Nat
  | 0, _ => 0
  | n + 1, words =>
    let parts := partsOf words
    let onward := parts.map fun part =>
      let bytes := firstBytes part
      (if bytes.isEmpty then 0 else if bytes.length = 1 then stateSize else choiceSize bytes.length)
        + sum (bytes.map fun b =>
          let rests := restsAfter b part
          if rests.all List.isEmpty then 0 else branchingSize n rests)
    let ways := (parts.filter (!·.isEmpty)).length + (parts.length - 1)
    (if ways = 1 then 0 else forkSize ways) + sum onward

/-- A choice of words. -/
def wordsSize (backward : Bool) (words : List (List Nat)) : Nat :=
  let words := if backward then words.map List.reverse else words
  stateSize + branchingSize (words.foldl (fun n w => max n w.length) 0 + 1) words

/-! ### Patterns -/

/-- How many characters a match takes at least. Nothing can be told if a set without members
occurs. -/
def leastLength : Pattern → Option Nat
  | .nothing | .edge _ => some 0
  | .one s => if s = CharSet.empty then none else some 1
  | .both p q => return (← p.leastLength) + (← q.leastLength)
  | .either p q => return min (← p.leastLength) (← q.leastLength)
  | .times p least _ => return (← p.leastLength) * least
  | .group p => p.leastLength

/-- A repetition of something that takes `n` bytes: what has to be there is copied, and so is each
further part that may be left out. -/
def timesSize (takesSome : Bool) (n least : Nat) : Option Nat → Nat
  | none =>
    if least = 0 then if takesSome then forkSize 2 + n else 2 * forkSize 2 + stateSize + n
    else least * n + forkSize 2
  | some most =>
    if least = most then least * n
    else if least = 0 && most = 1 then forkSize 2 + stateSize + n
    else
      let needed := if least = 0 then stateSize else least * n
      needed + stateSize + (most - least) * (forkSize 2 + n)

/-- The room of a pattern, alone and as one of several alternatives. -/
structure Room where
  alone : Nat
  asBranch : Nat

/-- An alternative takes one way of the state where they part. -/
def Room.of (n : Nat) : Room := ⟨n, n + 4⟩

/-- Alternatives of alternatives lie side by side with the others. The ends of a group are only kept
forward. -/
def room (backward : Bool) : Pattern → Room
  | .nothing | .edge _ => .of stateSize
  | .one s => .of (setSize backward s)
  | .both p q => .of ((p.room backward).alone + (q.room backward).alone)
  | .either p q =>
    let n := (p.room backward).asBranch + (q.room backward).asBranch
    match (p.branches ++ q.branches).mapM word? with
    | some words => ⟨wordsSize backward words, n⟩
    | none => ⟨2 * stateSize + n, n⟩
  | .times p least most =>
    .of (timesSize (p.leastLength.any (0 < ·)) (p.room backward).alone least most)
  | .group p => .of ((if backward then 0 else 2 * stateSize) + (p.room backward).alone)

/-- Whether every match starts at the start of the text. -/
def isAtStart : Pattern → Bool
  | .edge e => e = .textStart
  | .both p q => p.isAtStart || p.isHollow && q.isAtStart
  | .either p q => p.isAtStart && q.isAtStart
  | .times p least _ => least ≠ 0 && p.isAtStart
  | .group p => p.isAtStart
  | .nothing | .one _ => false

/-- Whether every match stops at the end of the text. -/
def isAtEnd : Pattern → Bool
  | .edge e => e = .textEnd
  | .both p q => q.isAtEnd || q.isHollow && p.isAtEnd
  | .either p q => p.isAtEnd && q.isAtEnd
  | .times p least _ => least ≠ 0 && p.isAtEnd
  | .group p => p.isAtEnd
  | .nothing | .one _ => false

/-- Passing any bytes until a match begins, unless there is only one place where it can. -/
def approachSize (anchored : Bool) : Nat :=
  if anchored then stateSize else forkSize 2 + stateSize + choiceSize 1

/-- The whole match is a group too, and its end is a state. -/
def size (backward : Bool) (p : Pattern) : Nat :=
  approachSize (if backward then p.isAtEnd else p.isAtStart)
    + ((Pattern.group p).room backward).alone + stateSize

def sizeLimit : Nat := 10485760

def isTooLarge (backward : Bool) (p : Pattern) : Bool := sizeLimit < p.size backward

end OutcomeControl.Pattern
