import OutcomeControl.Pattern.Basic

/-! Patterns as they are written. -/

namespace OutcomeControl.Pattern

/-- A part of a text, from a place up to another. -/
structure Stretch where
  start : Nat
  stop : Nat
deriving DecidableEq

/-- A character, which may be written as a byte with two digits. -/
structure Literal where
  char : Char
  asByte : Bool
  stretch : Stretch
deriving DecidableEq

/-- Sets that a letter stands for. -/
inductive Shorthand where
  | digit
  | blank
  | word
deriving DecidableEq

/-- What can stand alone and in brackets. -/
inductive Atom where
  | char (l : Literal)
  | shorthand (s : Shorthand) (negated : Bool) (stretch : Stretch)
  /-- The characters with a property, of which the text in braces or a letter is given. -/
  | property (name : String) (stretch : Stretch)
deriving DecidableEq

/-- A condition on a place, of which flags may change the meaning. -/
inductive EdgeSign where
  | lineStart
  | lineEnd
  | textStart
  | textEnd
  | word (w : WordEdge)
deriving DecidableEq

inductive SetOperation where
  | inter
  | diff
  | symmDiff
deriving DecidableEq

/-- The content of brackets. -/
inductive SetTree where
  | atom (a : Atom)
  | range (first last : Literal)
  | named (set : CharSet) (negated : Bool) (stretch : Stretch)
  | bracket (content : SetTree) (negated : Bool) (stretch : Stretch)
  | union (items : List SetTree) (stretch : Stretch)
  | operation (op : SetOperation) (left right : SetTree) (stretch : Stretch)

inductive Tree where
  | atom (a : Atom)
  | edge (e : EdgeSign) (stretch : Stretch)
  | dot (stretch : Stretch)
  /-- Letters that switch flags for the rest of the group around them. -/
  | flags (letters : List Char) (stretch : Stretch)
  | bracket (content : SetTree) (negated : Bool) (stretch : Stretch)
  | times (t : Tree) (least : Nat) (most : Option Nat) (stretch : Stretch)
  /-- A group, of which the place may be kept, with flags of its own. -/
  | group (t : Tree) (kept : Bool) (letters : List Char) (stretch : Stretch)
  | either (ts : List Tree) (stretch : Stretch)
  | sequence (ts : List Tree) (stretch : Stretch)

def Atom.stretch : Atom → Stretch
  | .char l => l.stretch
  | .shorthand _ _ s | .property _ s => s

namespace SetTree

def stretch : SetTree → Stretch
  | .atom a => a.stretch
  | .range first last => ⟨first.stretch.start, last.stretch.stop⟩
  | .named _ _ s | .bracket _ _ s | .union _ s | .operation _ _ _ s => s

/-- A single item is no union. Without items there is an empty one at a place. -/
def ofItems (place : Nat) (items : List SetTree) : SetTree := match items with
  | [] => .union [] ⟨place, place⟩
  | [item] => item
  | first :: rest =>
    .union (first :: rest) ⟨first.stretch.start, (rest.getLastD first).stretch.stop⟩

def operate (op : SetOperation) (left right : SetTree) : SetTree :=
  .operation op left right ⟨left.stretch.start, right.stretch.stop⟩

end SetTree

namespace Tree

def stretch : Tree → Stretch
  | .atom a => a.stretch
  | .edge _ s | .dot s | .flags _ s | .bracket _ _ s | .times _ _ _ s | .group _ _ _ s | .either _ s
  | .sequence _ s => s

/-- A single part is no sequence. -/
def ofSequence (ts : List Tree) (stretch : Stretch) : Tree := match ts with
  | [t] => t
  | _ => .sequence ts stretch

def ofAlternatives (ts : List Tree) (stretch : Stretch) : Tree := match ts with
  | [t] => t
  | _ => .either ts stretch

end Tree

/-! ### Depth -/

/-- How many parts of a pattern may lie in one another. -/
def depthLimit : Nat := 250

/-- Goes into a part, unless it lies too deep. -/
def enter (depth : Nat) (stretch : Stretch) (inside : Nat → Option Stretch) : Option Stretch :=
  if depthLimit ≤ depth then some stretch else inside (depth + 1)

mutual
/-- The first part that lies too deep. -/
def SetTree.tooDeep? (depth : Nat) : SetTree → Option Stretch
  | .atom _ | .range _ _ | .named _ _ _ | .union [] _ => none
  | .bracket content _ stretch => enter depth stretch fun d => SetTree.tooDeep? d content
  | .union items stretch => enter depth stretch fun d => SetTree.anyTooDeep? d items
  | .operation _ left right stretch =>
    enter depth stretch fun d => SetTree.tooDeep? d left <|> SetTree.tooDeep? d right
def SetTree.anyTooDeep? (depth : Nat) : List SetTree → Option Stretch
  | [] => none
  | t :: ts => SetTree.tooDeep? depth t <|> SetTree.anyTooDeep? depth ts
end

mutual
/-- The first part that lies too deep. -/
def Tree.tooDeep? (depth : Nat) : Tree → Option Stretch
  | .atom _ | .edge _ _ | .dot _ | .flags _ _ | .sequence [] _ => none
  | .bracket content _ stretch => enter depth stretch fun d => SetTree.tooDeep? d content
  | .times t _ _ stretch | .group t _ _ stretch => enter depth stretch fun d => Tree.tooDeep? d t
  | .either ts stretch | .sequence ts stretch =>
    enter depth stretch fun d => Tree.anyTooDeep? d ts
def Tree.anyTooDeep? (depth : Nat) : List Tree → Option Stretch
  | [] => none
  | t :: ts => Tree.tooDeep? depth t <|> Tree.anyTooDeep? depth ts
end

end OutcomeControl.Pattern
