import OutcomeControl.Pattern.CharSet

/-! Patterns, and the texts that hold a match.

A pattern takes places of a text to places of the text: from where a match may start to where it may
stop. Places are marked in a list with one entry before each character and one after the last. -/

namespace OutcomeControl

/-- How a place lies to words. -/
inductive WordEdge where
  /-- Between a word and what is none. -/
  | either
  /-- Inside of a word, or outside of all. -/
  | neither
  | start
  | stop
  /-- After no word. -/
  | startHalf
  /-- Before no word. -/
  | stopHalf
deriving DecidableEq

/-- A condition on the characters before and after a place. -/
inductive Edge where
  | textStart
  | textEnd
  /-- Line ends are single line feeds, or may hold a carriage return. -/
  | lineStart (returns : Bool)
  | lineEnd (returns : Bool)
  /-- Words are made of ASCII characters, or of all letters and digits. -/
  | word (w : WordEdge) (ascii : Bool)
deriving DecidableEq

namespace WordEdge

/-- Whether an edge lies between characters that belong to words or do not. -/
def holds : WordEdge → Bool → Bool → Bool
  | .either, before, after => before != after
  | .neither, before, after => before == after
  | .start, before, after => !before && after
  | .stop, before, after => before && !after
  | .startHalf, before, _ => !before
  | .stopHalf, _, after => !after

def named? (name : String) : Option WordEdge := match name with
  | "start" => some .start
  | "end" => some .stop
  | "start-half" => some .startHalf
  | "end-half" => some .stopHalf
  | _ => none

end WordEdge

namespace Edge

/-- Whether an edge lies between two characters, of which there is none at the ends of a text.
Nothing is known of words outside of ASCII. -/
def holds : Edge → Option Char → Option Char → Bool
  | .textStart, before, _ => before.isNone
  | .textEnd, _, after => after.isNone
  | .lineStart returns, before, after => before.isNone || before == some '\n'
    || returns && before == some '\r' && after != some '\n'
  | .lineEnd returns, before, after => after.isNone || !returns && after == some '\n'
    || returns && (after == some '\r' || after == some '\n' && before != some '\r')
  | .word w true, before, after =>
    w.holds (before.any CharSet.word.has) (after.any CharSet.word.has)
  | .word _ false, _, _ => false

/-- Whether all is known that an edge asks for. -/
def isAvailable : Edge → Bool
  | .word _ ascii => ascii
  | _ => true

end Edge

inductive Pattern where
  /-- Matches the empty text. -/
  | nothing
  | one (set : CharSet)
  | edge (e : Edge)
  | both (p q : Pattern)
  | either (p q : Pattern)
  | times (p : Pattern) (least : Nat) (most : Option Nat)
  /-- A part of which the place is kept. -/
  | group (p : Pattern)
deriving DecidableEq

namespace Pattern

/-! ### Matching -/

/-- The places of a text that are marked. -/
abbrev Marks := List Bool

def Marks.union (a b : Marks) : Marks := List.zipWith (· || ·) a b

/-- Goes one character further. -/
def Marks.step (set : CharSet) (text : List Char) (ms : Marks) : Marks :=
  false :: List.zipWith (fun m c => m && set.has c) ms text

/-- Keeps the places that an edge allows. -/
def Marks.keep (e : Edge) (text : List Char) (ms : Marks) : Marks :=
  List.zipWith (· && ·) ms
    (List.zipWith e.holds (none :: text.map some) (text.map some ++ [none]))

/-- Repeats a step up to so many times, as long as it changes something. -/
def settle (f : Marks → Marks) : Nat → Marks → Marks
  | 0, ms => ms
  | n + 1, ms =>
    let next := f ms
    if next = ms then ms else settle f n next

/-- Where matches stop that start at marked places. Repeating a pattern more often than the text has
places reaches no new place. -/
def ends (text : List Char) : Pattern → Marks → Marks
  | .nothing, ms => ms
  | .one set, ms => ms.step set text
  | .edge e, ms => ms.keep e text
  | .both p q, ms => q.ends text (p.ends text ms)
  | .either p q, ms => (p.ends text ms).union (q.ends text ms)
  | .times p least most, ms =>
    settle (fun ms => ms.union (p.ends text ms))
      (match most with
        | some n => n - least
        | none => text.length + 1)
      (settle (p.ends text) least ms)
  | .group p, ms => p.ends text ms

/-- Whether a match starts anywhere in a text. -/
def occursIn (p : Pattern) (s : String) : Bool :=
  let text := s.toList
  (p.ends text (List.replicate (text.length + 1) true)).contains true

/-- Whether all is known that a pattern asks for. -/
def isAvailable : Pattern → Bool
  | .nothing | .one _ => true
  | .edge e => e.isAvailable
  | .both p q | .either p q => p.isAvailable && q.isAvailable
  | .times p _ _ | .group p => p.isAvailable

end Pattern

end OutcomeControl
