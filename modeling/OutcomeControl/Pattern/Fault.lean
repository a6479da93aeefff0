import OutcomeControl.Pattern.Tree
import OutcomeControl.Pattern.Size

/-! Why a text is no pattern, and where. -/

namespace OutcomeControl.Pattern

inductive Reason where
  | classEscape
  | classRangeOrder
  | classRangeEnd
  | classUnclosed
  | decimalRange
  | hexEmpty
  | hexRange
  | hexDigit
  | escapeUnfinished
  | escapeUnknown
  | flagDangling
  | flagRepeated
  | flagNegatedTwice
  | flagMissing
  | flagUnknown
  | groupNameRepeated
  | groupNameEmpty
  | groupNameCharacter
  | groupNameUnclosed
  | groupUnclosed
  | groupUnopened
  | countOrder
  | countEmpty
  | countUnclosed
  | repetitionMissing
  | edgeUnclosed
  | edgeUnknown
  | edgeUnfinished
  | propertyName
  | propertyUnknown
  | propertyValueUnknown
  | shorthandUnavailable
  | caseUnavailable
  | notAscii
  | brokenCharacter
  | depth
  | backReference
  | lookAround
deriving DecidableEq

def Reason.text : Reason → String
  | .classEscape => "invalid escape sequence found in character class"
  | .classRangeOrder => "invalid character class range, the start must be <= the end"
  | .classRangeEnd => "invalid range boundary, must be a literal"
  | .classUnclosed => "unclosed character class"
  | .decimalRange => "decimal literal invalid"
  | .hexEmpty => "hexadecimal literal empty"
  | .hexRange => "hexadecimal literal is not a Unicode scalar value"
  | .hexDigit => "invalid hexadecimal digit"
  | .escapeUnfinished => "incomplete escape sequence, reached end of pattern prematurely"
  | .escapeUnknown => "unrecognized escape sequence"
  | .flagDangling => "dangling flag negation operator"
  | .flagRepeated => "duplicate flag"
  | .flagNegatedTwice => "flag negation operator repeated"
  | .flagMissing => "expected flag but got end of regex"
  | .flagUnknown => "unrecognized flag"
  | .groupNameRepeated => "duplicate capture group name"
  | .groupNameEmpty => "empty capture group name"
  | .groupNameCharacter => "invalid capture group character"
  | .groupNameUnclosed => "unclosed capture group name"
  | .groupUnclosed => "unclosed group"
  | .groupUnopened => "unopened group"
  | .countOrder => "invalid repetition count range, the start must be <= the end"
  | .countEmpty => "repetition quantifier expects a valid decimal"
  | .countUnclosed => "unclosed counted repetition"
  | .repetitionMissing => "repetition operator missing expression"
  | .edgeUnclosed =>
    "special word boundary assertion is either unclosed or contains an invalid character"
  | .edgeUnknown => "unrecognized special word boundary assertion, valid choices are: "
    ++ "start, end, start-half or end-half"
  | .edgeUnfinished => "found either the beginning of a special word boundary or a bounded "
    ++ "repetition on a \\b with an opening brace, but no closing brace"
  | .propertyName => "invalid Unicode character class"
  | .propertyUnknown => "Unicode property not found"
  | .propertyValueUnknown => "Unicode property value not found"
  | .shorthandUnavailable =>
    "Unicode-aware Perl class not found (make sure the unicode-perl feature is enabled)"
  | .caseUnavailable => "Unicode-aware case insensitivity matching is not available "
    ++ "(make sure the unicode-case feature is enabled)"
  | .notAscii => "Unicode not allowed here"
  | .brokenCharacter => "pattern can match invalid UTF-8"
  | .depth => "exceed the maximum number of nested parentheses/brackets ("
    ++ toString depthLimit ++ ")"
  | .backReference => "backreferences are not supported"
  | .lookAround => "look-around, including look-ahead and look-behind, is not supported"

/-- A reason with the part of the text that gives it. -/
structure Mistake where
  reason : Reason
  stretch : Stretch
  /-- What the faulty part repeats. -/
  earlier : Option Stretch := none
deriving DecidableEq

/-! ### Where -/

/-- The line of a place and the column in it, both counted from zero. -/
def lineAndColumn (text : List Char) (place : Nat) : Nat × Nat :=
  let before := text.take place
  (before.count '\n', (before.reverse.takeWhile (· != '\n')).length)

/-- The lines of a text, which one line end closes each. -/
def linesOf (s : String) : List String :=
  let pieces := s.splitOn "\n"
  let closed := pieces.dropLast.map fun l => if l.endsWith "\r" then (l.dropEnd 1).toString else l
  closed ++ pieces.getLast?.toList.filter (· ≠ "")

def blanks (n : Nat) : String := String.ofList (List.replicate n ' ')

/-- Marks columns of a line, from which so many are marked already. -/
def underline (done : Nat) : List Stretch → String
  | [] => ""
  | s :: rest =>
    let width := max 1 (s.stop - s.start)
    blanks (s.start - done) ++ String.ofList (List.replicate width '^')
      ++ underline (max done s.start + width) rest

namespace Mistake

/-- The faulty parts in the order of the text. -/
def stretches (m : Mistake) : List Stretch := match m.earlier with
  | none => [m.stretch]
  | some e => if e.start ≤ m.stretch.start then [e, m.stretch] else [m.stretch, e]

/-- The columns of the faulty parts that lie on a line. -/
def onLine (m : Mistake) (text : List Char) (line : Nat) : List Stretch :=
  m.stretches.filterMap fun s =>
    let (l, column) := lineAndColumn text s.start
    let (l', column') := lineAndColumn text s.stop
    if l = line && l' = line then some ⟨column, column'⟩ else none

/-- The faulty parts that go over several lines. -/
def acrossLines (m : Mistake) (text : List Char) : List String :=
  m.stretches.filterMap fun s =>
    let (l, column) := lineAndColumn text s.start
    let (l', column') := lineAndColumn text s.stop
    if l = l' then none
    else some ("on line " ++ toString (l + 1) ++ " (column " ++ toString (column + 1)
      ++ ") through line " ++ toString (l' + 1) ++ " (column " ++ toString column' ++ ")\n")

/-- The lines of a pattern, each with its number if there are several, and marks below the faulty
parts. -/
def markedLines (m : Mistake) (pattern : String) : String :=
  let text := pattern.toList
  let count := text.count '\n' + 1
  let width := (toString count).length
  let margin (n : Nat) : String := if count = 1 then blanks 4 else
    blanks (width - (toString n).length) ++ toString n ++ ": "
  String.join ((linesOf pattern).mapIdx fun n line =>
    margin (n + 1) ++ line ++ "\n" ++ match m.onLine text n with
      | [] => ""
      | marks => blanks (margin (n + 1)).length ++ underline 0 marks ++ "\n")

def divider : String := String.ofList (List.replicate 79 '~') ++ "\n"

/-- What is wrong with a pattern. -/
def message (m : Mistake) (pattern : String) : String :=
  let lines := m.markedLines pattern
  "regex parse error:\n"
    ++ (if pattern.toList.contains '\n' then
      divider ++ lines ++ divider ++ String.join (m.acrossLines pattern.toList)
    else lines)
    ++ "error: " ++ m.reason.text

end Mistake

inductive Fault where
  | mistake (m : Mistake)
  /-- Matching would take too much room. -/
  | tooLarge
  /-- It cannot be told where words start and stop. -/
  | unavailable
deriving DecidableEq

def Fault.message (pattern : String) : Fault → String
  | .mistake m => m.message pattern
  | .tooLarge => "Compiled regex exceeds size limit of " ++ toString sizeLimit ++ " bytes."
  | .unavailable => "error building NFA"

end OutcomeControl.Pattern
