/-! Texts without the characters that control a terminal.

A control sequence starts with the escape character; what belongs to it depends on the characters
that follow. Of the control characters outside of sequences only blanks and line ends stay. -/

namespace OutcomeControl.Text

/-- Where a text stands in a control sequence. -/
inductive TerminalMode where
  /-- Outside of sequences. -/
  | ground
  /-- After the escape character. -/
  | escape
  /-- After the escape character and a mark such as `(`. -/
  | marked
  /-- In the parameters of a sequence that its last character names. -/
  | parameters
  /-- At the start of a device control string. -/
  | device
  /-- In the parameters of a device control string. -/
  | deviceParameters
  /-- After the parameters of a device control string and a mark such as `$`. -/
  | deviceMarked
  /-- In a string that only its terminator ends. -/
  | string
  /-- In a command to the system, which a bell ends too. -/
  | command
deriving DecidableEq

/-- The control characters that separate words and lines. -/
def isBlankControl (c : Char) : Bool := c == '\t' || c == '\n' || c == '\x0c' || c == '\r'

/-- The byte that ends a string, wherever it stands. -/
def stringTerminator : UInt8 := 0x9c

namespace TerminalMode

/-- Blanks and line ends are seen in the middle of a sequence too, but not inside strings. -/
def shows : TerminalMode → Char → Bool
  | .ground, c => ' ' ≤ c && c != '\x7f' || isBlankControl c
  | .escape, c | .marked, c | .parameters, c => isBlankControl c
  | .device, _ | .deviceParameters, _ | .deviceMarked, _ | .string, _ | .command, _ => false

/-- The mode after a character. Two characters cancel a sequence, and a new one may start in the
middle of it. -/
def after (m : TerminalMode) (c : Char) : TerminalMode :=
  if c == '\x18' || c == '\x1a' then .ground
  else if c == '\x1b' then .escape
  else match m with
    | .ground => .ground
    | .escape =>
      if c == '[' then .parameters
      else if c == ']' then .command
      else if c == 'P' then .device
      else if c == 'X' || c == '^' || c == '_' then .string
      else if ' ' ≤ c && c ≤ '/' then .marked
      else if '0' ≤ c && c ≤ '~' then .ground
      else .escape
    | .marked => if '0' ≤ c && c ≤ '~' then .ground else .marked
    | .parameters => if '@' ≤ c && c ≤ '~' then .ground else .parameters
    | .device =>
      if ' ' ≤ c && c ≤ '/' then .deviceMarked
      else if '0' ≤ c && c ≤ '?' then .deviceParameters
      else if '@' ≤ c && c ≤ '~' then .string
      else .device
    | .deviceParameters =>
      if ' ' ≤ c && c ≤ '/' then .deviceMarked
      else if '<' ≤ c && c ≤ '~' then .string
      else .deviceParameters
    | .deviceMarked => if '0' ≤ c && c ≤ '~' then .string else .deviceMarked
    | .string => if (String.utf8EncodeChar c).contains stringTerminator then .ground else .string
    | .command => if c == '\x07' then .ground else .command

end TerminalMode

/-- What is seen of a text. A blank in the middle of a sequence suspends it: text is seen up to the
next control character, where the sequence goes on, and a character outside of ASCII ends it. -/
def visibleFrom (m : TerminalMode) (seen : Bool) : List Char → List Char
  | [] => []
  | c :: cs =>
    if seen && TerminalMode.ground.shows c then
      c :: visibleFrom (if c.toNat < 128 then m else .ground) true cs
    else if m.shows c then c :: visibleFrom (m.after c) true cs
    else visibleFrom (m.after c) false cs

def withoutControls (s : String) : String := String.ofList (visibleFrom .ground false s.toList)

end OutcomeControl.Text
