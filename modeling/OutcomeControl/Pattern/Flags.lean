/-! Letters that change the meaning of the parts of a pattern. -/

namespace OutcomeControl.Pattern

structure Flags where
  /-- Letters match in either case. -/
  anyCase : Bool := false
  /-- The edges of a text are also those of its lines. -/
  eachLine : Bool := false
  /-- A dot matches line ends too. -/
  dotAll : Bool := false
  /-- Line ends may hold a carriage return. -/
  returns : Bool := false
  /-- Characters outside of ASCII are not known. -/
  ascii : Bool := false
deriving DecidableEq

namespace Flags

/-- Whether a match is as long or as short as possible makes no difference to whether there is one,
and the last letter is about the text of the pattern only. -/
def letters : List Char := ['i', 'm', 's', 'R', 'u', 'U', 'x']

/-- Letters before a dash are switched on, those after it off, and the others stay. -/
def isOn (letter : Char) (before : Bool) (letters : List Char) : Bool :=
  if (letters.takeWhile (· != '-')).contains letter then true
  else before && !letters.contains letter

def switch (flags : Flags) (letters : List Char) : Flags where
  anyCase := isOn 'i' flags.anyCase letters
  eachLine := isOn 'm' flags.eachLine letters
  dotAll := isOn 's' flags.dotAll letters
  returns := isOn 'R' flags.returns letters
  ascii := !isOn 'u' (!flags.ascii) letters

end Flags

end OutcomeControl.Pattern
