import OutcomeControl.Json.Basic

/-! Reading JSON text.

Each reader returns what it read and the rest of the text. Reading a value never fails: where the
text stops being JSON the value ends in `Json.broken` and there is no rest. -/

namespace OutcomeControl.Json

def isBlank (c : Char) : Bool := c = ' ' || c = '\n' || c = '\r' || c = '\t'

def skipBlanks (cs : List Char) : List Char := cs.dropWhile isBlank

/-! ### Numbers -/

def decimal? (c : Char) : Option (Fin 10) :=
  if '0' ≤ c ∧ c ≤ '9' then some (Numeral.digitOf (c.toNat - 48)) else none

/-- The digits at the front, and the rest. -/
def digits : List Char → List (Fin 10) × List Char
  | [] => ([], [])
  | c :: cs => match decimal? c with
    | some d => let (ds, rest) := digits cs; (d :: ds, rest)
    | none => ([], c :: cs)

def valueOf (ds : List (Fin 10)) : Nat := ds.foldl (fun n d => 10 * n + d.val) 0

/-- The digits before the point: a single zero, or no zero in front. -/
def wholePart (cs : List Char) : Option (Nat × List Char) :=
  match digits cs with
  | ([], _) => none
  | ([d], rest) => some (d.val, rest)
  | (d :: ds, rest) => if d.val = 0 then none else some (valueOf (d :: ds), rest)

/-- The digits after a point; a point needs one at least. -/
def fractionPart : List Char → Option (List (Fin 10) × List Char)
  | '.' :: cs => match digits cs with
    | ([], _) => none
    | (ds, rest) => some (ds, rest)
  | cs => some ([], cs)

def exponentDigits (negative : Bool) (cs : List Char) : Option (Option Int × List Char) :=
  match digits cs with
  | ([], _) => none
  | (ds, rest) => some (some (if negative then -(valueOf ds : Int) else valueOf ds), rest)

def exponentPart : List Char → Option (Option Int × List Char)
  | 'e' :: '-' :: cs | 'E' :: '-' :: cs => exponentDigits true cs
  | 'e' :: '+' :: cs | 'E' :: '+' :: cs => exponentDigits false cs
  | 'e' :: cs | 'E' :: cs => exponentDigits false cs
  | cs => some (none, cs)

/-- The number after its sign. -/
def unsignedNumeral (negative : Bool) (cs : List Char) : Option (Numeral × List Char) := do
  let (whole, cs) ← wholePart cs
  let (fraction, cs) ← fractionPart cs
  let (exponent, cs) ← exponentPart cs
  return ({ negative, whole, fraction, exponent }, cs)

def numeral : List Char → Option (Numeral × List Char)
  | '-' :: cs => unsignedNumeral true cs
  | cs => unsignedNumeral false cs

/-! ### Strings -/

def hexDigit? (c : Char) : Option Nat :=
  if '0' ≤ c ∧ c ≤ '9' then some (c.toNat - 48)
  else if 'a' ≤ c ∧ c ≤ 'f' then some (c.toNat - 87)
  else if 'A' ≤ c ∧ c ≤ 'F' then some (c.toNat - 55)
  else none

/-- The 16-bit unit that four hexadecimal digits name. -/
def unit? (a b c d : Char) : Option Nat := do
  return (← hexDigit? a) * 4096 + (← hexDigit? b) * 256 + (← hexDigit? c) * 16 + (← hexDigit? d)

def isHighSurrogate (u : Nat) : Bool := 0xD800 ≤ u && u < 0xDC00

def isLowSurrogate (u : Nat) : Bool := 0xDC00 ≤ u && u < 0xE000

/-- The character that a pair of surrogates stands for. -/
def paired (high low : Nat) : Char :=
  Char.ofNat (0x10000 + (high - 0xD800) * 0x400 + (low - 0xDC00))

/-- The character of an escape of one letter. -/
def escaped? : Char → Option Char
  | '"' => some '"' | '\\' => some '\\' | '/' => some '/'
  | 'b' => some '\x08' | 'f' => some '\x0c' | 'n' => some '\n' | 'r' => some '\r' | 't' => some '\t'
  | _ => none

/-- A string literal read so far: its characters in reverse, a high surrogate that waits for its
partner, and whether every surrogate before it had one. -/
structure Literal where
  reversed : List Char := []
  high : Option Nat := none
  sound : Bool := true

namespace Literal

def char (l : Literal) (c : Char) : Literal :=
  { reversed := c :: l.reversed, high := none, sound := l.sound && l.high.isNone }

/-- A unit that does not complete a pair. -/
def single (l : Literal) (u : Nat) : Literal :=
  if isHighSurrogate u then { l with high := some u }
  else if isLowSurrogate u then { l with sound := false }
  else l.char (Char.ofNat u)

def unit (l : Literal) (u : Nat) : Literal :=
  match l.high with
  | none => l.single u
  | some h =>
    if isLowSurrogate u then { l with reversed := paired h u :: l.reversed, high := none }
    else { l with high := none, sound := false }.single u

def spelling (l : Literal) : Spelling :=
  if l.sound && l.high.isNone then some (String.ofList l.reversed.reverse) else none

end Literal

/-- The rest of a string literal, up to its closing quote. -/
def stringFrom (l : Literal) : List Char → Option (Spelling × List Char)
  | [] => none
  | '"' :: cs => some (l.spelling, cs)
  | '\\' :: 'u' :: a :: b :: c :: d :: cs => match unit? a b c d with
    | some u => stringFrom (l.unit u) cs
    | none => none
  | '\\' :: e :: cs => match escaped? e with
    | some c => stringFrom (l.char c) cs
    | none => none
  | c :: cs => if c.toNat < 0x20 || c = '\\' then none else stringFrom (l.char c) cs

/-! ### Values -/

mutual
/-- The value at the front of a text. -/
def value : Nat → List Char → Json × Option (List Char)
  | 0, _ => (.broken, none)
  | fuel + 1, cs => match skipBlanks cs with
    | 'n' :: 'u' :: 'l' :: 'l' :: rest => (.null, some rest)
    | 't' :: 'r' :: 'u' :: 'e' :: rest => (.bool true, some rest)
    | 'f' :: 'a' :: 'l' :: 's' :: 'e' :: rest => (.bool false, some rest)
    | '"' :: rest => match stringFrom {} rest with
      | some (s, rest) => (.string s, some rest)
      | none => (.broken, none)
    | '[' :: rest => match skipBlanks rest with
      | ']' :: rest => (.array [], some rest)
      | rest => let (items, rest) := items fuel rest; (.array items, rest)
    | '\x7b' :: rest => match skipBlanks rest with
      | '\x7d' :: rest => (.object [], some rest)
      | rest => let (members, rest) := members fuel rest; (.object members, rest)
    | cs => match numeral cs with
      | some (n, rest) => (.number n, some rest)
      | none => (.broken, none)

/-- The items of an array from its first one on. -/
def items : Nat → List Char → List Json × Option (List Char)
  | 0, _ => ([.broken], none)
  | fuel + 1, cs => match value fuel cs with
    | (j, none) => ([j], none)
    | (j, some rest) => match skipBlanks rest with
      | ',' :: rest => let (js, rest) := items fuel rest; (j :: js, rest)
      | ']' :: rest => ([j], some rest)
      | _ => ([j, .broken], none)

/-- The members of an object from its first one on. -/
def members : Nat → List Char → List (Spelling × Json) × Option (List Char)
  | 0, _ => ([(none, .broken)], none)
  | fuel + 1, cs => match skipBlanks cs with
    | '"' :: rest => match stringFrom {} rest with
      | none => ([(none, .broken)], none)
      | some (key, rest) => match skipBlanks rest with
        | ':' :: rest => match value fuel rest with
          | (j, none) => ([(key, j)], none)
          | (j, some rest) => match skipBlanks rest with
            | ',' :: rest => let (ms, rest) := members fuel rest; ((key, j) :: ms, rest)
            | '\x7d' :: rest => ([(key, j)], some rest)
            | _ => ([(key, j), (none, .broken)], none)
        | _ => ([(key, .broken)], none)
    | _ => ([(none, .broken)], none)
end

/-- Reads a whole text. Two calls in a row take at least one character, which bounds their number. -/
def read (s : String) : Document :=
  let cs := s.toList
  match value (2 * cs.length + 2) cs with
  | (j, none) => ⟨j, true⟩
  | (j, some rest) => ⟨j, (skipBlanks rest).isEmpty⟩

end OutcomeControl.Json
