import OutcomeControl.Number.Double
import OutcomeControl.Toml.Scan

/-! Values that are neither texts nor made of other values: truth values, numbers, dates and times.

They are told apart by their literals alone: a run of letters, digits and the signs `+ - _ . :` is
one literal, and a date may be followed by a blank and a time. -/

namespace OutcomeControl.Toml

def isDigit (c : Char) : Bool := '0' ≤ c && c ≤ '9'

def isHexDigit (c : Char) : Bool := isDigit c || 'a' ≤ c && c ≤ 'f' || 'A' ≤ c && c ≤ 'F'

def isLetter (c : Char) : Bool := 'a' ≤ c && c ≤ 'z' || 'A' ≤ c && c ≤ 'Z'

/-- The value of a digit, in bases up to sixteen. -/
def digitValue (c : Char) : Nat :=
  if isDigit c then c.toNat - '0'.toNat
  else if 'a' ≤ c then c.toNat - 'a'.toNat + 10
  else c.toNat - 'A'.toNat + 10

/-- The number that digits spell; marks between them do not count. -/
def digitsValue (base : Nat) (ds : List Char) : Nat :=
  (ds.filter (· != '_')).foldl (fun n c => n * base + digitValue c) 0

/-- Digits with single `_` between them. -/
def grouped (digit : Char → Bool) : List Char → Bool
  | [] => false
  | [c] => digit c
  | c :: '_' :: rest => digit c && grouped digit rest
  | c :: rest => digit c && grouped digit rest

/-! ### Numbers -/

/-- The largest integer. -/
def largest : Nat := twoTo 63 - 1

/-- Digits of a whole number, which starts with zero only when it is zero. -/
def isWhole (ds : List Char) : Bool := match ds with
  | ['0'] => true
  | '0' :: _ => false
  | _ => grouped isDigit ds

/-- A sign, if there is one, and what follows it. -/
def signed : List Char → Bool × List Char
  | '-' :: rest => (true, rest)
  | '+' :: rest => (false, rest)
  | cs => (false, cs)

def isInteger : List Char → Bool
  | '0' :: 'x' :: ds => grouped isHexDigit ds && digitsValue 16 ds ≤ largest
  | '0' :: 'o' :: ds => grouped (fun c => '0' ≤ c && c ≤ '7') ds && digitsValue 8 ds ≤ largest
  | '0' :: 'b' :: ds => grouped (fun c => c == '0' || c == '1') ds && digitsValue 2 ds ≤ largest
  | cs =>
    let (negative, ds) := signed cs
    isWhole ds && digitsValue 10 ds ≤ if negative then largest + 1 else largest

/-- Whether `m · 10 ^ e` is too large for a double: from halfway between the largest double and
the power of two after it. -/
def overflows (m : Nat) (e : Int) : Bool :=
  let places : Int := (Nat.toDigits 10 m).length + e
  if m = 0 || places < 300 then false
  else if places > 320 then true
  else
    let limit := (twoTo 54 - 1) * twoTo 970
    if 0 ≤ e then limit ≤ m * tenTo e.toNat else limit * tenTo (-e).toNat ≤ m

/-- The fraction of a literal after its point, and what follows; without a point it is empty. -/
def fractionPart : List Char → Option (List Char × List Char)
  | '.' :: rest =>
    let (ds, rest) := rest.span fun c => isDigit c || c == '_'
    if grouped isDigit ds then some (ds, rest) else none
  | cs => some ([], cs)

/-- The exponent that ends a literal; without one it is zero. -/
def exponentPart : List Char → Option Int
  | [] => some 0
  | mark :: rest =>
    let (negative, ds) := signed rest
    if (mark == 'e' || mark == 'E') && grouped isDigit ds then
      let n := digitsValue 10 ds
      some (if negative then -(n : Int) else n)
    else none

/-- A decimal with a fraction, an exponent or both. Too large a negative number counts as
negative infinity, too large a positive one is refused. -/
def isDecimal (cs : List Char) : Bool :=
  let (negative, rest) := signed cs
  let (whole, rest) := rest.span fun c => isDigit c || c == '_'
  match fractionPart rest with
  | none => false
  | some (fraction, ending) => match exponentPart ending with
    | none => false
    | some e =>
      !rest.isEmpty && isWhole whole
        && (negative || !overflows (digitsValue 10 (whole ++ fraction))
          (e - (fraction.filter (· != '_')).length))

def isSpecial (cs : List Char) : Bool :=
  let (_, rest) := signed cs
  rest == ['i', 'n', 'f'] || rest == ['n', 'a', 'n']

/-! ### Dates and times -/

/-- A number of so many digits in a range. -/
def field (width low high : Nat) : Scan Nat := do
  let n := digitsValue 10 (← Scan.times isDigit width)
  if low ≤ n && n ≤ high then return n else failure

def daysIn (year month : Nat) : Nat :=
  if month = 2 then
    if year % 4 = 0 && (year % 100 != 0 || year % 400 = 0) then 29 else 28
  else if month = 4 || month = 6 || month = 9 || month = 11 then 30
  else 31

def date : Scan Unit := do
  let year ← field 4 0 9999
  Scan.char '-'
  let month ← field 2 1 12
  Scan.char '-'
  discard (field 2 1 (daysIn year month))

/-- Hours, minutes, seconds up to a leap second, and a fraction of any length. -/
def time : Scan Unit := do
  discard (field 2 0 23)
  Scan.char ':'
  discard (field 2 0 59)
  Scan.char ':'
  discard (field 2 0 60)
  if ← Scan.skip? '.' then
    discard (Scan.one isDigit)
    discard (Scan.many isDigit)

/-- The distance from universal time, which may be left out. -/
def offset : Scan Unit := do
  match ← Scan.next? with
  | none => return ()
  | some c =>
    discard Scan.any
    if c == 'Z' || c == 'z' then return ()
    else if c == '+' || c == '-' then
      discard (field 2 0 23)
      Scan.char ':'
      discard (field 2 0 59)
    else failure

def isDate (cs : List Char) : Bool := (date.run? cs).isSome

/-- A time that follows a date. -/
def isTimeOfDate (cs : List Char) : Bool := (Scan.run? (do time; offset) cs).isSome

/-- Between a date and its time. -/
def isDateEnd (c : Char) : Bool := c == 'T' || c == 't' || c == ' '

def isMoment (cs : List Char) : Bool :=
  isDate cs || (time.run? cs).isSome
    || (Scan.run? (do date; discard (Scan.one isDateEnd); time; offset) cs).isSome

/-! ### Literals -/

def isScalarChar (c : Char) : Bool :=
  isLetter c || isDigit c || c == '+' || c == '-' || c == '_' || c == '.' || c == ':'

def isScalar (cs : List Char) : Bool :=
  cs == ['t', 'r', 'u', 'e'] || cs == ['f', 'a', 'l', 's', 'e']
    || isInteger cs || isDecimal cs || isSpecial cs || isMoment cs

/-- The time after a date and a blank, which stays unread if it is none. -/
def laterTime : Scan (List Char) := do
  match ← get with
  | ' ' :: rest =>
    let (cs, rest) := rest.span isScalarChar
    if isTimeOfDate cs then
      set rest
      return ' ' :: cs
    else return []
  | _ => return []

/-- The literal of a scalar. -/
def scalar : Scan String := do
  let cs ← Scan.many isScalarChar
  if !isScalar cs then failure
  else if isDate cs then return String.ofList (cs ++ (← laterTime))
  else return String.ofList cs

end OutcomeControl.Toml
