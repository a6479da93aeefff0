/-! Reading a text from left to right.

A `Scan` takes what it reads off the front of the text and leaves the rest, or fails. Repetition is
bounded by the length of the text, since each round reads at least one character. -/

namespace OutcomeControl.Toml

abbrev Scan := StateT (List Char) Option

namespace Scan

/-- The next character, which stays in the text. -/
def next? : Scan (Option Char) := return (← get).head?

def any : Scan Char := do
  match ← get with
  | [] => failure
  | c :: rest =>
    set rest
    return c

/-- The next character, if it is of this kind. -/
def one (kind : Char → Bool) : Scan Char := do
  let c ← any
  if kind c then return c else failure

/-- As many characters of this kind as there are. -/
def many (kind : Char → Bool) : Scan (List Char) := modifyGet fun cs => cs.span kind

/-- So many characters of this kind. -/
def times (kind : Char → Bool) : Nat → Scan (List Char)
  | 0 => return []
  | n + 1 => do
    let c ← one kind
    return c :: (← times kind n)

def char (c : Char) : Scan Unit := discard (one (· == c))

/-- Exactly these characters. -/
def word : List Char → Scan Unit
  | [] => return ()
  | c :: rest => do
    char c
    word rest

/-- Reads the character if it comes next. -/
def skip? (c : Char) : Scan Bool := do
  if (← next?) == some c then
    char c
    return true
  else return false

def repeated {α : Type} (step : Scan (Option α)) : Nat → Scan (List α)
  | 0 => return []
  | n + 1 => do
    match ← step with
    | none => return []
    | some a => return a :: (← repeated step n)

/-- Repeats a step that reads something until it says that there is no more. -/
def all {α : Type} (step : Scan (Option α)) : Scan (List α) := do
  repeated step (← get).length

/-- One item or more with `separator` between them. -/
def separated {α : Type} (separator : Char) (item : Scan α) : Scan (α × List α) := do
  let first ← item
  let rest ← all do
    if ← skip? separator then return some (← item) else return none
  return (first, rest)

/-- The result of reading the whole text. -/
def run? {α : Type} (scan : Scan α) (cs : List Char) : Option α :=
  match StateT.run scan cs with
  | some (a, []) => some a
  | _ => none

end Scan

end OutcomeControl.Toml
