import OutcomeControl.Number.Double

/-! What a tree holds, with the names of its fields left out.

A list is a chain of `cons` that ends in `nil`, the fields of a record are the list of their
values, an optional value is a list of at most one, and a choice is a `tag` with what it carries. -/

namespace OutcomeControl

inductive Value where
  | text (s : String)
  | int (i : Int)
  | double (d : Double)
  | flag (b : Bool)
  | nil
  | cons (head tail : Value)
  | tag (name : String) (payload : Value)
deriving DecidableEq

namespace Value

def ofList : List Value → Value
  | [] => .nil
  | v :: vs => .cons v (ofList vs)

def ofOption : Option Value → Value
  | none => .nil
  | some v => .cons v .nil

/-- A choice that carries nothing. -/
def bare (name : String) : Value := .tag name .nil

/-- Words are below `2 ^ 32`. -/
def wordBound : Int := 4294967296

/-- Integers are below `2 ^ 63`, and from its negative on. -/
def integerBound : Int := 9223372036854775808

def word (n : UInt32) : Value := .int n.toNat

def word? : Value → Option UInt32
  | .int i => if 0 ≤ i ∧ i < wordBound then some i.toNat.toUInt32 else none
  | _ => none

def integer (n : Int64) : Value := .int n.toInt

def integer? : Value → Option Int64
  | .int i => if -integerBound ≤ i ∧ i < integerBound then some (.ofInt i) else none
  | _ => none

def text? : Value → Option String
  | .text s => some s
  | _ => none

def double? : Value → Option Double
  | .double d => some d
  | _ => none

def flag? : Value → Option Bool
  | .flag b => some b
  | _ => none

/-- The list whose items are read one by one. -/
def list? {α : Type} (item : Value → Option α) : Value → Option (List α)
  | .nil => some []
  | .cons v vs => do return (← item v) :: (← list? item vs)
  | _ => none

def option? {α : Type} (item : Value → Option α) : Value → Option (Option α)
  | .nil => some none
  | .cons v .nil => (item v).map some
  | _ => none

end Value

end OutcomeControl
