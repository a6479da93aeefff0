import OutcomeControl.Number.Numeral

/-! JSON values as a text spells them, up to the place where the text stops being JSON.

Members keep their order and their repetitions, and numbers keep their digits, so a value holds
all that reading it as a typed tree can depend on. A text that breaks off is a value too: what
came before the break stands in the tree, and `broken` marks the place. -/

namespace OutcomeControl

/-- What a string literal spells. A literal with a lone surrogate is well formed and spells nothing. -/
abbrev Spelling := Option String

inductive Json where
  | null
  | bool (b : Bool)
  | number (n : Numeral)
  | string (s : Spelling)
  | array (items : List Json)
  | object (members : List (Spelling × Json))
  /-- The text is not JSON from here on. -/
  | broken

namespace Json

def text (s : String) : Json := .string (some s)

def int (i : Int) : Json := .number (.ofInt i)

def nat (n : Nat) : Json := .int n

/-- An object with these members, in order. -/
def record (members : List (String × Json)) : Json :=
  .object (members.map fun (key, j) => (some key, j))

mutual
/-- Whether the value was spelled to its end. -/
def intact : Json → Bool
  | .null | .bool _ | .number _ | .string _ => true
  | .array items => intactItems items
  | .object members => intactMembers members
  | .broken => false
def intactItems : List Json → Bool
  | [] => true
  | j :: js => j.intact && intactItems js
def intactMembers : List (Spelling × Json) → Bool
  | [] => true
  | (_, j) :: rest => j.intact && intactMembers rest
end

mutual
/-- How many arrays and objects are open at once, at most. -/
def depth : Json → Nat
  | .array items => depthItems items + 1
  | .object members => depthMembers members + 1
  | _ => 0
def depthItems : List Json → Nat
  | [] => 0
  | j :: js => max j.depth (depthItems js)
def depthMembers : List (Spelling × Json) → Nat
  | [] => 0
  | (_, j) :: rest => max j.depth (depthMembers rest)
end

end Json

/-- A whole text: the value it starts with, and whether only blanks follow. -/
structure Document where
  root : Json
  complete : Bool

end OutcomeControl
