import OutcomeControl.Json.Basic

/-! JSON text in the layout of one member or item a line, two blanks a level. -/

namespace OutcomeControl.Json

def hexText (n : Nat) : String := String.ofList (Nat.toDigits 16 n)

/-- A character inside a string literal. Only quotes, backslashes and control characters are escaped. -/
def escapeChar (c : Char) : String :=
  if c = '"' then "\\\"" else if c = '\\' then "\\\\"
  else if c = '\x08' then "\\b" else if c = '\x0c' then "\\f"
  else if c = '\n' then "\\n" else if c = '\r' then "\\r" else if c = '\t' then "\\t"
  else if c.toNat < 16 then "\\u000" ++ hexText c.toNat
  else if c.toNat < 32 then "\\u00" ++ hexText c.toNat
  else c.toString

def quote (s : String) : String := "\"" ++ String.join (s.toList.map escapeChar) ++ "\""

/-- The literal for a spelling; one that spells nothing is written as a lone surrogate. -/
def literal : Spelling → String
  | some s => quote s
  | none => "\"\\ud800\""

def indent (level : Nat) : String := String.join (List.replicate level "  ")

mutual
def pretty (level : Nat) : Json → String
  | .null => "null"
  | .bool b => if b then "true" else "false"
  | .number n => n.text true
  | .string s => literal s
  | .array [] => "[]"
  | .array items => "[\n" ++ prettyItems (level + 1) items ++ "\n" ++ indent level ++ "]"
  | .object [] => "\x7b\x7d"
  | .object members =>
    "\x7b\n" ++ prettyMembers (level + 1) members ++ "\n" ++ indent level ++ "\x7d"
  | .broken => ""
def prettyItems (level : Nat) : List Json → String
  | [] => ""
  | [j] => indent level ++ j.pretty level
  | j :: js => indent level ++ j.pretty level ++ ",\n" ++ prettyItems level js
def prettyMembers (level : Nat) : List (Spelling × Json) → String
  | [] => ""
  | [(key, j)] => indent level ++ literal key ++ ": " ++ j.pretty level
  | (key, j) :: rest =>
    indent level ++ literal key ++ ": " ++ j.pretty level ++ ",\n" ++ prettyMembers level rest
end

end OutcomeControl.Json
