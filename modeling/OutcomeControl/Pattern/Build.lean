import OutcomeControl.Pattern.Basic

/-! Patterns from their parts.

Different parts can make patterns that match the same. Some of that is evened out: rows of items
lie flat, alternatives do too, and what all of them start with comes before the choice. -/

namespace OutcomeControl.Pattern

/-- Whether nothing but the empty text can match. -/
def isHollow : Pattern → Bool
  | .nothing | .edge _ => true
  | .one _ => false
  | .both p q | .either p q => p.isHollow && q.isHollow
  | .times p _ _ | .group p => p.isHollow

/-- Whether a place is kept anywhere in a pattern, which makes it differ from all others. -/
def keepsPlaces : Pattern → Bool
  | .nothing | .one _ | .edge _ => false
  | .both p q | .either p q => p.keepsPlaces || q.keepsPlaces
  | .times p _ _ => p.keepsPlaces
  | .group _ => true

/-- Whether a single character is the only match. -/
def isChar : Pattern → Bool
  | .one s => s.isSingle
  | _ => false

/-! ### Rows -/

/-- What stands in a row. -/
def items : Pattern → List Pattern
  | .nothing => []
  | .both p q => p.items ++ q.items
  | p => [p]

def ofSequence (ps : List Pattern) : Pattern := row (ps.flatMap items)
where
  row : List Pattern → Pattern
    | [] => .nothing
    | [p] => p
    | p :: ps => .both p (row ps)

/-- The items of a row, where characters that follow each other are one piece. -/
def pieces (p : Pattern) : List (List Pattern) := p.items.splitBy fun a b => a.isChar && b.isChar

/-! ### Alternatives -/

/-- What can be chosen from. -/
def branches : Pattern → List Pattern
  | .either p q => p.branches ++ q.branches
  | p => [p]

/-- The sets of patterns that match a single character each. -/
def sets? (ps : List Pattern) : Option (List CharSet) := ps.mapM fun
  | .one s => some s
  | _ => none

/-- A choice of single characters is a set of them. Without alternatives only the empty text is
left. -/
def choice (ps : List Pattern) : Pattern :=
  let ps := ps.flatMap branches
  match sets? ps with
  | some (s :: ss) => .one (CharSet.unions (s :: ss))
  | _ => among ps
where
  among : List Pattern → Pattern
    | [] => .nothing
    | [p] => p
    | p :: ps => .either p (among ps)

/-- The pieces that two rows start with. -/
def sharedPieces : List (List Pattern) → List (List Pattern) → List (List Pattern)
  | x :: xs, y :: ys => if x = y && !x.any keepsPlaces then x :: sharedPieces xs ys else []
  | _, _ => []

/-- The items that all alternatives start with, and what is left of each. Alternatives of a single
piece are not divided. -/
def factored? (ps : List Pattern) : Option (List Pattern × List Pattern) :=
  match ps.map pieces with
  | first :: second :: rest =>
    let rows := first :: second :: rest
    let shared := (second :: rest).foldl sharedPieces first
    if shared.isEmpty || rows.any (·.length < 2) then none
    else some (shared.flatten, rows.map fun r => ofSequence (r.drop shared.length).flatten)
  | _ => none

def ofAlternatives (ps : List Pattern) : Pattern := match factored? (ps.flatMap branches) with
  | some (start, ends) => ofSequence (start ++ [choice ends])
  | none => choice ps

/-! ### Repetitions -/

/-- More than one empty text in a row is one of them. -/
def repeated (p : Pattern) (least : Nat) (most : Option Nat) : Pattern :=
  let (least, most) :=
    if p.isHollow then (min least 1, some (min (most.getD 1) 1)) else (least, most)
  if most = some 0 then .nothing
  else if least = 1 && most = some 1 then p
  else .times p least most

end OutcomeControl.Pattern
