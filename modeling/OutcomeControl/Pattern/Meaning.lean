import OutcomeControl.Pattern.Reader

/-! What a pattern means.

Of characters outside of ASCII nothing is known but their order: neither which letters differ in
their case only, nor which are digits or have another property. Where a pattern asks for that it has
no meaning, unless it asks for ASCII only. -/

namespace OutcomeControl.Pattern

def mistake {α : Type} (reason : Reason) (stretch : Stretch) : Except Mistake α :=
  .error { reason, stretch }

/-! ### Atoms -/

/-- A character that is written as a byte must be one by itself, where characters are not known. -/
def Literal.check (flags : Flags) (l : Literal) : Except Mistake Unit :=
  if flags.ascii && l.asByte && 128 ≤ l.char.toNat then mistake .brokenCharacter l.stretch
  else return

/-- A character of a set. -/
def Literal.checkInSet (flags : Flags) (l : Literal) : Except Mistake Unit := do
  l.check flags
  if flags.ascii && 128 ≤ l.char.toNat then mistake .notAscii l.stretch

def Literal.set (flags : Flags) (l : Literal) : Except Mistake CharSet := do
  l.check flags
  if !flags.anyCase then return CharSet.single l.char
  else if flags.ascii then return (CharSet.single l.char).inEitherCase
  else mistake .caseUnavailable l.stretch

def Shorthand.asciiSet : Shorthand → CharSet
  | .digit => CharSet.digit
  | .blank => CharSet.blank
  | .word => CharSet.word

/-- What is not of ASCII is no member of a set of bytes, and so cannot be told from broken
characters. -/
def shorthandSet (flags : Flags) (s : Shorthand) (negated : Bool) (stretch : Stretch) :
    Except Mistake CharSet :=
  if !flags.ascii then mistake .shorthandUnavailable stretch
  else if negated then mistake .brokenCharacter stretch
  else return s.asciiSet

/-- Names are compared without their case, blanks and connecting signs, and without `is` before
them. -/
def normalName (name : String) : String :=
  let cs := name.toList
  let is := cs.take 2 |>.map Char.toLower
  let rest := if is = ['i', 's'] then cs.drop 2 else cs
  let plain := (rest.filter fun c => c.toNat < 128 && !" _-".toList.contains c).map Char.toLower
  if is = ['i', 's'] && plain = ['c'] then "isc" else String.ofList plain

/-- Names of categories that are names of properties too. They are looked for among the categories
only. -/
def isCategoryOnly (name : String) : Bool :=
  !(name.contains ':' || name.contains '=') && ["cf", "sc", "lc"].contains (normalName name)

/-- No property is known, and no value of one. -/
def propertySet (flags : Flags) (name : String) (stretch : Stretch) : Except Mistake CharSet :=
  if flags.ascii then mistake .notAscii stretch
  else if isCategoryOnly name then mistake .propertyValueUnknown stretch
  else mistake .propertyUnknown stretch

/-! ### Brackets -/

def SetOperation.apply : SetOperation → CharSet → CharSet → CharSet
  | .inter => CharSet.inter
  | .diff => CharSet.diff
  | .symmDiff => CharSet.symmDiff

/-- Gives a set its flags and turns it around. -/
def finish (flags : Flags) (negated : Bool) (stretch : Stretch) (set : CharSet) :
    Except Mistake CharSet :=
  let set := if flags.anyCase then set.inEitherCase else set
  if !negated then return set
  else if flags.ascii then mistake .brokenCharacter stretch
  else return set.compl

/-- Whether a set lists characters outside of all brackets in it. -/
def SetTree.listsChars : SetTree → Bool
  | .atom (.char _) | .range _ _ => true
  | .union items _ => items.any fun
    | .atom (.char _) | .range _ _ => true
    | _ => false
  | _ => false

/-- Characters that are listed have to be known in either case, if a flag says so. -/
def SetTree.checkCase (flags : Flags) (t : SetTree) (stretch : Stretch) : Except Mistake Unit :=
  if flags.anyCase && !flags.ascii && t.listsChars then mistake .caseUnavailable stretch else return

mutual
def SetTree.set (flags : Flags) : SetTree → Except Mistake CharSet
  | .atom (.char l) => do
    l.checkInSet flags
    return CharSet.single l.char
  | .atom (.shorthand s negated stretch) => shorthandSet flags s negated stretch
  | .atom (.property name stretch) => propertySet flags name stretch
  | .range first last => do
    first.checkInSet flags
    last.checkInSet flags
    return CharSet.between first.char last.char
  | .named set negated stretch =>
    if flags.anyCase && !flags.ascii then mistake .caseUnavailable stretch
    else finish flags negated stretch set
  | .bracket content negated stretch => do
    let set ← SetTree.set flags content
    content.checkCase flags stretch
    finish flags negated stretch set
  | .union items _ => SetTree.sets flags items
  | .operation op left right _ => do
    let a ← SetTree.set flags left
    let b ← SetTree.set flags right
    right.checkCase flags right.stretch
    left.checkCase flags left.stretch
    if flags.anyCase then return op.apply a.inEitherCase b.inEitherCase else return op.apply a b
def SetTree.sets (flags : Flags) : List SetTree → Except Mistake CharSet
  | [] => return CharSet.empty
  | t :: ts => do
    let a ← SetTree.set flags t
    let b ← SetTree.sets flags ts
    return a.union b
end

/-! ### Patterns -/

/-- Everything but line ends. -/
def dotSet (flags : Flags) (stretch : Stretch) : Except Mistake CharSet :=
  if flags.ascii then mistake .brokenCharacter stretch
  else if flags.dotAll then return CharSet.full
  else
    let ends := if flags.returns then ['\n', '\r'] else ['\n']
    return (CharSet.unions (ends.map CharSet.single)).compl

def EdgeSign.edge (flags : Flags) : EdgeSign → Edge
  | .lineStart => if flags.eachLine then .lineStart flags.returns else .textStart
  | .lineEnd => if flags.eachLine then .lineEnd flags.returns else .textEnd
  | .textStart => .textStart
  | .textEnd => .textEnd
  | .word w => .word w flags.ascii

def Atom.set (flags : Flags) : Atom → Except Mistake CharSet
  | .char l => l.set flags
  | .shorthand s negated stretch => shorthandSet flags s negated stretch
  | .property name stretch => propertySet flags name stretch

mutual
/-- The pattern that a tree means, and the flags that hold after it. -/
def Tree.meaning (flags : Flags) : Tree → Except Mistake (Pattern × Flags)
  | .atom a => do return (.one (← a.set flags), flags)
  | .edge e _ => return (.edge (e.edge flags), flags)
  | .dot stretch => do return (.one (← dotSet flags stretch), flags)
  | .flags letters _ => return (.nothing, flags.switch letters)
  | .bracket content negated stretch => do
    let set ← (SetTree.bracket content negated stretch).set flags
    return (.one set, flags)
  | .times t least most _ => do
    let (p, after) ← Tree.meaning flags t
    return (p.repeated least most, after)
  | .group t kept letters _ => do
    let (p, _) ← Tree.meaning (flags.switch letters) t
    return (if kept then .group p else p, flags)
  | .either ts _ => do
    let (ps, after) ← Tree.meanings flags ts
    return (Pattern.ofAlternatives ps, after)
  | .sequence ts _ => do
    let (ps, after) ← Tree.meanings flags ts
    return (Pattern.ofSequence ps, after)
/-- Flags go from each tree to the next one. -/
def Tree.meanings (flags : Flags) : List Tree → Except Mistake (List Pattern × Flags)
  | [] => return ([], flags)
  | t :: ts => do
    let (p, between) ← Tree.meaning flags t
    let (ps, after) ← Tree.meanings between ts
    return (p :: ps, after)
end

/-- The meaning of a tree that is not too deep. -/
def Tree.pattern (t : Tree) : Except Mistake Pattern := match t.tooDeep? 0 with
  | some stretch => mistake .depth stretch
  | none => (t.meaning {}).map Prod.fst

/-- The pattern that a text spells, if it can be matched. -/
def ofText (s : String) : Except Fault Pattern := do
  let p ← ((Tree.ofText s).bind Tree.pattern).mapError Fault.mistake
  if p.isTooLarge false then throw .tooLarge
  else if !p.isAvailable then throw .unavailable
  else if p.isTooLarge true then throw .tooLarge
  else return p

end OutcomeControl.Pattern
