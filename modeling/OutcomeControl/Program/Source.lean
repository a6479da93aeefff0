/-! Names of declarations, positions in a source text and the comments kept beside the code. -/

namespace OutcomeControl

/-- A declared name together with the namespace that declares it. -/
structure QualifiedName where
  space : String
  name : String
deriving DecidableEq

namespace QualifiedName

/-- The declaration called `name` in the same namespace. -/
def sibling (q : QualifiedName) (name : String) : QualifiedName := { q with name }

/-- The name with its namespace in front, or alone when the namespace is empty. -/
def text (q : QualifiedName) : String :=
  if q.space.isEmpty then q.name else q.space ++ "." ++ q.name

/-- Namespaces decide first, and texts compare by code point. -/
def order (a b : QualifiedName) : Ordering :=
  (compare a.space b.space).then (compare a.name b.name)

end QualifiedName

/-- A zero-based line and column. -/
structure Position where
  line : UInt32
  column : UInt32
deriving DecidableEq

namespace Position

def zero : Position := ⟨0, 0⟩

def text (p : Position) : String := toString p.line.toNat ++ ":" ++ toString p.column.toNat

def order (a b : Position) : Ordering :=
  (compare a.line b.line).then (compare a.column b.column)

end Position

/-- The positions from `start` up to, and without, `stop`. -/
structure Span where
  start : Position
  stop : Position
deriving DecidableEq

namespace Span

/-- The empty span at the first position. -/
def origin : Span := ⟨.zero, .zero⟩

def isEmpty (s : Span) : Bool := s.start = s.stop

end Span

/-- Where a piece of code stands: `range` is relative to `offset`. -/
structure Location where
  offset : Position
  range : Span
deriving DecidableEq

/-- Comment lines ahead of a construct, and those just before its closing brace. -/
structure Comments where
  opening : List String := []
  closing : List String := []
deriving DecidableEq

namespace Comments

def isEmpty (c : Comments) : Bool := c.opening.isEmpty && c.closing.isEmpty

end Comments

end OutcomeControl
