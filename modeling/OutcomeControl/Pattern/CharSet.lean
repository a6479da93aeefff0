/-! Sets of characters, given by the places in the order of all characters where membership changes.

The first change is the first member, the second the first character after it that is none, and so
on. Changes are in order, so each set has one form. -/

namespace OutcomeControl

structure CharSet where
  changes : List Nat
deriving DecidableEq

namespace CharSet

/-- The place of a character in the order of all characters, from which numbers that belong to none
are left out. -/
def rank (c : Char) : Nat := if c.toNat < 0xd800 then c.toNat else c.toNat - 0x800

/-- How many characters there are. -/
def rankCount : Nat := 0x10f800

def hasRank (s : CharSet) (n : Nat) : Bool := s.changes.countP (· ≤ n) % 2 = 1

def has (s : CharSet) (c : Char) : Bool := s.hasRank (rank c)

def empty : CharSet := ⟨[]⟩

def full : CharSet := ⟨[0, rankCount]⟩

/-- The characters from one to another, of which the first is not after the last. -/
def between (first last : Char) : CharSet := ⟨[rank first, rank last + 1]⟩

def single (c : Char) : CharSet := between c c

/-- The places of a list where a condition starts or stops to hold. -/
def switches (holds : Nat → Bool) (before : Bool) : List Nat → List Nat
  | [] => []
  | n :: ns =>
    if holds n == before then switches holds before ns else n :: switches holds (!before) ns

/-- Combines two sets by what is asked of membership in each. Characters in neither stay outside. -/
def combine (op : Bool → Bool → Bool) (a b : CharSet) : CharSet :=
  ⟨switches (fun n => op (a.hasRank n) (b.hasRank n)) false
    (List.merge a.changes b.changes (· ≤ ·))⟩

def union : CharSet → CharSet → CharSet := combine (· || ·)

def inter : CharSet → CharSet → CharSet := combine (· && ·)

def diff : CharSet → CharSet → CharSet := combine fun a b => a && !b

def symmDiff : CharSet → CharSet → CharSet := combine (· != ·)

def compl (s : CharSet) : CharSet := full.diff s

def unions (ss : List CharSet) : CharSet := ss.foldl union empty

/-- The first and the last rank of each run of members. -/
def runs (s : CharSet) : List (Nat × Nat) := pairs s.changes
where
  pairs : List Nat → List (Nat × Nat)
    | first :: next :: rest => (first, next - 1) :: pairs rest
    | _ => []

def isSingle (s : CharSet) : Bool := match s.changes with
  | [first, next] => next = first + 1
  | _ => false

/-! ### ASCII -/

def isAscii (s : CharSet) : Bool := s.changes.all (· ≤ 128)

def digit : CharSet := between '0' '9'

def lower : CharSet := between 'a' 'z'

def upper : CharSet := between 'A' 'Z'

def letter : CharSet := union upper lower

def blank : CharSet := union (between '\t' '\r') (single ' ')

def word : CharSet := unions [digit, letter, single '_']

def visible : CharSet := between '!' '~'

/-- A class of ASCII characters by its name. -/
def named? (name : String) : Option CharSet := match name with
  | "alnum" => some (union digit letter)
  | "alpha" => some letter
  | "ascii" => some (between '\x00' '\x7f')
  | "blank" => some (union (single '\t') (single ' '))
  | "cntrl" => some (union (between '\x00' '\x1f') (single '\x7f'))
  | "digit" => some digit
  | "graph" => some visible
  | "lower" => some lower
  | "print" => some (union (single ' ') visible)
  | "punct" => some (visible.diff (union digit letter))
  | "space" => some blank
  | "upper" => some upper
  | "word" => some word
  | "xdigit" => some (unions [digit, between 'A' 'F', between 'a' 'f'])
  | _ => none

/-- With the letters of ASCII that differ from a member in their case only. -/
def inEitherCase (s : CharSet) : CharSet :=
  unions [s, ⟨(s.inter upper).changes.map (· + 32)⟩, ⟨(s.inter lower).changes.map (· - 32)⟩]

end CharSet

end OutcomeControl
