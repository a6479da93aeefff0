import OutcomeControl.Number.Double

/-! The shortest decimal that rounds back to a double.

The reals that round to a finite double form an interval around it. On the decimal grid of
spacing `10 ^ e` at most the two neighbours of the value can be the nearest point, so the search
goes from coarse grids to fine ones and stops at the first where a neighbour lies in the interval. -/

namespace OutcomeControl

/-- Which of two decimals equally near to a value stands for it. -/
inductive Tie where
  | up | even
deriving DecidableEq

namespace Double

/-- A positive value with the ends of the interval that rounds to it, all over `2 ^ 1076`. -/
structure Reach where
  value : Nat
  low : Nat
  high : Nat
  /-- Whether the ends themselves round to the value. -/
  closed : Bool

/-- Below a power of two the neighbouring double is half as far away. -/
def reach (d : Double) : Reach :=
  let unit := twoTo d.scale
  let value := 4 * d.significand * unit
  { value
    low := value - (if d.significand = twoTo 52 ∧ 0 < d.scale then unit else 2 * unit)
    high := value + 2 * unit
    closed := d.significand % 2 = 0 }

/-- Numerators of `n * 10 ^ e` and of `v` over `2 ^ 1076`, in a common multiple that makes both
integers. -/
def onGrid (e : Int) (n v : Nat) : Nat × Nat :=
  if 0 ≤ e then (n * tenTo e.toNat * twoTo 1076, v) else (n * twoTo 1076, v * tenTo (-e).toNat)

def Reach.contains (r : Reach) (e : Int) (n : Nat) : Bool :=
  let (x, low) := onGrid e n r.low
  let (_, high) := onGrid e n r.high
  if r.closed then low ≤ x && x ≤ high else low < x && x < high

/-- The point of the grid `10 ^ e` that stands for the value, if one does. -/
def Reach.neighbour (r : Reach) (tie : Tie) (e : Int) : Option Nat :=
  let below := let (unit, v) := onGrid e 1 r.value; v / unit
  let above := below + 1
  match r.contains e below && below ≠ 0, r.contains e above with
  | true, false => some below
  | false, true => some above
  | false, false => none
  | true, true =>
    let (x, v) := onGrid e below r.value
    let (y, _) := onGrid e above r.value
    if v - x < y - v then some below
    else if y - v < v - x then some above
    else match tie with
      | .up => some above
      | .even => some (if below % 2 = 0 then below else above)

/-- The first grid from `10 ^ e` downward that has a point for the value. -/
def Reach.coarsest (r : Reach) (tie : Tie) : Nat → Int → Nat × Int
  | 0, e => (0, e)
  | fuel + 1, e => match r.neighbour tie e with
    | some n => (n, e)
    | none => r.coarsest tie fuel (e - 1)

/-- Digits and exponent of the shortest decimal for a finite double, without its sign. No grid
coarser than the first one tried can have a point, and one of `10 ^ (-1100)` surely has. -/
def shortest (tie : Tie) (d : Double) : Nat × Int :=
  if d.isZero then (0, 0)
  else
    let first := (Nat.toDigits 10 (d.reach.value / twoTo 1076)).length
    d.reach.coarsest tie (first + 1100) first

end Double

end OutcomeControl
