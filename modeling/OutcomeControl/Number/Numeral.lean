import OutcomeControl.Number.Shortest

/-! Decimal numerals: how a number is written, and the double it stands for. -/

namespace OutcomeControl

/-- A decimal as written: sign, digits before and after the point, exponent. Without digits
after the point there is no point. -/
structure Numeral where
  negative : Bool := false
  whole : Nat
  fraction : List (Fin 10) := []
  exponent : Option Int := none
deriving DecidableEq

namespace Numeral

def digit (c : Fin 10) : Char := Char.ofNat (48 + c.val)

/-- The last decimal digit of a number. -/
def digitOf (n : Nat) : Fin 10 := Fin.ofNat 10 n

/-- The decimal digits of a number, the first one first. -/
def digitsOf (n : Nat) : List (Fin 10) := (Nat.toDigits 10 n).map fun c => digitOf (c.toNat - 48)

/-- The last `count` decimal digits of a number. -/
def lastDigits : Nat → Nat → List (Fin 10)
  | 0, _ => []
  | count + 1, n => lastDigits count (n / 10) ++ [digitOf n]

def ofInt (i : Int) : Numeral := { negative := i < 0, whole := i.natAbs }

/-- The integer that a numeral without point and exponent stands for. A negative zero is none. -/
def toInt? (n : Numeral) : Option Int :=
  if n.fraction ≠ [] ∨ n.exponent ≠ none then none
  else if n.negative then (if n.whole = 0 then none else some (-(n.whole : Int)))
  else some n.whole

/-- The text of a numeral; `plus` says whether an exponent shows a positive sign. -/
def text (plus : Bool) (n : Numeral) : String :=
  (if n.negative then "-" else "") ++ toString n.whole
    ++ (if n.fraction.isEmpty then "" else "." ++ String.ofList (n.fraction.map digit))
    ++ match n.exponent with
      | none => ""
      | some e => "e" ++ (if e < 0 then "-" else if plus then "+" else "") ++ toString e.natAbs

/-! ### Reading as a double -/

/-- What a 64-bit word can hold. -/
def wordLimit : Nat := twoTo 64

/-- Takes digits into the word `n` as long as it holds them; the digits from the first that does
not fit are left over. -/
def absorb : Nat → List (Fin 10) → Nat × List (Fin 10)
  | n, [] => (n, [])
  | n, c :: cs => if 10 * n + c.val < wordLimit then absorb (10 * n + c.val) cs else (n, c :: cs)

/-- The leading digits as one word, and the power of ten they are scaled by. Digits of the whole
part that do not fit still count in the power. -/
def scaled (n : Numeral) : Nat × Int :=
  let (w, dropped) := absorb 0 (digitsOf n.whole)
  let (w', rest) := absorb w n.fraction
  (w', dropped.length - (n.fraction.length - rest.length : Nat) + n.exponent.getD 0)

/-- The largest power of ten that a double holds. -/
def topPower : Nat := 308

def powerOfTen (e : Nat) : Double := .ofRatio false (tenTo e) 1

/-- Divides by `10 ^ e`, in steps of the largest power while that is too much for one. A value
that has become zero stays so. -/
def shrink (d : Double) : Nat → Nat → Double
  | 0, e => d.div (powerOfTen (min e topPower))
  | steps + 1, e =>
    if e ≤ topPower then d.div (powerOfTen e)
    else if d.isZero then d
    else shrink (d.div (powerOfTen topPower)) steps (e - topPower)

/-- The double for a numeral: its leading digits as a double, scaled by one power of ten. It is the
nearest one when the digits stay below `2 ^ 53` and the power below `10 ^ 22`, and may be a neighbour
otherwise. There is none when the value is too large. -/
def toDouble? (n : Numeral) : Option Double :=
  let (w, e) := n.scaled
  let d := Double.ofRatio n.negative w 1
  if 0 ≤ e then
    if e ≤ topPower then
      let r := d.mul (powerOfTen e.toNat)
      if r.isFinite then some r else none
    else if w = 0 then some d else none
  else some (shrink d ((-e).toNat / topPower) (-e).toNat)

/-! ### Writing a double -/

/-- How a double is laid out: plain from the exponent `least` of its first digit up to `10 ^ 16`,
with digits after the point always, and with an exponent otherwise. -/
structure Layout where
  least : Int
  tie : Tie

/-- The numeral for a finite double. -/
def ofDouble (layout : Layout) (d : Double) : Numeral :=
  let (n, e) := d.shortest layout.tie
  let digits := digitsOf n
  let first := e + (digits.length - 1 : Nat)
  if d.isZero ∨ (layout.least ≤ first ∧ first < 16) then
    if 0 ≤ e then { negative := d.isNegative, whole := n * tenTo e.toNat, fraction := [digitOf 0] }
    else
      let places := (-e).toNat
      { negative := d.isNegative, whole := n / tenTo places, fraction := lastDigits places n }
  else
    { negative := d.isNegative, whole := n / tenTo (digits.length - 1), fraction := digits.tail,
      exponent := some first }

/-- Doubles in program text: plain from `0.0001`, and of two shortest decimals the larger. -/
def programText : Layout := ⟨-4, .up⟩

/-- Doubles in JSON text: plain from `0.00001`, and of two shortest decimals the even one. -/
def jsonText : Layout := ⟨-5, .even⟩

end Numeral

/-- A double in program text. -/
def Double.text (d : Double) : String :=
  if d.isFinite then (Numeral.ofDouble Numeral.programText d).text false
  else if Double.infinity < d.magnitude then "NaN"
  else if d.isNegative then "-inf" else "inf"

end OutcomeControl
