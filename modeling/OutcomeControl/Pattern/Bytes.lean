import OutcomeControl.Pattern.CharSet

/-! Sets of characters as rows of bytes. -/

namespace OutcomeControl.Pattern

/-- Bytes from one to another. -/
abbrev ByteRun := Nat × Nat

/-- How many numbers so many bytes tell apart that follow the first one of a character. -/
def unit : Nat → Nat
  | 0 => 1
  | n + 1 => 64 * unit n

/-- The first byte of a character that so many bytes follow is at least this. -/
def leadOf : Nat → Nat
  | 0 => 0
  | 1 => 0xc0
  | 2 => 0xe0
  | _ => 0xf0

/-- The bytes that follow the first one. -/
def anyTail (n : Nat) : List ByteRun := List.replicate n (0x80, 0xbf)

/-- The numbers from one to another as rows of bytes, of which the first is counted from `lead` and
`n` follow. -/
def byteRows (lead : Nat) : Nat → Nat → Nat → List (List ByteRun)
  | 0, first, last => [[(lead + first, lead + last)]]
  | n + 1, first, last =>
    let u := unit (n + 1)
    let low := first / u
    let high := last / u
    let row (head : Nat) (tails : List (List ByteRun)) : List (List ByteRun) :=
      tails.map ((lead + head, lead + head) :: ·)
    if low = high then row low (byteRows 0x80 n (first % u) (last % u))
    else
      let below := if first % u = 0 then [] else row low (byteRows 0x80 n (first % u) (u - 1))
      let above := if last % u = u - 1 then [] else row high (byteRows 0x80 n 0 (last % u))
      let start := if below.isEmpty then low else low + 1
      let stop := if above.isEmpty then high + 1 else high
      below ++ (if start < stop then [(lead + start, lead + stop - 1) :: anyTail (n + 1)] else [])
        ++ above

/-- Numbers of characters that take as many bytes, and how many bytes follow the first one. -/
def lengthBands : List (Nat × Nat × Nat) :=
  [(0, 0x7f, 0), (0x80, 0x7ff, 1), (0x800, 0xd7ff, 2), (0xe000, 0xffff, 2), (0x10000, 0x10ffff, 3)]

/-- The number of the character at a place in the order of all. -/
def numberAt (rank : Nat) : Nat := if rank < 0xd800 then rank else rank + 0x800

/-- The members of a set as rows of bytes. -/
def rowsOf (s : CharSet) : List (List ByteRun) :=
  s.runs.flatMap fun (first, last) => lengthBands.flatMap fun (low, high, n) =>
    let first := max low (numberAt first)
    let last := min high (numberAt last)
    if first ≤ last then byteRows (leadOf n) n first last else []

end OutcomeControl.Pattern
