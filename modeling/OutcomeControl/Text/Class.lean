/-! Classes of characters, given by the code points where membership changes. -/

namespace OutcomeControl.Text

/-- Membership in the class that starts at the first boundary, stops at the second, starts again at
the third, and so on: an odd number of boundaries lies at or before a member. -/
def inClass (boundaries : List Nat) (c : Char) : Bool :=
  (boundaries.countP (· ≤ c.toNat)) % 2 = 1

end OutcomeControl.Text
