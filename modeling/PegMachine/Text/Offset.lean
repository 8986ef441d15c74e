/-!
# Signed offsets into a text

Requests from outside may name any integer as an offset. A negative offset counts from the end, and
what still lies outside the text is moved to its nearer end: `clamp` is that rule, and it is the
identity on offsets inside the text.
-/

namespace PegMachine.Text

/-- The offset inside a text of the given length that a signed offset stands for. -/
def clamp (length : Nat) (offset : Int) : Nat :=
  if offset < 0 then (offset + length).toNat else min offset.toNat length

theorem clamp_le (length : Nat) (offset : Int) : clamp length offset ≤ length := by
  unfold clamp
  split <;> omega

/-- An offset inside the text stands for itself. -/
theorem clamp_of_le {length n : Nat} (h : n ≤ length) : clamp length n = n := by
  unfold clamp
  split <;> omega

end PegMachine.Text
