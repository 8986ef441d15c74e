import PegMachine.Matcher
import PegMachine.Text.Offset

/-!
# Matching at any integer

A machine asks a matcher only at offsets inside the text. A caller may ask at any integer: a
negative offset counts from the end of the text. Each kind of matcher has its own rule for offsets
outside the text: a literal and a regular expression move one before the start to the start, a class
refuses it, any character accepts it. The end of a match is counted from the offset as given, except
for regular expressions.
-/

namespace PegMachine

/-- Why an offset cannot be looked at. -/
inductive OffsetError where
  | beforeStart
  | beyondIndex
  deriving DecidableEq, Repr

/-- The message of an offset error. -/
def OffsetError.message : OffsetError → String
  | .beforeStart => "string index out of range"
  | .beyondIndex => "cannot fit 'int' into an index-sized integer"

/-- The least integer that counts as an index at all. -/
def leastIndex : Int := -0x8000000000000000

variable [RegexLibrary]

namespace Matcher

/-- The offset that a signed offset stands for when one before the start is moved to the start. -/
def fromEnd (length : Nat) (offset : Int) : Nat :=
  if offset < 0 then (offset + length).toNat else offset.toNat

/-- The end of the match that starts at a signed offset. -/
def matchEndAt (matcher : Matcher) (text : List Char) (offset : Int) :
    Except OffsetError (Option Int) :=
  match matcher with
  | .literal s =>
    .ok ((matcher.matchEnd? text (fromEnd text.length offset)).map fun _ => offset + s.length)
  | .regex _ => .ok ((matcher.matchEnd? text (Text.clamp text.length offset)).map Int.ofNat)
  | .charClass _ =>
    if offset < -text.length then
      .error (if offset < leastIndex then .beyondIndex else .beforeStart)
    else .ok ((matcher.matchEnd? text (fromEnd text.length offset)).map fun _ => offset + 1)
  | .anyChar => .ok (if offset < text.length then some (offset + 1) else none)

/-- Inside the text a signed offset gives what the machine gets. -/
theorem matchEndAt_of_le {matcher : Matcher} {text : List Char} {n : Nat} (h : n ≤ text.length) :
    matcher.matchEndAt text n = .ok ((matcher.matchEnd? text n).map Int.ofNat) := by
  have hnat : fromEnd text.length n = n := by
    unfold fromEnd
    split <;> omega
  cases matcher with
  | literal s =>
    simp only [matchEndAt, hnat, matchEnd?]
    split <;> simp
  | regex r => simp [matchEndAt, Text.clamp_of_le h]
  | charClass cls =>
    have hneg : ¬ (n : Int) < -(text.length : Int) := by omega
    simp only [matchEndAt, hnat, matchEnd?, if_neg hneg]
    split
    · split <;> simp
    · simp
  | anyChar =>
    simp only [matchEndAt, matchEnd?, Int.ofNat_lt]
    split <;> simp

end Matcher

end PegMachine
