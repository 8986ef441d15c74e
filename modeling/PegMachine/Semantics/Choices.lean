import PegMachine.Semantics.Evaluation
import PegMachine.Semantics.Origins

/-!
# The life of a choice

A choice frame lives from the call that pushes it to the call that pops it. On the way its place
moves and it may be settled, by calls that mostly deal with frames far above it.
`Machine.ChoiceLife` says what the machine owes to the choice: branches are tried in their order,
each from the offset of the choice and not before the one in front of it has failed there; a choice
that is settled stays as it is; and where the next branch is tried the frames below the choice are
those that it was pushed on.
-/

namespace PegMachine.Machine

variable [RegexLibrary]

section Run

variable (rules : RuleMap) (text : List Char) (name : String)

/-- The frame at a height after the given number of calls in a run from a name. -/
def frameAt? (height calls : Nat) : Option Frame :=
  ((start name).after rules text calls).frames[height]?

/-- The frames below a height after the given number of calls, from the bottom up. -/
def framesBelow (height calls : Nat) : List Frame :=
  ((start name).after rules text calls).frames.take height

/-- The frame that was pushed by the call of number `born` stands at the height after the given
number of calls. -/
def Lives (born height calls : Nat) : Prop :=
  (origins rules text name calls)[height]?.map Origin.born = some born

instance (born height calls : Nat) : Decidable (Lives rules text name born height calls) :=
  inferInstanceAs (Decidable (_ = some born))

/-- What holds of a choice while it lives at a height. The call of number `born` has pushed it as
the frame `pushed`. A branch is started by a call that pushes a frame right above the choice. -/
structure ChoiceLife (born height : Nat) (pushed : Frame) : Prop where
  /-- The first branch is in hand when the choice is pushed. -/
  first : pushed.place = 0 ∧ pushed.settled = false
  /-- Nothing but the place and the mark of a settled choice changes. -/
  stays : ∀ calls, Lives rules text name born height calls →
    ∃ place settled, frameAt? rules text name height calls = some { pushed with place, settled }
  /-- The branches come in hand one after the other: the place goes past the separator between. -/
  inOrder : ∀ calls now next, Lives rules text name born height calls →
    Lives rules text name born height (calls + 1) →
    frameAt? rules text name height calls = some now →
    frameAt? rules text name height (calls + 1) = some next →
    next.place = now.place ∨ next.place = now.place + 2
  /-- A frame is pushed right above the choice only for the branch in hand, at the offset of the
  choice. -/
  starts : ∀ calls now, Lives rules text name born height calls →
    Lives rules text name calls (height + 1) calls →
    frameAt? rules text name height calls = some now →
    ∃ branch, now.current? = some (.rule branch) ∧
      frameAt? rules text name (height + 1) calls =
        some { item := .rule branch, offset := pushed.offset }
  /-- No branch is started twice: one that is started later has a later place. -/
  once : ∀ calls later now next, calls < later → Lives rules text name born height calls →
    Lives rules text name calls (height + 1) calls → Lives rules text name born height later →
    Lives rules text name later (height + 1) later →
    frameAt? rules text name height calls = some now →
    frameAt? rules text name height later = some next → now.place < next.place
  /-- The place moves only in a call that ends the evaluation of the branch in hand, and with
  failure: that evaluation was started when the stack was as it is up to the choice. -/
  failed : ∀ calls now next, Lives rules text name born height calls →
    Lives rules text name born height (calls + 1) →
    frameAt? rules text name height calls = some now →
    frameAt? rules text name height (calls + 1) = some next → next.place ≠ now.place →
    ∃ branch started log visits, now.current? = some (.rule branch) ∧ started + visits = calls + 1 ∧
      ((start name).after rules text started).frames =
        framesBelow rules text name height calls ++
          [now, { item := .rule branch, offset := pushed.offset }] ∧
      Evaluates rules text (.rule branch) pushed.offset .failure log visits
  /-- A settled choice stays as it is. -/
  committed : ∀ calls later now next, calls ≤ later → Lives rules text name born height calls →
    Lives rules text name born height later → frameAt? rules text name height calls = some now →
    frameAt? rules text name height later = some next → now.settled = true → next = now
  /-- Where the place moves the frames below are those that the choice was pushed on. -/
  restored : ∀ calls now next, Lives rules text name born height calls →
    Lives rules text name born height (calls + 1) →
    frameAt? rules text name height calls = some now →
    frameAt? rules text name height (calls + 1) = some next → next.place ≠ now.place →
    framesBelow rules text name height calls = framesBelow rules text name height born ∧
      framesBelow rules text name height (calls + 1) = framesBelow rules text name height born

end Run

end PegMachine.Machine
