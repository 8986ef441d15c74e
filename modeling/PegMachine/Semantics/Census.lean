import PegMachine.Semantics.Origins

/-!
# All frames of a run

Most frames that a run creates are gone from its stack when it ends. `Machine.births` lists them all,
each by the number of the call that pushed it, and `Machine.visitsTo` counts the calls that found a
frame on top of the stack: only then is it evaluated. Both look at the first calls of a run from a
name; a run is `Unrefused` for as many calls as were taken one after the other.
-/

namespace PegMachine.Machine

variable [RegexLibrary]

section Run

variable (rules : RuleMap) (text : List Char) (name : String)

/-- None of the given number of calls is refused. -/
def Unrefused (calls : Nat) : Prop :=
  ∀ made < calls, (((start name).after rules text made).advance rules text).fault? = none

instance (calls : Nat) : Decidable (Unrefused rules text name calls) :=
  inferInstanceAs (Decidable (∀ made < calls, _))

/-- The births of all frames that the given number of calls have created, the first one and those
that are gone included: once for each push that a call tells of, the number of the call. -/
def births : (calls : Nat) → List Nat
  | 0 => [0]
  | calls + 1 =>
    let outcome := ((start name).after rules text calls).advance rules text
    births calls ++ List.replicate (outcome.events.countP Event.isPush) (calls + 1)

/-- The birth of the frame that is on top after the given number of calls. -/
def topBorn? (calls : Nat) : Option Nat :=
  (origins rules text name calls).getLast?.map Origin.born

/-- How many of the given number of calls have found the frame of a birth on top. -/
def visitsTo (born calls : Nat) : Nat :=
  (List.range calls).countP fun made => topBorn? rules text name made = some born

end Run

end PegMachine.Machine
