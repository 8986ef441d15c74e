import PegMachine.Semantics.InUse

/-!
# Refused calls, and runs that are supplied

A call may be refused because of the frame on top (`Refuses`). It then leaves no trace on the machine
but the count of steps (`InUse.LeavesNoTrace`), so a run need not end there. In a run with supplies
whoever holds the rules answers every name that is not defined with an item and calls the machine
again: `Machine.supplied` is what has come of it after a number of calls. That the machine cannot tell
this from a run over the completed rules is what `Supplied.AsUnrefused` says.
-/

namespace PegMachine

variable [RegexLibrary]

namespace Machine

/-- The faults for which a transition is refused because of the frame on top. -/
inductive Refuses (rules : RuleMap) (text : List Char) (top : Frame) : Fault → Prop where
  | undefined {name} (named : top.item = .rule (.ref name)) (missing : rules.get? name = none) :
    Refuses rules text top (.undefined ⟨name⟩)
  | notARule {item} (here : top.item = item) (noRule : item.rule? = none) :
    Refuses rules text top (.notARule item)
  | indescribable {matcher error} (terminal : top.item = .rule (.terminal matcher))
    (refused : matcher.matchEnd? text top.offset = none)
    (undescribed : matcher.failureMessage = .error error) :
    Refuses rules text top (.indescribable error)

/-- What a call owes to a machine in use if it is refused for the fault. -/
structure InUse.LeavesNoTrace (text : List Char) (use : InUse) (fault : Fault) : Prop where
  /-- The call tells of nothing, and nothing is printed. -/
  silent : (use.machine.advance use.rules text).events = [] ∧
    (use.machine.advance use.rules text).printed = []
  /-- A running machine is refused for its frame on top, and only counts the step. -/
  running : use.machine.status = .running →
    (∃ top below, use.machine.stack = top :: below ∧ Refuses use.rules text top fault) ∧
      (use.machine.advance use.rules text).machine =
        { use.machine with steps := use.machine.steps + 1 }
  /-- A machine that has finished is refused for that, and stays as it is. -/
  finished : use.machine.status ≠ .running →
    fault = .finished ∧ (use.machine.advance use.rules text).machine = use.machine

/-- The machine after more steps that have changed nothing else. -/
def late (machine : Machine) (steps : Nat) : Machine :=
  { machine with steps := machine.steps + steps }

/-- A machine in use in a run with supplies, with the numbers of its calls that were taken and that
were refused while it was running. -/
structure Supplied where
  use : InUse
  taken : Nat := 0
  refused : Nat := 0
  deriving DecidableEq

/-- One more call. If a name is not defined for which it is refused, the item is put under it. -/
def Supplied.call (text : List Char) (item : Item) (s : Supplied) : Supplied :=
  let called := s.use.act text .advance
  match (s.use.machine.advance s.use.rules text).fault? with
  | none => { s with use := called, taken := s.taken + 1 }
  | some .finished => { s with use := called }
  | some (.undefined error) =>
    { s with use := called.act text (.edit (s.use.rules.define error.name item)),
             refused := s.refused + 1 }
  | some _ => { s with use := called, refused := s.refused + 1 }

/-- A run with supplies, traced or not, after the given number of calls. An answer is an item for
each call, which is not looked at if the call is not refused for an undefined name. -/
def supplied (rules : RuleMap) (text : List Char) (name : String) (traced : Bool)
    (answers : Nat → Item) : (calls : Nat) → Supplied
  | 0 => { use := .start rules name traced }
  | calls + 1 => (supplied rules text name traced answers calls).call text (answers calls)

/-- A run with supplies is where a run over the completed rules is that makes its taken calls only,
none of which is refused there; but the refused ones have been counted as steps. -/
structure Supplied.AsUnrefused (completed : RuleMap) (text : List Char) (name : String)
    (traced : Bool) (s : Supplied) : Prop where
  unrefused : ∀ made < s.taken,
    (((start name traced).after completed text made).advance completed text).fault? = none
  machine : s.use.machine = ((start name traced).after completed text s.taken).late s.refused

end Machine

end PegMachine
