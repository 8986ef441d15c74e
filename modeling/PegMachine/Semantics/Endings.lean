import PegMachine.Semantics.Census
import PegMachine.Semantics.Meaning

/-!
# How a run ends

A run makes one call after the other until its machine has finished or a call is refused, and an
`Ending` is what there is then. `Run.Matches` compares two runs by their endings: neither ends without
the other, and the endings are related. What is related in an ending is said here too: all that callers
see of it (`Ending.Alike`), all but one message (`Ending.AlikeBut`), or all but a text in front of what
was read (`Ending.Shifted`).
-/

namespace PegMachine

variable [RegexLibrary]

/-- What the frames have read, from the bottom of the stack to its top. -/
def Machine.readings (machine : Machine) : List Reading := machine.frames.filterMap Frame.reading?

/-! ## Runs -/

/-- A run, by what it is started on. -/
structure Run where
  rules : RuleMap
  text : List Char
  name : String

/-- What there is when a run has ended: the machine, and the fault if the last call was refused. -/
structure Ending where
  machine : Machine
  fault? : Option Fault := none

/-- The run has not come back for want of fuel. -/
def Machine.Outcome.IsFinal (outcome : Machine.Outcome) : Prop :=
  outcome.fault? ≠ none ∨ outcome.machine.status ≠ .running

/-- The outcome as an ending. -/
def Machine.Outcome.ending (outcome : Machine.Outcome) : Ending :=
  { machine := outcome.machine, fault? := outcome.fault? }

namespace Run

/-- The machine after the given number of calls. -/
def after (run : Run) (calls : Nat) : Machine :=
  (Machine.start run.name).after run.rules run.text calls

/-- The given number of calls is made and none of them refused. -/
def Takes (run : Run) (calls : Nat) : Prop :=
  Machine.Unrefused run.rules run.text run.name calls

/-- The run makes its calls up to the first that finishes the machine or is refused. -/
inductive EndsIn (run : Run) : Ending → Prop where
  | finished {calls} (taken : run.Takes calls) (finished : (run.after calls).status ≠ .running) :
    EndsIn run { machine := run.after calls }
  | refused {calls fault} (taken : run.Takes calls) (running : (run.after calls).status = .running)
    (refused : ((run.after calls).advance run.rules run.text).fault? = some fault) :
    EndsIn run
      { machine := ((run.after calls).advance run.rules run.text).machine, fault? := some fault }

/-- What the run comes back with when it is given fuel. -/
def outcome (run : Run) (fuel : Nat) : Machine.Outcome :=
  (Machine.start run.name).run run.rules run.text fuel

/-- The run ends with the text accepted, after so many calls. -/
def AcceptsIn (run : Run) (calls : Nat) : Prop :=
  ∃ ending, run.EndsIn ending ∧ ending.machine.status = .accepted ∧ ending.machine.steps = calls

/-- Neither of two runs ends without the other, and their endings are related. -/
structure Matches (related : Ending → Ending → Prop) (run other : Run) : Prop where
  ahead : ∀ ending, run.EndsIn ending → ∃ ending', other.EndsIn ending' ∧ related ending ending'
  back : ∀ ending', other.EndsIn ending' → ∃ ending, run.EndsIn ending ∧ related ending ending'

end Run

/-! ## Related endings -/

namespace Ending

/-- Callers see the same in both endings. Steps and the frames that have read nothing may differ. -/
structure Alike (ending ending' : Ending) : Prop where
  fault : ending'.fault? = ending.fault?
  status : ending'.machine.status = ending.machine.status
  failures : ending'.machine.failures = ending.machine.failures
  readings : ending.machine.status = .accepted →
    ending'.machine.readings = ending.machine.readings

/-- Callers see the same in both endings, but that the second may lack the message. -/
structure AlikeBut (message : String) (ending ending' : Ending) : Prop where
  fault : ending'.fault? = ending.fault?
  status : ending'.machine.status = ending.machine.status
  offset : ending'.machine.failures.offset = ending.machine.failures.offset
  subset : ∀ m, m ∈ ending'.machine.failures.messages → m ∈ ending.machine.failures.messages
  lacks : ∀ m, m ∈ ending.machine.failures.messages →
    m ∈ ending'.machine.failures.messages ∨ m = message
  readings : ending.machine.status = .accepted →
    ending'.machine.readings = ending.machine.readings

/-- Callers see the same in both endings, but that all of it lies further on in the second, where a
text was read before, which took the given number of steps. -/
structure Shifted (before : List Char) (steps : Nat) (ending ending' : Ending) : Prop where
  fault : ending'.fault? = ending.fault?
  status : ending'.machine.status = ending.machine.status
  offset : ending.machine.status = .rejected →
    ending'.machine.failures.offset = ending.machine.failures.offset + before.length
  messages : ending'.machine.failures.messages = ending.machine.failures.messages
  readings : ending.machine.status = .accepted →
    ending'.machine.readings = { offset := 0, text := before } ::
      ending.machine.readings.map (Reading.move (· + before.length))
  steps : ending'.machine.steps = ending.machine.steps + steps

end Ending

end PegMachine
