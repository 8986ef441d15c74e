import PegMachine.Machine.Basic

/-!
# Runs

Advancing a machine many times, up to the first fault. How long a run takes is not bounded by the
size of grammar and text, and under a left-recursive grammar it does not end; a run is therefore
given fuel, and stops unfinished when the fuel is used up. More fuel never changes a run that was
not stopped by it.
-/

namespace PegMachine.Machine

variable [RegexLibrary]

/-- The machine after the given number of calls. -/
def after (rules : RuleMap) (text : List Char) : (calls : Nat) → Machine → Machine
  | 0, machine => machine
  | calls + 1, machine => after rules text calls (machine.advance rules text).machine

theorem after_add (rules : RuleMap) (text : List Char) (m n : Nat) (machine : Machine) :
    after rules text (m + n) machine = after rules text n (after rules text m machine) := by
  induction m generalizing machine with
  | zero => simp [after]
  | succ m ih => rw [Nat.succ_add, after, after, ih]

theorem after_succ (rules : RuleMap) (text : List Char) (n : Nat) (machine : Machine) :
    after rules text (n + 1) machine =
      ((after rules text n machine).advance rules text).machine :=
  after_add rules text n 1 machine

/-- The outcomes of up to `count` calls on a machine, one by one, as long as it is running; a fault
is the last. -/
def outcomes (rules : RuleMap) (text : List Char) : (count : Nat) → Machine → List Outcome
  | 0, _ => []
  | count + 1, machine =>
    match machine.status with
    | .running =>
      let outcome := machine.advance rules text
      match outcome.fault? with
      | none => outcome :: outcomes rules text count outcome.machine
      | some _ => [outcome]
    | _ => []

/-- Advances a machine `count` times, or up to the first fault. The log holds what happened before,
latest first. -/
def advanceMany (rules : RuleMap) (text : List Char) :
    (count : Nat) → Machine → (log : List Event) → Outcome
  | 0, machine, log => { machine, events := log.reverse }
  | count + 1, machine, log =>
    let outcome := machine.advance rules text
    let log := outcome.events.reverseAux log
    match outcome.fault? with
    | none => advanceMany rules text count outcome.machine log
    | some fault => { machine := outcome.machine, events := log.reverse, fault? := some fault }

/-- Advances a machine until it has finished or a fault arises, or the fuel is used up. The log
holds what happened before, latest first. -/
def runFrom (rules : RuleMap) (text : List Char) :
    (fuel : Nat) → Machine → (log : List Event) → Outcome
  | 0, machine, log => { machine, events := log.reverse }
  | fuel + 1, machine, log =>
    match machine.status with
    | .running =>
      let outcome := machine.advance rules text
      let log := outcome.events.reverseAux log
      match outcome.fault? with
      | none => runFrom rules text fuel outcome.machine log
      | some fault => { machine := outcome.machine, events := log.reverse, fault? := some fault }
    | _ => { machine, events := log.reverse }

/-- A machine that has finished is left as it is. -/
theorem runFrom_of_finished {rules : RuleMap} {text : List Char} {machine : Machine}
    (h : machine.status ≠ .running) (fuel : Nat) (log : List Event) :
    runFrom rules text fuel machine log = { machine, events := log.reverse } := by
  cases fuel with
  | zero => rfl
  | succ fuel =>
    unfold runFrom
    split
    · next hrunning => exact absurd hrunning h
    · rfl

/-- More fuel does not change a run that ended before its fuel did. -/
theorem runFrom_add {rules : RuleMap} {text : List Char} {fuel : Nat} {machine : Machine}
    {log : List Event}
    (h : (runFrom rules text fuel machine log).fault? ≠ none ∨
      (runFrom rules text fuel machine log).machine.status ≠ .running) (more : Nat) :
    runFrom rules text (fuel + more) machine log = runFrom rules text fuel machine log := by
  induction fuel generalizing machine log with
  | zero =>
    rcases h with h | h
    · exact absurd rfl h
    · exact runFrom_of_finished h _ _
  | succ fuel ih =>
    rw [Nat.succ_add]
    unfold runFrom at h ⊢
    split
    · next hrunning =>
      simp only [hrunning] at h
      cases hfault : (advance rules text machine).fault? with
      | none =>
        simp only [hfault] at h ⊢
        exact ih h
      | some fault => simp only [hfault]
    · rfl

/-- Runs a machine for as long as the fuel lasts. -/
def run (rules : RuleMap) (text : List Char) (fuel : Nat) (machine : Machine) : Outcome :=
  machine.runFrom rules text fuel []

/-- The written form of a machine: its frames from bottom to top, and its furthest failures. -/
def render (machine : Machine) : String :=
  "[StepEngine: steps=[" ++ ", ".intercalate (machine.frames.map Frame.render) ++ "] errors=" ++
    machine.failures.summary ++ "]"

end PegMachine.Machine
