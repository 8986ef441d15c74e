import PegMachine.Machine.Run

/-!
# A machine in use

A machine does not own the rules that it reads: whoever holds them may change them between any two
calls, put under a name what is no rule, or take a name away that is in use. `Machine.InUse` is a
machine together with the rules as they stand, and `InUse.perform` what comes of a row of calls,
runs and edits.

What every call preserves under any rules, refused or not, is therefore preserved by all that may
happen to a machine (`InUse.perform_invariant`), and holds in all states that it can come to
(`InUse.Reached.invariant`).
-/

namespace PegMachine.Machine

variable [RegexLibrary]

/-- What may happen to a machine in use: it is called once, it is run for as long as the fuel lasts,
or its rules are edited, after which they are the given ones. A run that comes to an end or to a
fault does so with any fuel that is large enough. -/
inductive Act where
  | advance
  | run (fuel : Nat)
  | edit (rules : RuleMap)

/-- A machine with the rules that it reads, as they stand. -/
structure InUse where
  rules : RuleMap
  machine : Machine
  deriving DecidableEq

/-! ## Runs are rows of calls -/

section Runs

variable {rules : RuleMap} {text : List Char} {motive : Machine → Prop}

/-- A run leaves the machine as some number of calls does. -/
theorem runFrom_eq_after (rules : RuleMap) (text : List Char) (fuel : Nat) (machine : Machine)
    (log : List Event) :
    ∃ calls, (runFrom rules text fuel machine log).machine = after rules text calls machine := by
  induction fuel generalizing machine log with
  | zero => exact ⟨0, rfl⟩
  | succ fuel ih =>
    by_cases hrunning : machine.status = .running
    · unfold runFrom
      simp only [hrunning]
      cases hfault : (machine.advance rules text).fault? with
      | none =>
        obtain ⟨calls, hcalls⟩ := ih (machine.advance rules text).machine
          ((machine.advance rules text).events.reverseAux log)
        exact ⟨calls + 1, hcalls⟩
      | some fault => exact ⟨1, rfl⟩
    · rw [runFrom_of_finished hrunning]
      exact ⟨0, rfl⟩

/-- What every call preserves holds after any number of calls. -/
theorem after_invariant
    (hcall : ∀ machine, motive machine → motive (machine.advance rules text).machine)
    (calls : Nat) {machine : Machine} (h : motive machine) :
    motive (after rules text calls machine) := by
  induction calls generalizing machine with
  | zero => exact h
  | succ calls ih => exact ih (hcall machine h)

end Runs

namespace InUse

/-- A machine that is about to evaluate a name, with its rules. -/
def start (rules : RuleMap) (name : String) (traced : Bool := false) : InUse :=
  { rules, machine := .start name traced }

/-- What comes of one act. Only calls and runs change the machine, only edits the rules. -/
def act (text : List Char) (use : InUse) : Act → InUse
  | .advance => { use with machine := (use.machine.advance use.rules text).machine }
  | .run fuel => { use with machine := (use.machine.run use.rules text fuel).machine }
  | .edit rules => { use with rules }

/-- What comes of a row of acts. -/
def perform (text : List Char) : List Act → InUse → InUse
  | [], use => use
  | act :: acts, use => perform text acts (use.act text act)

/-- A state of a machine that started from the name, traced or not, whatever its rules were then and
whatever has happened since. -/
def Reached (text : List Char) (name : String) (use : InUse) : Prop :=
  ∃ rules traced acts, (start rules name traced).perform text acts = use

theorem perform_append (text : List Char) (acts more : List Act) (use : InUse) :
    use.perform text (acts ++ more) = (use.perform text acts).perform text more := by
  induction acts generalizing use with
  | nil => rfl
  | cons act acts ih => exact ih (use.act text act)

/-- One more act leads from a state to a state. -/
theorem Reached.act {text : List Char} {name : String} {use : InUse} (h : use.Reached text name)
    (act : Act) : (use.act text act).Reached text name := by
  obtain ⟨rules, traced, acts, rfl⟩ := h
  exact ⟨rules, traced, acts ++ [act], perform_append text acts [act] (start rules name traced)⟩

/-- What every call preserves, under any rules, is preserved by all acts. -/
theorem perform_invariant {text : List Char} {motive : Machine → Prop}
    (hcall : ∀ rules machine, motive machine → motive (machine.advance rules text).machine)
    (acts : List Act) {use : InUse} (h : motive use.machine) :
    motive (use.perform text acts).machine := by
  induction acts generalizing use with
  | nil => exact h
  | cons act acts ih =>
    apply ih
    cases act with
    | advance => exact hcall use.rules use.machine h
    | run fuel =>
      obtain ⟨calls, hcalls⟩ := runFrom_eq_after use.rules text fuel use.machine []
      show motive (use.machine.run use.rules text fuel).machine
      rw [run, hcalls]
      exact after_invariant (hcall use.rules) calls h
    | edit => exact h

/-- What holds of a machine at its start, and every call preserves under any rules, holds in all
states. -/
theorem Reached.invariant {text : List Char} {name : String} {motive : Machine → Prop}
    {use : InUse} (h : use.Reached text name) (hstart : ∀ traced, motive (.start name traced))
    (hcall : ∀ rules machine, motive machine → motive (machine.advance rules text).machine) :
    motive use.machine := by
  obtain ⟨rules, traced, acts, rfl⟩ := h
  exact perform_invariant hcall acts (hstart traced)

end InUse

end PegMachine.Machine
