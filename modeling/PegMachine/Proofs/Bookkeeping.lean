import Mathlib.Data.List.Basic
import PegMachine.Program
import PegMachine.Proofs.Stages

/-!
# Steps and traces have no say

A machine counts its steps and knows whether it is traced, and no transition looks at either. With more
steps counted before, traced or not, a call leads to the same machine but for that, or is refused for
the same fault (`Machine.advance_aside`). Whether a machine is traced decides what is printed, and
nothing else: calls, rows of calls and runs do the same with a traced machine (`advance_traced`,
`after_traced`, `runFrom_traced`), and what a run of a grammar gives does not depend on it
(`Grammar.run_traced`). What is proved of a machine that is not traced therefore holds of a traced one.

A run prints what its calls print, one after the other (`printed_run`).
-/

namespace PegMachine

variable [RegexLibrary]

namespace Machine

/-! ## One call -/

/-- The machine with more steps counted, traced or not. -/
def aside (machine : Machine) (steps : Nat) (traced : Bool) : Machine :=
  { machine with steps := machine.steps + steps, traced }

/-- The other outcome has the same fault and the same machine, but that more steps are counted, and
that it is traced or not. Events may differ in the count of steps only. -/
structure Outcome.Aside (outcome : Outcome) (steps : Nat) (traced : Bool) (other : Outcome) :
    Prop where
  machine : other.machine = outcome.machine.aside steps traced
  fault : other.fault? = outcome.fault?
  events : steps = 0 → other.events = outcome.events

theorem Outcome.Aside.tell {outcome other : Outcome} {steps : Nat} {traced : Bool}
    (h : outcome.Aside steps traced other) (event : Event) :
    (outcome.tell event).Aside steps traced (other.tell event) where
  machine := h.machine
  fault := h.fault
  events hnone := congrArg (event :: ·) (h.events hnone)

section Aside

variable (rules : RuleMap) (text : List Char) (machine : Machine) (steps : Nat) (traced : Bool)

theorem refuse_aside (fault : Fault) :
    (machine.refuse fault).Aside steps traced ((machine.aside steps traced).refuse fault) :=
  ⟨rfl, rfl, fun _ => rfl⟩

theorem push_aside (item : Item) (offset : Nat) :
    (machine.push item offset).Aside steps traced
      ((machine.aside steps traced).push item offset) :=
  ⟨rfl, rfl, fun _ => rfl⟩

theorem backtrack_aside :
    machine.backtrack.Aside steps traced (machine.aside steps traced).backtrack := by
  have hstack : (machine.aside steps traced).stack = machine.stack := rfl
  unfold backtrack
  rw [hstack]
  cases retreat machine.stack with
  | none =>
    refine ⟨rfl, rfl, ?_⟩
    rintro rfl
    rfl
  | some found =>
    refine Outcome.Aside.tell (.tell ?_ _) _
    rcases settle (found.1 :: found.2) with ⟨_ | next, stack⟩
    · exact refuse_aside { machine with stack } steps traced .stuck
    · exact push_aside { machine with stack } steps traced next found.1.offset

theorem fail_aside (offset : Nat) (message : String) :
    (machine.fail offset message).Aside steps traced
      ((machine.aside steps traced).fail offset message) :=
  (backtrack_aside { machine with failures := machine.failures.record offset message } steps
    traced).tell _

theorem goOn_aside (offset : Nat) :
    (machine.goOn text offset).Aside steps traced
      ((machine.aside steps traced).goOn text offset) := by
  have hstack : (machine.aside steps traced).stack = machine.stack := rfl
  unfold goOn
  rw [hstack]
  rcases settle machine.stack with ⟨_ | next, stack⟩
  · dsimp only
    split
    · refine ⟨rfl, rfl, ?_⟩
      rintro rfl
      rfl
    · exact fail_aside { machine with stack } steps traced offset endOfInputMessage
  · exact push_aside { machine with stack } steps traced next offset

theorem succeed_aside (top : Frame) (below : List Frame) (value : List Char) :
    (machine.succeed text top below value).Aside steps traced
      ((machine.aside steps traced).succeed text top below value) :=
  (goOn_aside text { machine with stack := { top with value := some value } :: below } steps traced
    (top.offset + value.length)).tell _

theorem transition_aside :
    (machine.transition rules text).Aside steps traced
      ((machine.aside steps traced).transition rules text) := by
  have hstack : (machine.aside steps traced).stack = machine.stack := rfl
  unfold transition
  rw [hstack]
  split
  · exact refuse_aside machine steps traced _
  · next top below _ =>
    split
    · next name _ =>
      cases rules.require name with
      | ok item => exact push_aside machine steps traced item top.offset
      | error error => exact refuse_aside machine steps traced _
    · next matcher _ =>
      cases matcher.matchEnd? text top.offset with
      | some stop => exact succeed_aside text machine steps traced top below _
      | none =>
        cases matcher.failureMessage with
        | ok message => exact fail_aside machine steps traced top.offset message
        | error error => exact refuse_aside machine steps traced _
    · cases top.current? with
      | some item => exact push_aside machine steps traced item top.offset
      | none => exact refuse_aside machine steps traced _
    · exact refuse_aside machine steps traced _

/-- However many steps are counted before, and whether the machine is traced or not, a call is refused
for the same fault, or leads to the same machine but for that. -/
theorem advance_aside :
    (machine.advance rules text).Aside steps traced
      ((machine.aside steps traced).advance rules text) := by
  by_cases hrunning : machine.status = .running
  · have hrunning' : (machine.aside steps traced).status = .running := hrunning
    have hcounted : { machine.aside steps traced with
          steps := (machine.aside steps traced).steps + 1 } =
        { machine with steps := machine.steps + 1 }.aside steps traced := by
      simp only [aside, Nat.add_right_comm]
    rw [advance_of_running rules text hrunning, advance_of_running rules text hrunning', hcounted]
    exact transition_aside rules text { machine with steps := machine.steps + 1 } steps traced
  · have hfinished : (machine.aside steps traced).status ≠ .running := hrunning
    rw [advance_finished rules text hrunning, advance_finished rules text hfinished]
    exact refuse_aside machine steps traced .finished

end Aside

/-! ## Tracing -/

/-- The outcome for a machine that is traced, or not, but does the same. -/
def Outcome.withTraced (traced : Bool) (outcome : Outcome) : Outcome :=
  { outcome with machine := { outcome.machine with traced } }

theorem Outcome.Aside.eq_withTraced {outcome other : Outcome} {traced : Bool}
    (h : outcome.Aside 0 traced other) : other = outcome.withTraced traced := by
  obtain ⟨machine, events, fault?⟩ := other
  obtain ⟨hmachine, hfault, hevents⟩ := h
  obtain rfl := hmachine
  obtain rfl := hfault
  obtain rfl := hevents rfl
  rfl

/-- A call does the same whether the machine is traced or not. -/
theorem advance_traced (rules : RuleMap) (text : List Char) (machine : Machine) (traced : Bool) :
    { machine with traced }.advance rules text =
      (machine.advance rules text).withTraced traced :=
  (advance_aside rules text machine 0 traced).eq_withTraced

/-- So does a row of calls. -/
theorem after_traced (rules : RuleMap) (text : List Char) (name : String) (traced : Bool)
    (calls : Nat) :
    (start name traced).after rules text calls =
      { (start name).after rules text calls with traced } := by
  induction calls with
  | zero => rfl
  | succ calls ih => rw [after_succ, after_succ, ih, advance_traced, Outcome.withTraced]

/-- No call changes whether a machine is traced. -/
theorem traced_advance (rules : RuleMap) (text : List Char) (machine : Machine) :
    (machine.advance rules text).machine.traced = machine.traced :=
  congrArg (fun outcome => outcome.machine.traced)
    (advance_traced rules text machine machine.traced)

/-- A run does the same whether the machine is traced or not. -/
theorem runFrom_traced (rules : RuleMap) (text : List Char) (fuel : Nat) (machine : Machine)
    (traced : Bool) (log : List Event) :
    { machine with traced }.runFrom rules text fuel log =
      (machine.runFrom rules text fuel log).withTraced traced := by
  induction fuel generalizing machine log with
  | zero => rfl
  | succ fuel ih =>
    unfold runFrom
    rw [advance_traced]
    dsimp only [Outcome.withTraced]
    split
    · split
      · exact ih _ _
      · rfl
    · rfl

/-- No run changes whether a machine is traced. -/
theorem traced_runFrom (rules : RuleMap) (text : List Char) (fuel : Nat) (machine : Machine)
    (log : List Event) :
    (machine.runFrom rules text fuel log).machine.traced = machine.traced :=
  congrArg (fun outcome => outcome.machine.traced)
    (runFrom_traced rules text fuel machine machine.traced log)

/-- In a run happens what happens in its calls, after what happened before. -/
theorem events_runFrom (rules : RuleMap) (text : List Char) (fuel : Nat) (machine : Machine)
    (log : List Event) :
    (machine.runFrom rules text fuel log).events =
      log.reverse ++ (machine.outcomes rules text fuel).flatMap Outcome.events := by
  induction fuel generalizing machine log with
  | zero => simp [runFrom, outcomes]
  | succ fuel ih =>
    unfold runFrom outcomes
    split
    · cases hfault : (machine.advance rules text).fault? with
      | none => simp [hfault, ih, List.reverseAux_eq]
      | some fault => simp [hfault, List.reverseAux_eq]
    · simp

/-- The calls of a run leave the machine traced or not as it was. -/
theorem traced_outcomes {rules : RuleMap} {text : List Char} {count : Nat} {machine : Machine}
    {outcome : Outcome} (h : outcome ∈ machine.outcomes rules text count) :
    outcome.machine.traced = machine.traced := by
  induction count generalizing machine with
  | zero => cases h
  | succ count ih =>
    unfold outcomes at h
    split at h
    · have htraced := traced_advance rules text machine
      cases hfault : (machine.advance rules text).fault? with
      | none =>
        simp only [hfault, List.mem_cons] at h
        rcases h with rfl | h
        · exact htraced
        · exact (ih h).trans htraced
      | some fault =>
        simp only [hfault, List.mem_singleton] at h
        rw [h, htraced]
    · cases h

/-- Of a run the same is printed as of its calls, one after the other. -/
theorem printed_run (rules : RuleMap) (text : List Char) (fuel : Nat) (machine : Machine) :
    (machine.run rules text fuel).printed =
      (machine.outcomes rules text fuel).flatMap Outcome.printed := by
  have hprinted : ∀ outcome ∈ machine.outcomes rules text fuel, outcome.printed =
      if machine.traced then outcome.events.map Event.text else [] := by
    intro outcome houtcome
    rw [Outcome.printed, traced_outcomes houtcome]
  rw [List.flatMap_congr hprinted, Outcome.printed, run, traced_runFrom, events_runFrom]
  cases machine.traced with
  | true => simp [List.map_flatMap]
  | false => simp

end Machine

/-- What a run of a grammar gives does not depend on whether it is traced. -/
theorem Grammar.run_traced (grammar : Grammar) (fuel : Nat) (text : List Char)
    (override : Option String) (traced : Bool) :
    (grammar.run fuel text override traced).1 = (grammar.run fuel text override).1 := by
  unfold run
  cases grammar.startName override with
  | error error => rfl
  | ok name =>
    have hrun : (Machine.start name traced).run grammar.rules text fuel =
        ((Machine.start name).run grammar.rules text fuel).withTraced traced :=
      Machine.runFrom_traced grammar.rules text fuel (.start name) traced []
    dsimp only
    rw [hrun]
    generalize (Machine.start name).run grammar.rules text fuel = outcome
    obtain ⟨machine, events, fault?⟩ := outcome
    dsimp only [Machine.Outcome.withTraced]
    split
    · rfl
    · rfl
    · rfl

end PegMachine
