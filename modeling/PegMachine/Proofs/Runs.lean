import PegMachine.Program
import PegMachine.Proofs.Checked

/-!
# How a run of a grammar comes out

A run comes out with a finished machine, with a refused call, or with its fuel used up
(`Machine.RunsTo`). That of a grammar may also ask for a name that is not defined
(`Grammar.ComesTo`). Unless the fuel is used up, more of it changes nothing (`Grammar.run_add`,
`Grammar.parse_add`). In a checked grammar of rule expressions no call is refused, so the only fault
is that of a name that was asked for and is not defined (`Grammar.run_fault_iff`).
-/

namespace PegMachine

variable [RegexLibrary]

namespace Machine

/-- How a run of a machine comes out: with a machine that has finished, with a call that is refused,
or with one that has made as many calls as there is fuel. -/
inductive RunsTo (rules : RuleMap) (text : List Char) (fuel : Nat) (machine : Machine) :
    Outcome → Prop where
  | finished {calls events} (finished : (machine.after rules text calls).status ≠ .running) :
    RunsTo rules text fuel machine { machine := machine.after rules text calls, events }
  | refused {calls last events fault}
    (running : (machine.after rules text calls).status = .running)
    (refused : ((machine.after rules text calls).advance rules text).fault? = some fault) :
    RunsTo rules text fuel machine { machine := last, events, fault? := some fault }
  | outOfFuel {events} (running : (machine.after rules text fuel).status = .running) :
    RunsTo rules text fuel machine { machine := machine.after rules text fuel, events }

section Run

variable {rules : RuleMap} {text : List Char} {machine : Machine}

/-- A machine that has finished is what its run comes out with. -/
theorem RunsTo.of_finished (h : machine.status ≠ .running) (fuel : Nat) (events : List Event) :
    RunsTo rules text fuel machine { machine, events } := by
  have hnow : (machine.after rules text 0).status ≠ .running := h
  exact .finished hnow

/-- A run that begins with a call comes out as the rest of it does. -/
theorem RunsTo.of_advance {fuel : Nat} {outcome : Outcome}
    (h : RunsTo rules text fuel (machine.advance rules text).machine outcome) :
    RunsTo rules text (fuel + 1) machine outcome := by
  cases h with
  | @finished calls _ hfinished =>
    have hlater : (machine.after rules text (calls + 1)).status ≠ .running := hfinished
    exact .finished hlater
  | @refused calls _ _ _ hrunning hrefused =>
    have hlater : (machine.after rules text (calls + 1)).status = .running := hrunning
    exact .refused hlater hrefused
  | outOfFuel hrunning => exact .outOfFuel hrunning

/-- A run comes out in one of the three ways. -/
theorem runsTo_runFrom (fuel : Nat) (log : List Event) :
    RunsTo rules text fuel machine (runFrom rules text fuel machine log) := by
  induction fuel generalizing machine log with
  | zero =>
    rw [runFrom]
    by_cases hrunning : machine.status = .running
    · exact .outOfFuel hrunning
    · exact .of_finished hrunning 0 _
  | succ fuel ih =>
    by_cases hrunning : machine.status = .running
    · rw [runFrom, hrunning]
      cases hfault : (machine.advance rules text).fault? with
      | none =>
        simp only [hfault]
        exact (ih _).of_advance
      | some fault =>
        simp only [hfault]
        have hnow : (machine.after rules text 0).status = .running := hrunning
        exact .refused hnow hfault
    · rw [runFrom_of_finished hrunning]
      exact .of_finished hrunning _ _

end Run

end Machine

namespace Grammar

/-- How a run of a grammar comes out. -/
inductive ComesTo (grammar : Grammar) (fuel : Nat) (text : List Char) (override : Option String) :
    RunResult → Prop where
  | unnamed {error} (missing : grammar.startName override = .error error) :
    ComesTo grammar fuel text override (.fault (.undefined error))
  | finished {name calls} (named : grammar.startName override = .ok name)
    (finished : ((Machine.start name).after grammar.rules text calls).status ≠ .running) :
    ComesTo grammar fuel text override
      (.report (((Machine.start name).after grammar.rules text calls).report text))
  | refused {name calls fault} (named : grammar.startName override = .ok name)
    (running : ((Machine.start name).after grammar.rules text calls).status = .running)
    (refused : (((Machine.start name).after grammar.rules text calls).advance grammar.rules
      text).fault? = some fault) :
    ComesTo grammar fuel text override (.fault fault)
  | outOfFuel {name} (named : grammar.startName override = .ok name)
    (running : ((Machine.start name).after grammar.rules text fuel).status = .running) :
    ComesTo grammar fuel text override .outOfFuel

section Run

variable {grammar : Grammar} {text : List Char} {override : Option String} {name : String}

/-- A run starts from the start name of the grammar, or from the name that it is asked to start from
if that is defined. -/
theorem startName_eq_ok_iff :
    grammar.startName override = .ok name ↔
      (override = none ∧ grammar.start = name) ∨
        (override = some name ∧ grammar.rules.contains name = true) := by
  cases override with
  | none => simp [startName]
  | some asked =>
    rw [startName, RuleMap.require, RuleMap.contains]
    cases hfound : grammar.rules.get? asked with
    | none =>
      suffices hnot : asked = name → grammar.rules.get? name = none by simpa [Except.map] using hnot
      exact fun hsame => hsame ▸ hfound
    | some item =>
      suffices hthen : asked = name → (grammar.rules.get? name).isSome by
        simpa [Except.map] using hthen
      exact fun hsame => hsame ▸ Option.isSome_iff_exists.2 ⟨item, hfound⟩

/-- It does not start if it is asked to start from a name that is not defined. -/
theorem startName_eq_error_iff {error : UndefinedRule} :
    grammar.startName override = .error error ↔
      override = some error.name ∧ grammar.rules.get? error.name = none := by
  obtain ⟨missing⟩ := error
  cases override with
  | none => simp [startName]
  | some asked =>
    rw [startName, RuleMap.require]
    cases hfound : grammar.rules.get? asked with
    | none =>
      suffices hthen : asked = missing → grammar.rules.get? missing = none by
        simpa [Except.map] using hthen
      exact fun hsame => hsame ▸ hfound
    | some item =>
      suffices hnot : asked = missing → grammar.rules.get? missing ≠ none by
        simpa [Except.map] using hnot
      exact fun hsame => hsame ▸ Option.ne_none_iff_exists'.2 ⟨item, hfound⟩

/-- The name that a run of a checked grammar starts from is defined. -/
theorem contains_of_startName (hcheck : grammar.check = .ok ())
    (h : grammar.startName override = .ok name) : grammar.rules.contains name = true := by
  rcases startName_eq_ok_iff.1 h with ⟨-, rfl⟩ | ⟨-, hcontains⟩
  · exact check_eq_ok_iff.1 hcheck _ (Or.inr rfl)
  · exact hcontains

/-- A run of a grammar comes out as that of the machine that it starts. -/
theorem comesTo_run (grammar : Grammar) (fuel : Nat) (text : List Char)
    (override : Option String) :
    grammar.ComesTo fuel text override (grammar.run fuel text override).1 := by
  rw [run]
  cases hname : grammar.startName override with
  | error error => exact .unnamed hname
  | ok name =>
    have hruns : Machine.RunsTo grammar.rules text fuel (.start name)
      ((Machine.start name).run grammar.rules text fuel) := Machine.runsTo_runFrom fuel []
    simp only
    generalize (Machine.start name).run grammar.rules text fuel = outcome at hruns ⊢
    cases hruns with
    | refused hrunning hrefused => exact .refused hname hrunning hrefused
    | outOfFuel hrunning =>
      simp only [hrunning]
      exact .outOfFuel hname hrunning
    | finished hfinished =>
      simp only
      exact .finished hname hfinished

/-- More fuel does not change a run that did not use it up. -/
theorem run_add {fuel : Nat} {traced : Bool}
    (h : (grammar.run fuel text override traced).1 ≠ .outOfFuel) (more : Nat) :
    grammar.run (fuel + more) text override traced = grammar.run fuel text override traced := by
  unfold run at h ⊢
  cases hname : grammar.startName override with
  | error error => rfl
  | ok name =>
    have hended : ((Machine.start name traced).run grammar.rules text fuel).fault? ≠ none ∨
        ((Machine.start name traced).run grammar.rules text fuel).machine.status ≠ .running := by
      by_contra hneither
      obtain ⟨hfault, hrunning⟩ := not_or.1 hneither
      simp only [hname, not_not.1 hfault, not_not.1 hrunning] at h
      exact h rfl
    have hsame : (Machine.start name traced).run grammar.rules text (fuel + more) =
      (Machine.start name traced).run grammar.rules text fuel := Machine.runFrom_add hended more
    simp only [hsame]

/-- A parse uses up its fuel if the run does. -/
theorem parse_eq_outOfFuel_iff {fuel : Nat} :
    grammar.parse fuel text override = .outOfFuel ↔
      (grammar.run fuel text override).1 = .outOfFuel := by
  rw [parse]
  cases (grammar.run fuel text override).1 with
  | fault => simp
  | outOfFuel => simp
  | report report =>
    simp only
    split <;> simp

/-- A parse is at fault for what the run is. -/
theorem parse_eq_fault_iff {fuel : Nat} {fault : Fault} :
    grammar.parse fuel text override = .fault fault ↔
      (grammar.run fuel text override).1 = .fault fault := by
  rw [parse]
  cases (grammar.run fuel text override).1 with
  | fault => simp
  | outOfFuel => simp
  | report report =>
    simp only
    split <;> simp

/-- More fuel does not change a parse that did not use it up. -/
theorem parse_add {fuel : Nat} (h : grammar.parse fuel text override ≠ .outOfFuel) (more : Nat) :
    grammar.parse (fuel + more) text override = grammar.parse fuel text override := by
  rw [parse, parse, run_add (fun hrun => h (parse_eq_outOfFuel_iff.2 hrun))]

/-- A run of a checked grammar of rule expressions is at fault exactly if it was asked to start from
a name that is not defined, and for that name. -/
theorem run_fault_iff (hcheck : grammar.check = .ok ()) (hrules : grammar.rules.Expressions)
    {fuel : Nat} {fault : Fault} :
    (grammar.run fuel text override).1 = .fault fault ↔
      ∃ name, override = some name ∧ grammar.rules.get? name = none ∧
        fault = .undefined ⟨name⟩ := by
  constructor
  · intro hfault
    have hcomes := grammar.comesTo_run fuel text override
    rw [hfault] at hcomes
    cases hcomes with
    | @unnamed error hunnamed =>
      obtain ⟨hasked, hmissing⟩ := startName_eq_error_iff.1 hunnamed
      exact ⟨error.name, hasked, hmissing, rfl⟩
    | refused hnamed hrunning hrefused =>
      have hnone := Machine.fault?_of_sound (sound_of_check hcheck hrules)
        (contains_of_startName hcheck hnamed) hrunning
      rw [hnone] at hrefused
      cases hrefused
  · rintro ⟨name, hasked, hmissing, rfl⟩
    rw [run, startName_eq_error_iff.2 ⟨hasked, hmissing⟩]

end Run

end Grammar

end PegMachine
