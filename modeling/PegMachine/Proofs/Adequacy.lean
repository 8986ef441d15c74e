import PegMachine.Proofs.Expressions
import PegMachine.Proofs.Stages
import PegMachine.Regex.Backtracking

/-!
# Runs and the recursive evaluation

A run from a name ends as the recursive evaluation of that name comes out, and does not end if the
evaluation has no verdict (`Machine.run_iff_evaluation`). From verdict to run, the stage after as
many calls as the evaluation makes visits cannot be an evaluation under way; from run to verdict,
each last stage carries the evaluation that led to it.
-/

namespace PegMachine

section AnyLibrary

variable [RegexLibrary]

/-- The rule of a name comes to a verdict at the start of a text. -/
def RuleMap.Gives (rules : RuleMap) (text : List Char) (name : String) (verdict : Verdict) : Prop :=
  ∃ log visits, Evaluates rules text (.rule (.ref name)) 0 verdict log visits

namespace Machine

section Run

variable {rules : RuleMap} {text : List Char} {name : String}

/-- A machine accepts if and only if the name succeeds at the end of the text. -/
theorem accepts_iff :
    (∃ calls, ((start name).after rules text calls).status = .accepted) ↔
      ∃ trees, rules.Gives text name (.success trees text.length) := by
  constructor
  · rintro ⟨calls, hstatus⟩
    obtain ⟨tree, visits, hsuccess, -⟩ := (stage rules text name calls).of_accepted hstatus
    exact ⟨[tree], _, visits, hsuccess⟩
  · rintro ⟨trees, log, visits, hsuccess⟩
    exact ⟨visits, ((stage rules text name visits).of_evaluates hsuccess).1 trees rfl⟩

/-- A machine rejects if and only if the name fails, or succeeds before the end of the text. -/
theorem rejects_iff :
    (∃ calls, ((start name).after rules text calls).status = .rejected) ↔
      rules.Gives text name .failure ∨
        ∃ trees stop, stop ≠ text.length ∧ rules.Gives text name (.success trees stop) := by
  constructor
  · rintro ⟨calls, hstatus⟩
    obtain ⟨verdict, log, visits, hverdict, hrejects, -⟩ :=
      (stage rules text name calls).of_rejected hstatus
    cases verdict with
    | success trees stop => exact Or.inr ⟨trees, stop, hrejects, log, visits, hverdict⟩
    | failure => exact Or.inl ⟨log, visits, hverdict⟩
    | fault => exact hrejects.elim
  · rintro (⟨log, visits, hfailure⟩ | ⟨trees, stop, hstop, log, visits, hsuccess⟩)
    · exact ⟨visits, ((stage rules text name visits).of_evaluates hfailure).2.1 trivial⟩
    · exact ⟨visits, ((stage rules text name visits).of_evaluates hsuccess).2.1 hstop⟩

/-- A running machine is refused for a fault if and only if the name comes to it. -/
theorem refused_iff {fault : Fault} :
    (∃ calls, ((start name).after rules text calls).status = .running ∧
        (((start name).after rules text calls).advance rules text).fault? = some fault) ↔
      rules.Gives text name (.fault fault) := by
  constructor
  · rintro ⟨calls, hstatus, hfault⟩
    exact (stage rules text name calls).of_fault hstatus hfault
  · rintro ⟨log, visits, hfault⟩
    exact ⟨visits, ((stage rules text name visits).of_evaluates hfault).2.2 fault rfl⟩

/-- A machine refuses a call as undefined only while it is running. -/
theorem running_of_undefined {machine : Machine} {error : UndefinedRule}
    (h : (machine.advance rules text).fault? = some (.undefined error)) :
    machine.status = .running := by
  by_cases hstatus : machine.status = .running
  · exact hstatus
  · rw [advance_finished rules text hstatus] at h
    cases h

/-- A call is refused for an undefined name if and only if the start name comes to it. -/
theorem undefined_iff {error : UndefinedRule} :
    (∃ calls, (((start name).after rules text calls).advance rules text).fault? =
        some (.undefined error)) ↔
      rules.Gives text name (.fault (.undefined error)) := by
  rw [← refused_iff]
  constructor
  · rintro ⟨calls, hfault⟩
    exact ⟨calls, running_of_undefined hfault, hfault⟩
  · rintro ⟨calls, -, hfault⟩
    exact ⟨calls, hfault⟩

/-- A verdict ends the run: the machine finishes, or a call is refused. -/
theorem ends_of_gives {verdict : Verdict} (h : rules.Gives text name verdict) :
    ∃ calls, ¬ (((start name).after rules text calls).status = .running ∧
      (((start name).after rules text calls).advance rules text).fault? = none) := by
  cases verdict with
  | success trees stop =>
    by_cases hstop : stop = text.length
    · subst hstop
      obtain ⟨calls, hstatus⟩ := accepts_iff.2 ⟨trees, h⟩
      refine ⟨calls, fun hon => ?_⟩
      rw [hon.1] at hstatus
      cases hstatus
    · obtain ⟨calls, hstatus⟩ := rejects_iff.2 (Or.inr ⟨trees, stop, hstop, h⟩)
      refine ⟨calls, fun hon => ?_⟩
      rw [hon.1] at hstatus
      cases hstatus
  | failure =>
    obtain ⟨calls, hstatus⟩ := rejects_iff.2 (Or.inl h)
    refine ⟨calls, fun hon => ?_⟩
    rw [hon.1] at hstatus
    cases hstatus
  | fault fault =>
    obtain ⟨calls, -, hfault⟩ := refused_iff.2 h
    refine ⟨calls, fun hon => ?_⟩
    rw [hon.2] at hfault
    cases hfault

/-- A machine that has finished, or refuses a call, has come to a verdict. -/
theorem gives_of_ends {calls : Nat}
    (h : ¬ (((start name).after rules text calls).status = .running ∧
      (((start name).after rules text calls).advance rules text).fault? = none)) :
    ∃ verdict, rules.Gives text name verdict := by
  cases hstatus : ((start name).after rules text calls).status with
  | running =>
    cases hfault : (((start name).after rules text calls).advance rules text).fault? with
    | none => exact absurd ⟨hstatus, hfault⟩ h
    | some fault => exact ⟨_, refused_iff.1 ⟨calls, hstatus, hfault⟩⟩
  | accepted =>
    obtain ⟨trees, hsuccess⟩ := accepts_iff.1 ⟨calls, hstatus⟩
    exact ⟨_, hsuccess⟩
  | rejected =>
    rcases rejects_iff.1 ⟨calls, hstatus⟩ with hfailure | ⟨trees, stop, -, hsuccess⟩
    · exact ⟨_, hfailure⟩
    · exact ⟨_, hsuccess⟩

/-- A run goes on for ever if and only if the start name comes to no verdict. -/
theorem goes_on_iff :
    (∀ calls, ((start name).after rules text calls).status = .running ∧
        (((start name).after rules text calls).advance rules text).fault? = none) ↔
      ¬ ∃ verdict, rules.Gives text name verdict := by
  constructor
  · rintro hon ⟨verdict, hgives⟩
    obtain ⟨calls, hends⟩ := ends_of_gives hgives
    exact hends (hon calls)
  · intro hnone calls
    refine Decidable.byContradiction fun hends => ?_
    exact hnone (gives_of_ends hends)

end Run

end Machine

/-- Over a map of rule expressions the verdicts on a name are success, failure, and the fault of an
undefined name. -/
theorem RuleMap.gives_iff {rules : RuleMap} (hrules : rules.Expressions) {text : List Char}
    {name : String} :
    (∃ verdict, rules.Gives text name verdict) ↔
      (∃ trees stop, rules.Gives text name (.success trees stop)) ∨
        rules.Gives text name .failure ∨
        ∃ missing, rules.Gives text name (.fault (.undefined ⟨missing⟩)) := by
  constructor
  · rintro ⟨verdict, log, visits, hverdict⟩
    cases verdict with
    | success trees stop => exact Or.inl ⟨trees, stop, log, visits, hverdict⟩
    | failure => exact Or.inr (Or.inl ⟨log, visits, hverdict⟩)
    | fault fault =>
      have hname : (Goal.rule (.ref name)).IsExpression := by
        intro matcher hmatcher
        rw [Rule.matchers] at hmatcher
        exact absurd hmatcher List.not_mem_nil
      obtain ⟨missing, rfl⟩ := hverdict.undefined_of_fault hrules hname rfl
      exact Or.inr (Or.inr ⟨missing, log, visits, hverdict⟩)
  · rintro (⟨trees, stop, hsuccess⟩ | hfailure | ⟨missing, hfault⟩)
    · exact ⟨_, hsuccess⟩
    · exact ⟨_, hfailure⟩
    · exact ⟨_, hfault⟩

namespace Machine

/-- Over a map of rule expressions a run from a name accepts, rejects, is refused for an undefined
name, or goes on for ever, exactly as the recursive evaluation of the name says. -/
theorem run_iff_evaluation {rules : RuleMap} (hrules : rules.Expressions) (text : List Char)
    (name : String) :
    ((∃ calls, ((start name).after rules text calls).status = .accepted) ↔
        ∃ trees, rules.Gives text name (.success trees text.length)) ∧
      ((∃ calls, ((start name).after rules text calls).status = .rejected) ↔
        rules.Gives text name .failure ∨
          ∃ trees stop, stop ≠ text.length ∧ rules.Gives text name (.success trees stop)) ∧
      (∀ missing,
        (∃ calls, (((start name).after rules text calls).advance rules text).fault? =
          some (.undefined ⟨missing⟩)) ↔
        rules.Gives text name (.fault (.undefined ⟨missing⟩))) ∧
      ((∀ calls, ((start name).after rules text calls).status = .running ∧
          (((start name).after rules text calls).advance rules text).fault? = none) ↔
        ¬ ((∃ trees stop, rules.Gives text name (.success trees stop)) ∨
          rules.Gives text name .failure ∨
          ∃ missing, rules.Gives text name (.fault (.undefined ⟨missing⟩)))) := by
  refine ⟨accepts_iff, rejects_iff, fun missing => undefined_iff, ?_⟩
  rw [goes_on_iff, RuleMap.gives_iff hrules]

end Machine

end AnyLibrary

namespace Machine

theorem run_iff_evaluation_sample :
    RuleMap.sample.Expressions ∧
      (∃ trees, RuleMap.sample.Gives ['a', 'b'] "S" (.success trees 2)) ∧
      RuleMap.sample.Gives ['a', 'b'] "Gap" (.fault (.undefined ⟨"Missing"⟩)) :=
  have hrules : RuleMap.sample.Expressions := by decide
  ⟨hrules, (run_iff_evaluation hrules ['a', 'b'] "S").1.1 ⟨9, by decide⟩,
    ((run_iff_evaluation hrules ['a', 'b'] "Gap").2.2.1 "Missing").1 ⟨1, by decide⟩⟩

end Machine

end PegMachine
