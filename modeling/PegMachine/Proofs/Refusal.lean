import PegMachine.Proofs.Bookkeeping
import PegMachine.Proofs.Coherence
import PegMachine.Regex.Backtracking
import PegMachine.Semantics.Supply

/-!
# A refused call leaves no trace

All that can refuse a call is looked up before anything is changed. So a refused call on a running
machine only counts a step, and when what was missing is supplied the machine goes on as if nothing
had happened (`Machine.refusal_leaves_no_trace`).

That takes two facts about single calls. The count of steps has no say in what a call does
(`advance_late`). And a call that is taken under some rules is taken in the same way under all that
extend them (`advance_of_extends`), since what it looked up is there. So the calls that were taken
before a name was supplied can be moved to the completed rules, one after the other.
-/

namespace PegMachine

section AnyLibrary

variable [RegexLibrary]

namespace Machine

/-! ## The count of steps -/

/-- A call is refused for the same fault, or not at all, and leads to the same machine but for the
steps that were counted before. -/
theorem advance_late (rules : RuleMap) (text : List Char) (machine : Machine) (steps : Nat) :
    ((machine.late steps).advance rules text).fault? = (machine.advance rules text).fault? ∧
      ((machine.late steps).advance rules text).machine =
        (machine.advance rules text).machine.late steps := by
  have haside := advance_aside rules text machine steps machine.traced
  refine ⟨haside.fault, haside.machine.trans ?_⟩
  rw [← traced_advance rules text machine]
  rfl

/-! ## The rules -/

section Rules

variable {rules completed : RuleMap} {text : List Char} {machine : Machine}

/-- A transition that is taken finds the same under rules that extend its own. -/
theorem transition_of_extends (h : completed.Extends rules)
    (htaken : (machine.transition rules text).fault? = none) :
    machine.transition completed text = machine.transition rules text := by
  refine transition_congr fun top below name hstack hname => ?_
  cases hfound : rules.get? name with
  | some item => exact h name item hfound
  | none =>
    rw [transition_of_undefined hstack hname hfound] at htaken
    cases htaken

/-- A call that is not refused is the same under rules that extend its own. -/
theorem advance_of_extends (h : completed.Extends rules)
    (htaken : (machine.advance rules text).fault? = none) :
    machine.advance completed text = machine.advance rules text := by
  by_cases hrunning : machine.status = .running
  · rw [advance_of_running rules text hrunning] at htaken
    rw [advance_of_running rules text hrunning, advance_of_running completed text hrunning]
    exact transition_of_extends h htaken
  · rw [advance_finished rules text hrunning] at htaken
    cases htaken

end Rules

/-! ## Refused calls -/

section Refused

variable {rules : RuleMap} {text : List Char} {name : String} {machine : Machine} {fault : Fault}
  {use : InUse}

/-- A transition that is refused is refused for the frame on top, if that is a new one. -/
theorem refuses_of_fault {item : Item} {offset : Nat} {below : List Frame}
    (hstack : machine.stack = { item, offset } :: below)
    (h : (machine.transition rules text).fault? = some fault) :
    Refuses rules text { item, offset } fault := by
  cases item with
  | separator =>
    rw [transition_of_noRule hstack rfl] at h
    cases h
    exact .notARule rfl rfl
  | atom value =>
    rw [transition_of_noRule hstack rfl] at h
    cases h
    exact .notARule rfl rfl
  | rule r =>
    cases r with
    | ref name =>
      cases hmissing : rules.get? name with
      | none =>
        rw [transition_of_undefined hstack rfl hmissing] at h
        cases h
        exact .undefined rfl hmissing
      | some item =>
        rw [transition_of_defined hstack rfl hmissing] at h
        cases h
    | terminal matcher =>
      cases hrefused : matcher.matchEnd? text offset with
      | some stop =>
        rw [transition_of_match hstack rfl hrefused, succeed_fault?] at h
        cases h
      | none =>
        cases hundescribed : matcher.failureMessage with
        | ok message =>
          rw [transition_of_mismatch hstack rfl hrefused hundescribed, fail_fault?] at h
          cases h
        | error error =>
          rw [transition_of_indescribable hstack rfl hrefused hundescribed] at h
          cases h
          exact .indescribable rfl hrefused hundescribed
    | seq first rest =>
      rw [transition_of_hand hstack rfl rfl rfl] at h
      cases h
    | choice first second rest =>
      rw [transition_of_hand hstack rfl rfl rfl] at h
      cases h

/-- Of a call that is refused nothing is told, and so nothing is printed. -/
theorem printed_refuse (machine : Machine) (fault : Fault) :
    (machine.refuse fault).events = [] ∧ (machine.refuse fault).printed = [] := by
  refine ⟨rfl, ?_⟩
  rw [Outcome.printed]
  split
  · rfl
  · rfl

/-- A call that is refused leaves no trace on a machine, whatever has happened to it before. -/
theorem InUse.Reached.leavesNoTrace (h : use.Reached text name)
    (hfault : (use.machine.advance use.rules text).fault? = some fault) :
    use.LeavesNoTrace text fault := by
  by_cases hrunning : use.machine.status = .running
  · obtain ⟨item, offset, below, hstack⟩ := (h.consistent.coherent.running hrunning).2
    have hadvance := advance_of_running use.rules text hrunning
    rw [hadvance] at hfault
    have hrefused := transition_of_fault hfault
    have hcounted : { use.machine with steps := use.machine.steps + 1 }.stack =
        { item, offset } :: below := hstack
    refine ⟨?_, fun _ => ⟨⟨_, below, hstack, refuses_of_fault hcounted hfault⟩, ?_⟩,
      fun hfinished => absurd hrunning hfinished⟩
    · rw [hadvance, hrefused]
      exact printed_refuse _ fault
    · rw [hadvance, hrefused]
      rfl
  · have hadvance := advance_finished use.rules text hrunning
    rw [hadvance] at hfault
    cases hfault
    refine ⟨?_, fun h => absurd h hrunning, fun _ => ⟨rfl, ?_⟩⟩
    · rw [hadvance]
      exact printed_refuse _ _
    · rw [hadvance]
      rfl

end Refused

/-! ## Runs with supplies -/

section Supplied

variable {rules completed : RuleMap} {text : List Char} {name : String} {traced : Bool}
  {answers : Nat → Item} {s : Supplied}

/-- A call of a run with supplies is taken; or the machine has finished and nothing changes; or the
call counts as a step and the rules are extended, if only by nothing. -/
theorem Supplied.call_cases (h : s.use.Reached text name) (item : Item) :
    ((s.use.machine.advance s.use.rules text).fault? = none ∧
      s.call text item = { s with use := s.use.act text .advance, taken := s.taken + 1 }) ∨
    s.call text item = s ∨
    ∃ rules, rules.Extends s.use.rules ∧
      s.call text item =
        { s with use := { rules, machine := s.use.machine.late 1 }, refused := s.refused + 1 } := by
  unfold Supplied.call
  cases hfault : (s.use.machine.advance s.use.rules text).fault? with
  | none => exact Or.inl ⟨rfl, rfl⟩
  | some fault =>
    right
    have htrace := h.leavesNoTrace hfault
    by_cases hrunning : s.use.machine.status = .running
    · right
      obtain ⟨⟨top, below, -, hrefuses⟩, hmachine⟩ := htrace.running hrunning
      simp only [InUse.act, hmachine]
      cases hrefuses with
      | undefined named missing => exact ⟨_, RuleMap.extends_define missing item, rfl⟩
      | notARule here noRule => exact ⟨_, .refl _, rfl⟩
      | indescribable terminal refused undescribed => exact ⟨_, .refl _, rfl⟩
    · left
      obtain ⟨rfl, hmachine⟩ := htrace.finished hrunning
      simp only [InUse.act, hmachine]

/-- The machine of a run with supplies has been called and its rules edited, and no more. -/
theorem supplied_reached (rules : RuleMap) (text : List Char) (name : String) (traced : Bool)
    (answers : Nat → Item) (calls : Nat) :
    (supplied rules text name traced answers calls).use.Reached text name := by
  induction calls with
  | zero => exact ⟨rules, traced, [], rfl⟩
  | succ calls ih =>
    rw [supplied, Supplied.call]
    split
    · exact ih.act .advance
    · exact ih.act .advance
    · exact (ih.act .advance).act (.edit _)
    · exact ih.act .advance

/-- The rules of a run with supplies are only ever extended. -/
theorem supplied_extends {calls later : Nat} (h : calls ≤ later) :
    (supplied rules text name traced answers later).use.rules.Extends
      (supplied rules text name traced answers calls).use.rules := by
  induction h with
  | refl => exact .refl _
  | @step later _ ih =>
    rw [supplied]
    have hreached := supplied_reached rules text name traced answers later
    rcases Supplied.call_cases hreached (answers later) with
      ⟨-, hcall⟩ | hcall | ⟨extended, hextends, hcall⟩
    · rw [hcall]
      exact ih
    · rw [hcall]
      exact ih
    · rw [hcall]
      exact hextends.trans ih

namespace Supplied.AsUnrefused

/-- A call that is taken is taken over the completed rules too. -/
theorem take (h : s.AsUnrefused completed text name traced) (hextends : completed.Extends s.use.rules)
    (htaken : (s.use.machine.advance s.use.rules text).fault? = none) :
    { s with use := s.use.act text .advance, taken := s.taken + 1 }.AsUnrefused completed text
      name traced := by
  have hsame := advance_of_extends hextends htaken
  obtain ⟨hfault, hmachine⟩ :=
    advance_late completed text ((start name traced).after completed text s.taken) s.refused
  rw [← h.machine, hsame] at hfault hmachine
  constructor
  · intro made hmade
    rcases Nat.lt_succ_iff_lt_or_eq.1 hmade with hearlier | rfl
    · exact h.unrefused made hearlier
    · rw [← hfault]
      exact htaken
  · rw [after_succ]
    exact hmachine

/-- A call that is refused counts as a step. -/
theorem refuse (h : s.AsUnrefused completed text name traced) (rules : RuleMap) :
    { s with use := { rules, machine := s.use.machine.late 1 },
             refused := s.refused + 1 }.AsUnrefused completed text name traced := by
  refine ⟨h.unrefused, ?_⟩
  show s.use.machine.late 1 = _
  rw [h.machine]
  simp only [late, Nat.add_assoc]

end Supplied.AsUnrefused

/-- A run with supplies is as if the rules had been complete from the start. -/
theorem supplied_asUnrefused {calls : Nat}
    (h : completed.Extends (supplied rules text name traced answers calls).use.rules) :
    (supplied rules text name traced answers calls).AsUnrefused completed text name traced := by
  induction calls with
  | zero => exact ⟨nofun, rfl⟩
  | succ calls ih =>
    rw [supplied] at h ⊢
    -- the completed rules extend those of now, and with them those of every call before
    have hreached := supplied_reached rules text name traced answers calls
    rcases Supplied.call_cases hreached (answers calls) with
      ⟨htaken, hcall⟩ | hcall | ⟨extended, hextends, hcall⟩
    · rw [hcall] at h ⊢
      exact (ih h).take h htaken
    · rw [hcall] at h ⊢
      exact ih h
    · rw [hcall] at h ⊢
      exact (ih (h.trans hextends)).refuse extended

end Supplied

/-- In all states of a machine, whatever calls, runs and edits of its rules have led there, a call
that is refused leaves no trace. So a run in which missing names are supplied is, at all times, where
a run over the completed rules would be, and none of the calls of that one is refused. -/
theorem refusal_leaves_no_trace (text : List Char) (name : String) :
    (∀ use : InUse, use.Reached text name → ∀ fault,
      (use.machine.advance use.rules text).fault? = some fault → use.LeavesNoTrace text fault) ∧
    ∀ rules traced answers calls later, calls ≤ later →
      (supplied rules text name traced answers calls).AsUnrefused
        (supplied rules text name traced answers later).use.rules text name traced :=
  ⟨fun _ hreached _ hfault => hreached.leavesNoTrace hfault,
    fun _ _ _ _ _ hlater => supplied_asUnrefused (supplied_extends hlater)⟩

/-- A run that misses one name, which is supplied as a terminal that matches. -/
def Supplied.sample (calls : Nat) : Supplied :=
  supplied .sample ['a'] "Gap" true (fun _ => .rule (.terminal (.literal "a"))) calls

end Machine

end AnyLibrary

namespace Machine

theorem refusal_leaves_no_trace_sample :
    (Supplied.sample 1).use.Reached ['a'] "Gap" ∧
      ((Supplied.sample 1).use.machine.advance (Supplied.sample 1).use.rules ['a']).fault? =
        some (.undefined ⟨"Missing"⟩) ∧
      (Supplied.sample 1).use.LeavesNoTrace ['a'] (.undefined ⟨"Missing"⟩) ∧
      (Supplied.sample 2).AsUnrefused (Supplied.sample 4).use.rules ['a'] "Gap" true ∧
      (Supplied.sample 4).use.machine.status = .accepted ∧ (Supplied.sample 4).taken = 3 ∧
      (Supplied.sample 4).refused = 1 :=
  have hreached : (Supplied.sample 1).use.Reached ['a'] "Gap" := ⟨.sample, true, [.advance], by decide⟩
  have hfault : ((Supplied.sample 1).use.machine.advance (Supplied.sample 1).use.rules
    ['a']).fault? = some (.undefined ⟨"Missing"⟩) := by decide
  have ⟨hrefused, hsupplied⟩ := refusal_leaves_no_trace ['a'] "Gap"
  ⟨hreached, hfault, hrefused _ hreached _ hfault, hsupplied .sample true _ 2 4 (by decide),
    by decide, by decide, by decide⟩

end Machine

end PegMachine
