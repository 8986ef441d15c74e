import Mathlib.Data.Nat.Find
import PegMachine.Proofs.Census
import PegMachine.Proofs.InFlight
import PegMachine.Semantics.Endings

/-!
# What an ending shows

A run ends if and only if the evaluation of its name comes to a verdict, and what there is then can be
told from the gist of that verdict, the mismatches that were met and the number of evaluations
(`Gist.Shown`): `Run.endsIn_of_meaning` and `Run.EndsIn.meaning`. It is what the run with fuel comes
back with, if there is enough of it (`Run.endsIn_iff_outcome`), and nothing else (`Run.EndsIn.unique`).
So two runs match as soon as their meanings do (`Run.matches_of_meanings`).
-/

namespace PegMachine

variable [RegexLibrary]

namespace Gist

/-- The fault that the gist is. -/
def fault? : Gist → Option Fault
  | .fault f => some f
  | _ => none

/-- How far a machine is that has come to the gist in a text of the given length. -/
def status (length : Nat) : Gist → Status
  | .success _ stop => if stop = length then .accepted else .rejected
  | .failure => .rejected
  | .fault _ => .running

/-- What is told of a text of the given length when the gist is a success before its end. -/
def leftOver (length : Nat) : Gist → List Mismatch
  | .success _ stop => if stop = length then [] else [⟨stop, endOfInputMessage⟩]
  | _ => []

/-- What was read, of a success. -/
def readings : Gist → List Reading
  | .success readings _ => readings
  | _ => []

/-- What an ending shows of the gist that a run in a text of the given length has come to. -/
structure Shown (gist : Gist) (length : Nat) (log : List Mismatch) (visits : Nat)
    (ending : Ending) : Prop where
  fault : ending.fault? = gist.fault?
  status : ending.machine.status = gist.status length
  failures : ending.machine.failures =
    if gist.status length = .accepted then .empty
    else FurthestFailures.empty.recordAll (log ++ gist.leftOver length)
  readings : ending.machine.status = .accepted → ending.machine.readings = gist.readings
  steps : ending.machine.steps = visits

end Gist

/-- With fuel the calls that are taken are made, as long as it lasts. -/
theorem Machine.runFrom_of_taken {rules : RuleMap} {text : List Char} {machine : Machine}
    {calls : Nat}
    (taken : ∀ made < calls, ((machine.after rules text made).advance rules text).fault? = none)
    (fuel : Nat) (told : List Event) :
    ∃ told', machine.runFrom rules text (calls + fuel) told =
      (machine.after rules text calls).runFrom rules text fuel told' := by
  induction calls generalizing machine told with
  | zero =>
    rw [Nat.zero_add]
    exact ⟨told, rfl⟩
  | succ calls ih =>
    have hfirst : (machine.advance rules text).fault? = none := taken 0 (Nat.succ_pos calls)
    rw [Nat.succ_add, runFrom, (steps_of_taken hfirst).1]
    simp only [hfirst]
    exact ih (fun made hmade => taken (made + 1) (Nat.succ_lt_succ hmade)) _

namespace Run

/-- The meaning of what a run starts from. -/
def meaning (run : Run) : Meaning := (Rule.ref run.name).meaning run.rules run.text

section Evaluation

variable {run : Run} {calls : Nat}

/-- A machine that has finished shows what the name has come to. -/
theorem shown_of_finished (hfinished : (run.after calls).status ≠ .running) :
    ∃ verdict log visits,
      Evaluates run.rules run.text (.rule (.ref run.name)) 0 verdict log visits ∧
        verdict.gist.Shown run.text.length log visits { machine := run.after calls } := by
  have hstage := Machine.stage run.rules run.text run.name calls
  rw [after] at hfinished ⊢
  generalize (Machine.start run.name).after run.rules run.text calls = machine
    at hstage hfinished ⊢
  generalize (Machine.start run.name).told run.rules run.text calls = told at hstage
  cases hstage with
  | underway => exact absurd rfl hfinished
  | refused => exact absurd rfl hfinished
  | @accepted tree told visits _ comesOut since =>
    refine ⟨_, told, visits, comesOut, rfl, ?_, ?_, fun _ => ?_, rfl⟩
    · exact (if_pos rfl).symm
    · exact (if_pos (if_pos rfl)).symm
    · rw [Machine.readings, Machine.frames, List.reverse_reverse]
      simp [Verdict.gist, Gist.readings, Derivation.listingAll]
  | @rejected verdict log visits _ comesOut rejects since =>
    have hstatus : verdict.gist.status run.text.length = .rejected := by
      cases verdict with
      | success trees stop => exact if_neg rejects
      | failure => rfl
      | fault => exact rejects.elim
    have hleft : verdict.gist.leftOver run.text.length = verdict.leftOver run.text.length := by
      cases verdict <;> rfl
    have hne : Status.rejected ≠ .accepted := by decide
    refine ⟨verdict, log, visits, comesOut, ?_, hstatus.symm, ?_, fun h => absurd h hne, rfl⟩
    · cases verdict with
      | success => rfl
      | failure => rfl
      | fault => exact rejects.elim
    · rw [hstatus, hleft]
      exact (if_neg hne).symm

/-- The first call that is refused shows the fault that the name has come to. -/
theorem shown_of_refused {fault : Fault} (taken : run.Takes calls)
    (running : (run.after calls).status = .running)
    (refused : ((run.after calls).advance run.rules run.text).fault? = some fault) :
    ∃ verdict log visits,
      Evaluates run.rules run.text (.rule (.ref run.name)) 0 verdict log visits ∧
        verdict.gist.Shown run.text.length log visits
          { machine := ((run.after calls).advance run.rules run.text).machine,
            fault? := some fault } := by
  have hstage := Machine.stage run.rules run.text run.name calls
  rw [after] at running refused ⊢
  generalize (Machine.start run.name).after run.rules run.text calls = machine
    at hstage running refused ⊢
  generalize (Machine.start run.name).told run.rules run.text calls = told at hstage
  cases hstage with
  | underway hunderway =>
    have hevaluated : Evaluates run.rules run.text (.rule (.ref run.name)) 0 (.fault fault) told
      (calls + 1) := hunderway.fault_of_advance refused
    rw [hunderway.advance_of_fault hevaluated]
    have hne : Status.running ≠ .accepted := by decide
    have htold : told ++ (Verdict.fault fault).gist.leftOver run.text.length = told :=
      List.append_nil told
    refine ⟨_, told, calls + 1, hevaluated, rfl, rfl, ?_, fun h => absurd h hne, rfl⟩
    rw [htold]
    exact (if_neg hne).symm
  | @refused tree log visits _ _ hunderway comesOut since =>
    -- a call that was made before would have been refused already
    obtain ⟨tree', hunderway', hmachine⟩ :=
      (Machine.stage run.rules run.text run.name visits).underway_of_le hunderway (Nat.le_refl _)
    obtain ⟨-, hlog⟩ := hunderway'.unique hunderway
    have htaken := taken visits since
    rw [hmachine, hunderway'.advance_of_fault (hlog ▸ comesOut)] at htaken
    cases htaken
  | accepted => cases running
  | rejected => cases running

end Evaluation

/-- An ending shows what comes out of the name. -/
theorem EndsIn.meaning {run : Run} {ending : Ending} (h : run.EndsIn ending) :
    ∃ gist log visits, run.meaning 0 gist log visits ∧
      gist.Shown run.text.length log visits ending := by
  cases h with
  | finished taken finished =>
    obtain ⟨verdict, log, visits, hverdict, hshown⟩ := shown_of_finished finished
    exact ⟨_, log, visits, ⟨verdict, hverdict, rfl⟩, hshown⟩
  | refused taken running refused =>
    obtain ⟨verdict, log, visits, hverdict, hshown⟩ := shown_of_refused taken running refused
    exact ⟨_, log, visits, ⟨verdict, hverdict, rfl⟩, hshown⟩

/-- A run ends if not all of its calls find a running machine and are taken. -/
theorem exists_endsIn {run : Run}
    (h : ∃ calls, ¬ ((run.after calls).status = .running ∧
      ((run.after calls).advance run.rules run.text).fault? = none)) :
    ∃ ending, run.EndsIn ending := by
  have hlast := Nat.find_spec h
  have taken : run.Takes (Nat.find h) := fun made hmade => (not_not.1 (Nat.find_min h hmade)).2
  by_cases hrunning : (run.after (Nat.find h)).status = .running
  · obtain ⟨fault, hfault⟩ := Option.ne_none_iff_exists'.1 fun hnone => hlast ⟨hrunning, hnone⟩
    exact ⟨_, .refused taken hrunning hfault⟩
  · exact ⟨_, .finished taken hrunning⟩

/-- What comes out of the name ends the run, and the ending shows it. -/
theorem endsIn_of_meaning {run : Run} {gist : Gist} {log : List Mismatch} {visits : Nat}
    (h : run.meaning 0 gist log visits) :
    ∃ ending, run.EndsIn ending ∧ gist.Shown run.text.length log visits ending := by
  obtain ⟨verdict, hverdict, rfl⟩ := h
  obtain ⟨ending, hending⟩ := exists_endsIn (Machine.ends_of_gives ⟨log, visits, hverdict⟩)
  obtain ⟨_, log', visits', ⟨verdict', hverdict', rfl⟩, hshown⟩ := hending.meaning
  obtain ⟨rfl, rfl, rfl⟩ := hverdict.deterministic hverdict'
  exact ⟨ending, hending, hshown⟩

/-! ## Runs with fuel -/

/-- A run with fuel makes the calls that are taken, as long as the fuel lasts. -/
theorem Takes.outcome {run : Run} {calls : Nat} (taken : run.Takes calls) (fuel : Nat) :
    ∃ told, run.outcome (calls + fuel) =
      (run.after calls).runFrom run.rules run.text fuel told :=
  Machine.runFrom_of_taken taken fuel []

/-- A run ends as it comes out with enough fuel. -/
theorem EndsIn.outcome {run : Run} {ending : Ending} (h : run.EndsIn ending) :
    ∃ fuel, (run.outcome fuel).IsFinal ∧ (run.outcome fuel).ending = ending := by
  cases h with
  | @finished calls taken finished =>
    obtain ⟨told, houtcome⟩ := taken.outcome 0
    rw [Nat.add_zero, Machine.runFrom] at houtcome
    refine ⟨calls, ?_⟩
    rw [houtcome]
    exact ⟨Or.inr finished, rfl⟩
  | @refused calls fault taken running refused =>
    obtain ⟨told, houtcome⟩ := taken.outcome 1
    rw [Machine.runFrom, running] at houtcome
    simp only [refused] at houtcome
    refine ⟨calls + 1, ?_⟩
    rw [houtcome]
    exact ⟨Or.inl (Option.some_ne_none fault), rfl⟩

/-- Beyond what a run needs its fuel has no say. -/
theorem outcome_unique {run : Run} {fuel enough : Nat} (h : (run.outcome fuel).IsFinal)
    (h' : (run.outcome enough).IsFinal) : run.outcome fuel = run.outcome enough := by
  have hmore : run.outcome (fuel + enough) = run.outcome fuel := Machine.runFrom_add h enough
  have hmore' : run.outcome (enough + fuel) = run.outcome enough := Machine.runFrom_add h' fuel
  rw [← hmore, Nat.add_comm, hmore']

/-- A run ends in one way only. -/
theorem EndsIn.unique {run : Run} {ending ending' : Ending} (h : run.EndsIn ending)
    (h' : run.EndsIn ending') : ending = ending' := by
  obtain ⟨fuel, hfinal, rfl⟩ := h.outcome
  obtain ⟨enough, hfinal', rfl⟩ := h'.outcome
  rw [outcome_unique hfinal hfinal']

/-- A run ends as it comes out with enough fuel, and in no other way. -/
theorem endsIn_iff_outcome {run : Run} {ending : Ending} :
    run.EndsIn ending ↔ ∃ fuel, (run.outcome fuel).IsFinal ∧ (run.outcome fuel).ending = ending := by
  refine ⟨EndsIn.outcome, ?_⟩
  rintro ⟨fuel, hfinal, rfl⟩
  obtain ⟨ending, hending⟩ : ∃ ending, run.EndsIn ending := by
    apply exists_endsIn
    by_contra hon
    have hgoes : ∀ calls, (run.after calls).status = .running ∧
        ((run.after calls).advance run.rules run.text).fault? = none := by
      intro calls
      by_contra hnot
      exact hon ⟨calls, hnot⟩
    have taken : run.Takes fuel := fun made _ => (hgoes made).2
    obtain ⟨told, houtcome⟩ := taken.outcome 0
    rw [Nat.add_zero, Machine.runFrom] at houtcome
    rw [houtcome] at hfinal
    rcases hfinal with hfault | hstatus
    · exact hfault rfl
    · exact hstatus (hgoes fuel).1
  obtain ⟨enough, hfinal', rfl⟩ := hending.outcome
  rw [outcome_unique hfinal hfinal']
  exact hending

/-- A run accepts the text if it comes out so with some fuel. -/
theorem acceptsIn_of_outcome {run : Run} {fuel calls : Nat}
    (haccepted : (run.outcome fuel).machine.status = .accepted)
    (hsteps : (run.outcome fuel).machine.steps = calls) : run.AcceptsIn calls := by
  have hfinal : (run.outcome fuel).IsFinal := Or.inr (haccepted ▸ nofun)
  exact ⟨_, endsIn_iff_outcome.2 ⟨fuel, hfinal, rfl⟩, haccepted, hsteps⟩

/-! ## Runs that match -/

/-- Two runs match if whatever comes out of the one has a counterpart that comes out of the other, and
endings that show the two are related. -/
theorem matches_of_meanings {run other : Run} {related : Ending → Ending → Prop}
    (counterparts : Gist → List Mismatch → Nat → Gist → List Mismatch → Nat → Prop)
    (ahead : ∀ gist log visits, run.meaning 0 gist log visits → ∃ gist' log' visits',
      other.meaning 0 gist' log' visits' ∧ counterparts gist log visits gist' log' visits')
    (back : ∀ gist' log' visits', other.meaning 0 gist' log' visits' → ∃ gist log visits,
      run.meaning 0 gist log visits ∧ counterparts gist log visits gist' log' visits')
    (shown : ∀ gist log visits gist' log' visits' ending ending',
      counterparts gist log visits gist' log' visits' →
      gist.Shown run.text.length log visits ending →
      gist'.Shown other.text.length log' visits' ending' → related ending ending') :
    run.Matches related other where
  ahead := by
    intro ending h
    obtain ⟨gist, log, visits, hmeaning, hshown⟩ := h.meaning
    obtain ⟨gist', log', visits', hmeaning', hcounterparts⟩ := ahead gist log visits hmeaning
    obtain ⟨ending', h', hshown'⟩ := endsIn_of_meaning hmeaning'
    exact ⟨ending', h', shown _ _ _ _ _ _ _ _ hcounterparts hshown hshown'⟩
  back := by
    intro ending' h'
    obtain ⟨gist', log', visits', hmeaning', hshown'⟩ := h'.meaning
    obtain ⟨gist, log, visits, hmeaning, hcounterparts⟩ := back gist' log' visits' hmeaning'
    obtain ⟨ending, h, hshown⟩ := endsIn_of_meaning hmeaning
    exact ⟨ending, h, shown _ _ _ _ _ _ _ _ hcounterparts hshown hshown'⟩

end Run

end PegMachine
