import PegMachine.Proofs.Transition

/-!
# The stages of a run

A run from a name is an evaluation under way, one transition for each visit, until the evaluation
comes to its verdict. Then the machine accepts, rejects, or is refused by every further call, and
nothing changes but the count of steps. `Machine.Stage` says so of the machine after a number of
calls, together with the mismatches that the calls have told of; a call leads from a stage to a
stage (`Machine.Stage.advance`), and so every machine of a run is at one (`Machine.stage`).

Runs from a name are those of a machine that is not traced; a traced one is called with the same results
(`Machine.after_traced`).
-/

namespace PegMachine

variable [RegexLibrary]

namespace Verdict

/-- A text of the given length is not what the verdict succeeds on. -/
def Rejects (length : Nat) : Verdict → Prop
  | .success _ stop => stop ≠ length
  | .failure => True
  | .fault _ => False

/-- What is told of a text of the given length when a verdict ends before it: that its end was
expected. -/
def leftOver (length : Nat) : Verdict → List Mismatch
  | .success _ stop => if stop = length then [] else [⟨stop, endOfInputMessage⟩]
  | _ => []

end Verdict

namespace Machine

/-- The mismatches that the given number of calls tell of. -/
def told (rules : RuleMap) (text : List Char) : (calls : Nat) → Machine → List Mismatch
  | 0, _ => []
  | calls + 1, machine =>
    (machine.advance rules text).events.filterMap Event.mismatch? ++
      told rules text calls (machine.advance rules text).machine

theorem told_add (rules : RuleMap) (text : List Char) (m n : Nat) (machine : Machine) :
    told rules text (m + n) machine =
      told rules text m machine ++ told rules text n (after rules text m machine) := by
  induction m generalizing machine with
  | zero => simp [told, after]
  | succ m ih => rw [Nat.succ_add, told, ih, told, after, List.append_assoc]

theorem told_succ (rules : RuleMap) (text : List Char) (calls : Nat) (machine : Machine) :
    told rules text (calls + 1) machine = told rules text calls machine ++
      ((after rules text calls machine).advance rules text).events.filterMap Event.mismatch? := by
  rw [told_add, told, told, List.append_nil]

theorem advance_of_running (rules : RuleMap) (text : List Char) {machine : Machine}
    (h : machine.status = .running) :
    machine.advance rules text =
      { machine with steps := machine.steps + 1 }.transition rules text := by
  unfold advance
  rw [h]

theorem advance_running (rules : RuleMap) (text : List Char) (stack : List Frame)
    (failures : FurthestFailures) (steps : Nat) :
    (running stack failures steps).advance rules text =
      (running stack failures (steps + 1)).transition rules text :=
  rfl

theorem advance_finished (rules : RuleMap) (text : List Char) {machine : Machine}
    (h : machine.status ≠ .running) :
    machine.advance rules text = machine.refuse .finished := by
  unfold advance
  split
  · next hrunning => exact absurd hrunning h
  · rfl

end Machine

section Run

variable {rules : RuleMap} {text : List Char} {item : Item} {tree : OpenDerivation}
  {log : List Mismatch} {visits : Nat}

/-- A call on a machine that holds an evaluation under way and nothing else. -/
theorem Underway.advance (h : Underway rules text item 0 tree log visits)
    (failures : FurthestFailures) (steps : Nat) :
    Advanced rules text item 0 [] failures (steps + 1) log visits
      ((Machine.running tree.listing.reverse failures steps).advance rules text) := by
  have hadvanced := h.transition (Nat.zero_le _) [] failures (steps + 1)
  rw [List.append_nil] at hadvanced
  exact hadvanced

/-- An evaluation that comes to a fault with its next visit is refused. -/
theorem Underway.advance_of_fault {fault : Fault} (h : Underway rules text item 0 tree log visits)
    (hfault : Evaluates rules text (.item item) 0 (.fault fault) log (visits + 1))
    (failures : FurthestFailures) (steps : Nat) :
    (Machine.running tree.listing.reverse failures steps).advance rules text =
      (Machine.running tree.listing.reverse failures (steps + 1)).refuse fault := by
  refine Machine.transition_of_fault ?_
  have hadvanced := h.advance failures steps
  rw [Machine.advance_running] at hadvanced
  generalize Machine.transition _ _ _ = outcome at hadvanced
  cases hadvanced with
  | goesOn underway => exact absurd (underway.begins hfault).1 (Nat.lt_irrefl _)
  | succeeds evaluated => cases (evaluated.deterministic hfault).1
  | fails evaluated => cases (evaluated.deterministic hfault).1
  | faults refused evaluated =>
    cases (evaluated.deterministic hfault).1
    exact refused

/-- A call that is refused has come to its fault with its visit. -/
theorem Underway.fault_of_advance {fault : Fault} (h : Underway rules text item 0 tree log visits)
    {failures : FurthestFailures} {steps : Nat}
    (hfault : ((Machine.running tree.listing.reverse failures steps).advance rules text).fault? =
      some fault) :
    Evaluates rules text (.item item) 0 (.fault fault) log (visits + 1) := by
  have hadvanced := h.advance failures steps
  generalize Machine.advance _ _ _ = outcome at hadvanced hfault
  cases hadvanced with
  | goesOn => cases hfault
  | succeeds => cases (Machine.goOn_fault? _ _ _).symm.trans hfault
  | fails => cases (Machine.backtrack_fault? _).symm.trans hfault
  | faults refused evaluated =>
    cases refused.symm.trans hfault
    exact evaluated

end Run

namespace Machine

/-- The stages of a run from a name: the machine after the given number of calls, and the mismatches
that these calls have told of. -/
inductive Stage (rules : RuleMap) (text : List Char) (name : String) :
    Nat → Machine → List Mismatch → Prop where
  | underway {tree log calls}
    (h : Underway rules text (.rule (.ref name)) 0 tree log calls) :
    Stage rules text name calls
      (.running tree.listing.reverse (FurthestFailures.empty.recordAll log) calls) log
  | refused {tree log visits calls fault}
    (h : Underway rules text (.rule (.ref name)) 0 tree log visits)
    (comesOut : Evaluates rules text (.rule (.ref name)) 0 (.fault fault) log (visits + 1))
    (since : visits < calls) :
    Stage rules text name calls
      (.running tree.listing.reverse (FurthestFailures.empty.recordAll log) calls) log
  | accepted {tree log visits calls}
    (comesOut : Evaluates rules text (.rule (.ref name)) 0 (.success [tree] text.length) log visits)
    (since : visits ≤ calls) :
    Stage rules text name calls
      { stack := tree.listing.reverse, failures := .empty, status := .accepted, steps := visits } log
  | rejected {verdict log visits calls}
    (comesOut : Evaluates rules text (.rule (.ref name)) 0 verdict log visits)
    (rejects : verdict.Rejects text.length) (since : visits ≤ calls) :
    Stage rules text name calls
      { stack := [],
        failures := FurthestFailures.empty.recordAll (log ++ verdict.leftOver text.length),
        status := .rejected, steps := visits } (log ++ verdict.leftOver text.length)

variable {rules : RuleMap} {text : List Char} {name : String} {calls : Nat}

/-- A success of the start name ends the run: on the whole text the machine accepts, before its end
it rejects and tells so. -/
theorem Stage.of_success {trees : List Derivation} {stop : Nat} {log new : List Mismatch}
    {events : List Event}
    (evaluated : Evaluates rules text (.rule (.ref name)) 0 (.success trees stop) (log ++ new)
      (calls + 1))
    (htold : events.filterMap Event.mismatch? = new) {result : Outcome}
    (hresult : result = (running (Derivation.listingAll trees).reverse
      (FurthestFailures.empty.recordAll (log ++ new)) (calls + 1)).goOn text stop) :
    Stage rules text name (calls + 1) result.machine
      (log ++ (events ++ result.events).filterMap Event.mismatch?) := by
  obtain ⟨tree, rfl⟩ := evaluated.singleton_trees
  rw [goOn_of_closed (evaluated.closed_stack trivial)] at hresult
  by_cases hstop : stop = text.length
  · rw [if_pos hstop] at hresult
    subst hresult hstop
    have hlisting : Derivation.listingAll [tree] = tree.listing := by simp [Derivation.listingAll]
    rw [Event.mismatches_append htold rfl, hlisting]
    exact .accepted evaluated (Nat.le_refl _)
  · rw [if_neg hstop] at hresult
    subst hresult
    have hleft : (Verdict.success [tree] stop).leftOver text.length = [⟨stop, endOfInputMessage⟩] :=
      if_neg hstop
    have hrejected : Stage rules text name (calls + 1) _ _ :=
      .rejected evaluated hstop (Nat.le_refl _)
    rw [hleft, FurthestFailures.recordAll_append, List.append_assoc] at hrejected
    rw [List.filterMap_append, htold]
    exact hrejected

/-- A failure of the start name ends the run: the machine rejects. -/
theorem Stage.of_failure {log new : List Mismatch} {events : List Event}
    (evaluated : Evaluates rules text (.rule (.ref name)) 0 .failure (log ++ new) (calls + 1))
    (htold : events.filterMap Event.mismatch? = new) {result : Outcome}
    (hresult : result = (running [] (FurthestFailures.empty.recordAll (log ++ new))
      (calls + 1)).backtrack) :
    Stage rules text name (calls + 1) result.machine
      (log ++ (events ++ result.events).filterMap Event.mismatch?) := by
  rw [backtrack_nil] at hresult
  subst hresult
  have hleft : Verdict.failure.leftOver text.length = [] := rfl
  have hrejected : Stage rules text name (calls + 1) _ _ :=
    .rejected evaluated trivial (Nat.le_refl _)
  rw [hleft, List.append_nil] at hrejected
  rw [Event.mismatches_append htold rfl]
  exact hrejected

/-- An evaluation under way is carried on, or the machine comes to its last stage. -/
theorem Stage.advance_underway {tree : OpenDerivation} {log : List Mismatch}
    (h : Underway rules text (.rule (.ref name)) 0 tree log calls) {outcome : Outcome}
    (houtcome : (running tree.listing.reverse (FurthestFailures.empty.recordAll log) calls).advance
      rules text = outcome) :
    Stage rules text name (calls + 1) outcome.machine
      (log ++ outcome.events.filterMap Event.mismatch?) := by
  have hadvanced := h.advance (FurthestFailures.empty.recordAll log) calls
  rw [houtcome] at hadvanced
  cases hadvanced with
  | goesOn underway htold =>
    subst htold
    rw [← FurthestFailures.recordAll_append, List.append_nil]
    exact .underway underway
  | succeeds evaluated htold =>
    rw [← FurthestFailures.recordAll_append, List.append_nil]
    exact of_success evaluated htold rfl
  | fails evaluated htold =>
    rw [← FurthestFailures.recordAll_append]
    exact of_failure evaluated htold rfl
  | faults refused evaluated =>
    have hrefused : Stage rules text name (calls + 1) _ _ := .refused h evaluated (Nat.lt_succ_self _)
    rw [← houtcome, h.advance_of_fault evaluated]
    show Stage rules text name (calls + 1) _ (log ++ [])
    rw [List.append_nil]
    exact hrefused

/-- A call leads from a stage of a run to a stage. -/
theorem Stage.advance {machine : Machine} {told : List Mismatch}
    (h : Stage rules text name calls machine told) :
    Stage rules text name (calls + 1) (machine.advance rules text).machine
      (told ++ (machine.advance rules text).events.filterMap Event.mismatch?) := by
  cases h with
  | underway h => exact advance_underway h rfl
  | refused h comesOut since =>
    rw [h.advance_of_fault comesOut]
    show Stage rules text name (calls + 1) _ (told ++ [])
    rw [List.append_nil]
    exact .refused h comesOut (Nat.lt_succ_of_lt since)
  | accepted comesOut since =>
    rw [advance_finished rules text (by simp)]
    show Stage rules text name (calls + 1) _ (told ++ [])
    rw [List.append_nil]
    exact .accepted comesOut (Nat.le_succ_of_le since)
  | @rejected verdict log _ _ comesOut rejects since =>
    rw [advance_finished rules text (by simp)]
    show Stage rules text name (calls + 1) _ (log ++ verdict.leftOver text.length ++ [])
    rw [List.append_nil]
    exact .rejected comesOut rejects (Nat.le_succ_of_le since)

/-- Every machine of a run from a name is at a stage. -/
theorem stage (rules : RuleMap) (text : List Char) (name : String) (calls : Nat) :
    Stage rules text name calls ((start name).after rules text calls)
      ((start name).told rules text calls) := by
  induction calls with
  | zero => exact .underway .begun
  | succ calls ih =>
    rw [after_succ, told_succ]
    exact ih.advance

/-! ## What a stage says of its machine -/

namespace Stage

variable {machine : Machine} {told : List Mismatch}

/-- A running machine holds the evaluation under way, and has recorded what was told of. -/
theorem of_running (h : Stage rules text name calls machine told)
    (hstatus : machine.status = .running) :
    ∃ tree visits, Underway rules text (.rule (.ref name)) 0 tree told visits ∧ visits ≤ calls ∧
      machine = .running tree.listing.reverse (FurthestFailures.empty.recordAll told) calls := by
  cases h with
  | underway h => exact ⟨_, calls, h, Nat.le_refl _, rfl⟩
  | refused h comesOut since => exact ⟨_, _, h, Nat.le_of_lt since, rfl⟩
  | accepted => cases hstatus
  | rejected => cases hstatus

/-- An accepting machine holds the derivation of the text and no failures. -/
theorem of_accepted (h : Stage rules text name calls machine told)
    (hstatus : machine.status = .accepted) :
    ∃ tree visits,
      Evaluates rules text (.rule (.ref name)) 0 (.success [tree] text.length) told visits ∧
        machine = { stack := tree.listing.reverse, failures := .empty, status := .accepted,
                    steps := visits } := by
  cases h with
  | underway => cases hstatus
  | refused => cases hstatus
  | accepted comesOut since => exact ⟨_, _, comesOut, rfl⟩
  | rejected => cases hstatus

/-- A rejecting machine is empty, and has recorded what was told of: the mismatches of the
evaluation, and the end of the text if that was expected. -/
theorem of_rejected (h : Stage rules text name calls machine told)
    (hstatus : machine.status = .rejected) :
    ∃ verdict log visits, Evaluates rules text (.rule (.ref name)) 0 verdict log visits ∧
      verdict.Rejects text.length ∧ told = log ++ verdict.leftOver text.length ∧
      machine = { stack := [], failures := FurthestFailures.empty.recordAll told,
                  status := .rejected, steps := visits } := by
  cases h with
  | underway => cases hstatus
  | refused => cases hstatus
  | accepted => cases hstatus
  | rejected comesOut rejects since => exact ⟨_, _, _, comesOut, rejects, rfl, rfl⟩

/-- A running machine is refused for a fault only if the evaluation comes to it. -/
theorem of_fault (h : Stage rules text name calls machine told) (hstatus : machine.status = .running)
    {fault : Fault} (hfault : (machine.advance rules text).fault? = some fault) :
    ∃ log visits, Evaluates rules text (.rule (.ref name)) 0 (.fault fault) log visits := by
  cases h with
  | underway h => exact ⟨_, _, h.fault_of_advance hfault⟩
  | refused h comesOut since =>
    rw [h.advance_of_fault comesOut] at hfault
    cases hfault
    exact ⟨_, _, comesOut⟩
  | accepted => cases hstatus
  | rejected => cases hstatus

/-- When as many calls are made as the evaluation makes visits, the machine is as its verdict says.
An evaluation that is still under way would have made fewer. -/
theorem of_evaluates (h : Stage rules text name calls machine told) {verdict : Verdict}
    {log : List Mismatch} (hverdict : Evaluates rules text (.rule (.ref name)) 0 verdict log calls) :
    (∀ trees, verdict = .success trees text.length → machine.status = .accepted) ∧
      (verdict.Rejects text.length → machine.status = .rejected) ∧
      (∀ fault, verdict = .fault fault → machine.status = .running ∧
        (machine.advance rules text).fault? = some fault) := by
  cases h with
  | underway h => exact absurd (h.begins hverdict).1 (Nat.lt_irrefl _)
  | refused h comesOut since =>
    obtain ⟨rfl, -, -⟩ := hverdict.deterministic comesOut
    refine ⟨nofun, False.elim, ?_⟩
    rintro _ ⟨⟩
    rw [h.advance_of_fault comesOut]
    exact ⟨rfl, rfl⟩
  | accepted comesOut since =>
    obtain ⟨rfl, -, -⟩ := hverdict.deterministic comesOut
    exact ⟨fun _ _ => rfl, fun hstop => absurd rfl hstop, nofun⟩
  | rejected comesOut rejects since =>
    obtain ⟨rfl, -, -⟩ := hverdict.deterministic comesOut
    refine ⟨?_, fun _ => rfl, ?_⟩
    · rintro _ rfl
      exact absurd rfl rejects
    · rintro _ rfl
      exact rejects.elim

end Stage

end Machine

end PegMachine
