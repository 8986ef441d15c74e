import PegMachine.Proofs.Adequacy
import PegMachine.Proofs.Narration
import PegMachine.Proofs.Origins
import PegMachine.Regex.Backtracking
import PegMachine.Semantics.Census

/-!
# One visit to each frame

As long as a run goes on every call creates one frame, which the next call finds on top: so each frame
that was ever created is visited by one call, the one after its birth, and never again, however often
a walk comes back to it (`Machine.visited_once`). The steps of a run are therefore the frames that it
has created, but for the one on top of a running machine, and those of a run that has ended are the
visits that the recursive evaluation of the name makes.
-/

namespace PegMachine.Machine

section AnyLibrary

variable [RegexLibrary]

variable {rules : RuleMap} {text : List Char} {machine : Machine}

/-! ## One call -/

/-- A move creates one frame at most. -/
theorem Moves.countP_isPush {outcome : Outcome} (h : Moves rules text machine outcome) :
    outcome.events.countP Event.isPush = if outcome.pushes then 1 else 0 := by
  cases h with
  | refers | takesUp | goesOn | accepts | leavesOver | resumes | givesUp => rfl

/-- A call creates one frame if it pushes, and else none. -/
theorem countP_isPush_advance (rules : RuleMap) (text : List Char) (machine : Machine) :
    (machine.advance rules text).events.countP Event.isPush =
      if (machine.advance rules text).pushes then 1 else 0 := by
  by_cases h : machine.status = .running
  · rcases advance_cases rules text h with ⟨fault, hadvance⟩ | hmoves
    · rw [hadvance]
      rfl
    · exact hmoves.countP_isPush
  · rw [advance_finished rules text h]
    rfl

/-- A call that is taken counts one step, on a machine that was running. -/
theorem steps_of_taken (h : (machine.advance rules text).fault? = none) :
    machine.status = .running ∧ (machine.advance rules text).machine.steps = machine.steps + 1 := by
  by_cases hrunning : machine.status = .running
  · rcases advance_cases rules text hrunning with ⟨fault, hadvance⟩ | hmoves
    · rw [hadvance] at h
      cases h
    · exact ⟨hrunning, hmoves.steps_traced.1⟩
  · rw [advance_finished rules text hrunning] at h
    cases h

/-! ## The calls of a run -/

section Run

variable {name : String} {calls : Nat}

/-- The calls before a later one are unrefused too. -/
theorem Unrefused.of_le (h : Unrefused rules text name calls) {fewer : Nat} (hle : fewer ≤ calls) :
    Unrefused rules text name fewer :=
  fun made hmade => h made (Nat.lt_of_lt_of_le hmade hle)

/-- While calls are taken the machine is running. -/
theorem Unrefused.running (h : Unrefused rules text name calls) {made : Nat} (hmade : made < calls) :
    ((start name).after rules text made).status = .running :=
  (steps_of_taken (h made hmade)).1

/-- Each call that is taken is a step. -/
theorem Unrefused.steps (h : Unrefused rules text name calls) :
    ((start name).after rules text calls).steps = calls := by
  induction calls with
  | zero => rfl
  | succ calls ih =>
    rw [after_succ, (steps_of_taken (h calls (Nat.lt_succ_self calls))).2,
      ih (h.of_le (Nat.le_succ calls))]

theorem births_succ (rules : RuleMap) (text : List Char) (name : String) (calls : Nat) :
    births rules text name (calls + 1) = births rules text name calls ++
      if (((start name).after rules text calls).advance rules text).pushes then [calls + 1]
      else [] := by
  rw [births, countP_isPush_advance]
  split
  · rfl
  · rfl

/-- The last of the calls that are taken pushes a frame if and only if the machine is running after
it. -/
theorem Unrefused.pushes_iff (h : Unrefused rules text name (calls + 1)) :
    (((start name).after rules text calls).advance rules text).pushes = true ↔
      ((start name).after rules text (calls + 1)).status = .running := by
  rw [Machine.pushes_iff, after_succ]
  exact ⟨fun hpushes => hpushes.2, fun hrunning => ⟨h calls (Nat.lt_succ_self calls), hrunning⟩⟩

/-- A run that goes on has created a frame before its first call, and one in each call since. -/
theorem Unrefused.births_of_running (h : Unrefused rules text name calls)
    (hrunning : ((start name).after rules text calls).status = .running) :
    births rules text name calls = List.range (calls + 1) := by
  induction calls with
  | zero => rfl
  | succ calls ih =>
    have hbefore := h.of_le (Nat.le_succ calls)
    rw [births_succ, if_pos (h.pushes_iff.2 hrunning),
      ih hbefore (h.running (Nat.lt_succ_self calls)), List.range_succ (n := calls + 1)]

/-- The call that ends a run creates no frame. -/
theorem Unrefused.births_of_finished (h : Unrefused rules text name calls)
    (hfinished : ((start name).after rules text calls).status ≠ .running) :
    births rules text name calls = List.range calls := by
  cases calls with
  | zero => exact absurd rfl hfinished
  | succ calls =>
    have hpushes := mt h.pushes_iff.1 hfinished
    rw [births_succ, if_neg hpushes, List.append_nil]
    exact (h.of_le (Nat.le_succ calls)).births_of_running (h.running (Nat.lt_succ_self calls))

/-- In a run that goes on the frame on top is the one that the last call has pushed. -/
theorem Unrefused.topBorn_of_running (h : Unrefused rules text name calls)
    (hrunning : ((start name).after rules text calls).status = .running) :
    topBorn? rules text name calls = some calls := by
  cases calls with
  | zero => rfl
  | succ calls =>
    rw [topBorn?, origins, if_pos (h.pushes_iff.2 hrunning), List.getLast?_concat]
    rfl

/-- A frame is found on top by the call after its birth, and by no other. -/
theorem Unrefused.visitsTo_eq (h : Unrefused rules text name calls) (born : Nat) :
    visitsTo rules text name born calls = if born < calls then 1 else 0 := by
  have htop : ∀ made ∈ List.range calls,
      decide (topBorn? rules text name made = some born) = true ↔ (made == born) = true := by
    intro made hmade
    have hlt := List.mem_range.1 hmade
    rw [(h.of_le (Nat.le_of_lt hlt)).topBorn_of_running (h.running hlt)]
    simp
  rw [visitsTo, List.countP_congr htop]
  exact List.count_range

/-- The frames on the stack are among those that were created, in the order of their births. -/
theorem born_sublist_births (rules : RuleMap) (text : List Char) (name : String) (calls : Nat) :
    ((origins rules text name calls).map Origin.born).Sublist (births rules text name calls) := by
  induction calls with
  | zero => exact .refl _
  | succ calls ih =>
    rw [births_succ, origins, List.map_append, List.map_take]
    apply List.Sublist.append ((List.take_sublist _ _).trans ih)
    split
    · exact .refl _
    · exact .refl _

/-- The steps of a machine that has finished are the visits that the recursive evaluation of the name
makes. -/
theorem evaluates_steps_of_finished
    (h : ((start name).after rules text calls).status ≠ .running) :
    ∃ verdict log, Evaluates rules text (.rule (.ref name)) 0 verdict log
      ((start name).after rules text calls).steps := by
  have hstage := stage rules text name calls
  cases hstatus : ((start name).after rules text calls).status with
  | running => exact absurd hstatus h
  | accepted =>
    obtain ⟨tree, visits, hsuccess, hmachine⟩ := hstage.of_accepted hstatus
    rw [hmachine]
    exact ⟨_, _, hsuccess⟩
  | rejected =>
    obtain ⟨verdict, log, visits, hverdict, -, -, hmachine⟩ := hstage.of_rejected hstatus
    rw [hmachine]
    exact ⟨verdict, log, hverdict⟩

end Run

/-- The frames of a run from a name whose calls are all taken. As long as the machine is running one
frame more was created than steps were made: the one on top was not visited yet, and each other one
by one call. When the machine has finished, frames and steps are equal in number, each frame was
visited by one call, and the steps are the visits of the recursive evaluation. -/
theorem visited_once (rules : RuleMap) (text : List Char) (name : String) (calls : Nat) :
    (Unrefused rules text name calls →
        (births rules text name calls).Nodup ∧
        ((origins rules text name calls).map Origin.born).Sublist (births rules text name calls) ∧
        (((start name).after rules text calls).status = .running →
          (births rules text name calls).length =
            ((start name).after rules text calls).steps + 1 ∧
          ∃ top ∈ births rules text name calls, topBorn? rules text name calls = some top ∧
            visitsTo rules text name top calls = 0 ∧
            ∀ born ∈ births rules text name calls, born ≠ top →
              visitsTo rules text name born calls = 1) ∧
        (((start name).after rules text calls).status ≠ .running →
          (births rules text name calls).length = ((start name).after rules text calls).steps ∧
          ∀ born ∈ births rules text name calls, visitsTo rules text name born calls = 1)) ∧
      (((start name).after rules text calls).status ≠ .running →
        ∃ verdict log, Evaluates rules text (.rule (.ref name)) 0 verdict log
          ((start name).after rules text calls).steps) := by
  refine ⟨fun h => ?_, evaluates_steps_of_finished⟩
  have hsublist := born_sublist_births rules text name calls
  rw [h.steps]
  by_cases hrunning : ((start name).after rules text calls).status = .running
  · rw [h.births_of_running hrunning] at hsublist ⊢
    refine ⟨List.nodup_range, hsublist, fun _ => ⟨List.length_range, calls, ?_⟩,
      fun hfinished => absurd hrunning hfinished⟩
    refine ⟨List.mem_range.2 (Nat.lt_succ_self calls), h.topBorn_of_running hrunning, ?_,
      fun born hborn hother => ?_⟩
    · rw [h.visitsTo_eq, if_neg (Nat.lt_irrefl calls)]
    · have hlt := List.mem_range.1 hborn
      rw [h.visitsTo_eq, if_pos (by omega)]
  · rw [h.births_of_finished hrunning] at hsublist ⊢
    refine ⟨List.nodup_range, hsublist, fun hon => absurd hon hrunning,
      fun _ => ⟨List.length_range, fun born hborn => ?_⟩⟩
    rw [h.visitsTo_eq, if_pos (List.mem_range.1 hborn)]

end AnyLibrary

/-- A run that goes back twice, over a choice that is visited once. -/
theorem visited_once_sample :
    Unrefused .sample ['a', 'd'] "S" 10 ∧
      ((start "S").after .sample ['a', 'd'] 10).status = .rejected ∧
      visitsTo .sample ['a', 'd'] "S" 1 10 = 1 ∧
      ∃ verdict log, Evaluates .sample ['a', 'd'] (.rule (.ref "S")) 0 verdict log 10 :=
  have htaken : Unrefused .sample ['a', 'd'] "S" 10 := by decide
  have hrejected : ((start "S").after .sample ['a', 'd'] 10).status = .rejected := by decide
  have hfinished : ((start "S").after .sample ['a', 'd'] 10).status ≠ .running := by
    rw [hrejected]
    nofun
  have ⟨hall, hvisits⟩ := visited_once .sample ['a', 'd'] "S" 10
  have hborn : 1 ∈ births .sample ['a', 'd'] "S" 10 := by decide
  ⟨htaken, hrejected, ((hall htaken).2.2.2 hfinished).2 1 hborn, hvisits hfinished⟩

end PegMachine.Machine
