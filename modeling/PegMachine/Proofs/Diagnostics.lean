import PegMachine.Proofs.Expressions
import PegMachine.Proofs.Furthest
import PegMachine.Proofs.Stages
import PegMachine.Regex.Backtracking

/-!
# Diagnostics

What a run says about a text that it does not accept is what the recursive evaluation of the start
name says: the furthest of the mismatches met, where the end of the text counts as expected if the
name succeeds before it (`Machine.failures_of_run`). A machine on its way has kept the furthest of
those it has told of so far, which are the first that the evaluation meets, and an accepting one has
forgotten them all.
-/

namespace PegMachine

/-- The mismatch as a failure to be recorded. -/
def Mismatch.entry (mismatch : Mismatch) : Int × String := (mismatch.offset, mismatch.message)

namespace FurthestFailures

/-- Mismatches recorded in their order are kept with the rest of the history. -/
theorem Keeps.recordAll {failures : FurthestFailures} {history : List (Int × String)}
    (h : failures.Keeps history) (log : List Mismatch) :
    (failures.recordAll log).Keeps (history ++ log.map Mismatch.entry) := by
  induction log generalizing failures history with
  | nil =>
    rw [List.map_nil, List.append_nil]
    exact h
  | cons m rest ih =>
    have hrest := ih (h.record m.offset m.message)
    rw [List.append_assoc] at hrest
    exact hrest

/-- The record of mismatches keeps them. -/
theorem keeps_recordAll (log : List Mismatch) :
    (empty.recordAll log).Keeps (log.map Mismatch.entry) :=
  Keeps.empty.recordAll log

end FurthestFailures

section AnyLibrary

variable [RegexLibrary]

namespace Evaluates

variable {rules : RuleMap} {text : List Char} {item : Item} {verdict : Verdict}
  {log : List Mismatch} {visits : Nat}

/-- What is told of an evaluation lies inside the text. -/
theorem told_bounds (h : Evaluates rules text (.item item) 0 verdict log visits) :
    ∀ m ∈ log ++ verdict.leftOver text.length, m.offset ≤ text.length := by
  intro m hm
  rcases List.mem_append.1 hm with hm | hm
  · exact h.log_bounds (Nat.zero_le _) m hm
  · cases verdict with
    | success trees stop =>
      have hstop : stop ≤ text.length := (h.stop_bounds (Nat.zero_le _)).2
      by_cases heq : stop = text.length
      · rw [Verdict.leftOver, if_pos heq] at hm
        exact absurd hm List.not_mem_nil
      · rw [Verdict.leftOver, if_neg heq] at hm
        rw [List.mem_singleton.1 hm]
        exact hstop
    | failure => exact absurd hm List.not_mem_nil
    | fault f => exact absurd hm List.not_mem_nil

/-- An evaluation that does not succeed on the text is told something of. -/
theorem told_ne_nil (h : Evaluates rules text (.item item) 0 verdict log visits)
    (hrejects : verdict.Rejects text.length) : log ++ verdict.leftOver text.length ≠ [] := by
  cases verdict with
  | success trees stop =>
    have hleft : (Verdict.success trees stop).leftOver text.length = [⟨stop, endOfInputMessage⟩] :=
      if_neg hrejects
    rw [hleft]
    exact List.append_ne_nil_of_right_ne_nil _ (List.cons_ne_nil _ _)
  | failure => exact List.append_ne_nil_of_left_ne_nil (h.log_ne_nil rfl nofun) _
  | fault f => exact hrejects.elim

end Evaluates

namespace Machine

section Run

variable {rules : RuleMap} {text : List Char} {name : String} {calls : Nat} {machine : Machine}
  {told : List Mismatch}

/-- Unless it accepts, a machine has kept the furthest of the mismatches told of. -/
theorem Stage.keeps (h : Stage rules text name calls machine told)
    (hstatus : machine.status ≠ .accepted) : machine.failures.Keeps (told.map Mismatch.entry) := by
  cases h with
  | underway => exact FurthestFailures.keeps_recordAll _
  | refused => exact FurthestFailures.keeps_recordAll _
  | accepted => exact absurd rfl hstatus
  | rejected => exact FurthestFailures.keeps_recordAll _

/-- What the calls tell of is a beginning of what the evaluation meets. -/
theorem Stage.told_prefix (h : Stage rules text name calls machine told) {verdict : Verdict}
    {log : List Mismatch} {visits : Nat}
    (hverdict : Evaluates rules text (.rule (.ref name)) 0 verdict log visits) :
    told <+: log ++ verdict.leftOver text.length := by
  cases h with
  | underway h => exact (h.begins hverdict).2.trans (List.prefix_append _ _)
  | refused h => exact (h.begins hverdict).2.trans (List.prefix_append _ _)
  | accepted comesOut =>
    obtain ⟨-, rfl, -⟩ := hverdict.deterministic comesOut
    exact List.prefix_append _ _
  | rejected comesOut =>
    obtain ⟨rfl, rfl, -⟩ := hverdict.deterministic comesOut
    exact List.prefix_refl _

/-- A machine that has finished stays as it is. -/
theorem after_of_finished {machine : Machine} (h : machine.status ≠ .running) (calls : Nat) :
    after rules text calls machine = machine := by
  induction calls with
  | zero => rfl
  | succ calls ih =>
    rw [after, advance_finished rules text h]
    exact ih

/-- Until the machine accepts, the kept offset never decreases. -/
theorem failures_offset_le {later : Nat} (hlater : calls ≤ later)
    (hstatus : ((start name).after rules text later).status ≠ .accepted) :
    ((start name).after rules text calls).failures.offset ≤
      ((start name).after rules text later).failures.offset := by
  obtain ⟨more, rfl⟩ := Nat.exists_eq_add_of_le hlater
  have hkeeps := (stage rules text name (calls + more)).keeps hstatus
  have hbefore : ((start name).after rules text calls).status ≠ .accepted := by
    intro haccepted
    apply hstatus
    rw [after_add, after_of_finished (by rw [haccepted]; nofun), haccepted]
  apply ((stage rules text name calls).keeps hbefore).offset_le hkeeps
  rw [told_add, List.map_append]
  exact List.subset_append_left _ _

/-- A rejecting machine keeps the furthest of the mismatches that the evaluation meets. -/
theorem failures_of_rejected
    (hstatus : ((start name).after rules text calls).status = .rejected) :
    ∃ verdict log visits, Evaluates rules text (.rule (.ref name)) 0 verdict log visits ∧
      verdict.Rejects text.length ∧
      (start name).told rules text calls = log ++ verdict.leftOver text.length ∧
      ((start name).after rules text calls).failures.Keeps
        ((log ++ verdict.leftOver text.length).map Mismatch.entry) ∧
      ((start name).after rules text calls).failures.messages ≠ .empty ∧
      0 ≤ ((start name).after rules text calls).failures.offset ∧
      ((start name).after rules text calls).failures.offset ≤ text.length := by
  have hstage := stage rules text name calls
  obtain ⟨verdict, log, visits, hverdict, hrejects, htold, -⟩ := hstage.of_rejected hstatus
  have hkeeps := hstage.keeps (by rw [hstatus]; nofun)
  rw [htold] at hkeeps
  obtain ⟨m, hm⟩ := List.exists_mem_of_ne_nil _ (hverdict.told_ne_nil hrejects)
  have hnonneg : (0 : Int) ≤ m.entry.1 := Int.natCast_nonneg _
  obtain ⟨hoffset, hmessages⟩ := hkeeps.messages_ne_empty (List.mem_map_of_mem hm) hnonneg
  refine ⟨verdict, log, visits, hverdict, hrejects, htold, hkeeps, hmessages, hoffset, ?_⟩
  apply hkeeps.offset_le_bound (by omega)
  intro entry hentry
  obtain ⟨other, hother, rfl⟩ := List.mem_map.1 hentry
  exact Int.ofNat_le.2 (hverdict.told_bounds other hother)

end Run

/-- The failures that a machine keeps in a run from a name. If it rejects, they are the furthest of
the mismatches that the evaluation of the name meets, the end of the text among them if it is
expected; if it accepts, there are none; and on the way they are the furthest of those told of so
far, the first of the evaluation. -/
theorem failures_of_run (rules : RuleMap) (text : List Char) (name : String) (calls : Nat) :
    (((start name).after rules text calls).status = .rejected →
      ∃ verdict log visits, Evaluates rules text (.rule (.ref name)) 0 verdict log visits ∧
        verdict.Rejects text.length ∧
        (start name).told rules text calls = log ++ verdict.leftOver text.length ∧
        ((start name).after rules text calls).failures.Keeps
          ((log ++ verdict.leftOver text.length).map Mismatch.entry) ∧
        ((start name).after rules text calls).failures.messages ≠ .empty ∧
        0 ≤ ((start name).after rules text calls).failures.offset ∧
        ((start name).after rules text calls).failures.offset ≤ text.length) ∧
      (((start name).after rules text calls).status = .accepted →
        ((start name).after rules text calls).failures.offset = -1 ∧
        ((start name).after rules text calls).failures.messages = .empty) ∧
      (((start name).after rules text calls).status = .running →
        ((start name).after rules text calls).failures.Keeps
          (((start name).told rules text calls).map Mismatch.entry) ∧
        ∃ tree visits, Underway rules text (.rule (.ref name)) 0 tree
          ((start name).told rules text calls) visits) ∧
      (∀ verdict log visits, Evaluates rules text (.rule (.ref name)) 0 verdict log visits →
        (start name).told rules text calls <+: log ++ verdict.leftOver text.length) ∧
      (∀ later, calls ≤ later → ((start name).after rules text later).status ≠ .accepted →
        ((start name).after rules text calls).failures.offset ≤
          ((start name).after rules text later).failures.offset) := by
  have hstage := stage rules text name calls
  refine ⟨failures_of_rejected, fun haccepted => ?_, fun hrunning => ⟨?_, ?_⟩,
    fun verdict log visits hverdict => hstage.told_prefix hverdict,
    fun later hlater hstatus => failures_offset_le hlater hstatus⟩
  · obtain ⟨tree, visits, -, hmachine⟩ := hstage.of_accepted haccepted
    rw [hmachine]
    exact ⟨rfl, rfl⟩
  · exact hstage.keeps (by rw [hrunning]; nofun)
  · obtain ⟨tree, visits, hunderway, -, -⟩ := hstage.of_running hrunning
    exact ⟨tree, visits, hunderway⟩

end Machine

end AnyLibrary

namespace Machine

theorem failures_of_run_sample :
    ((start "S").after RuleMap.sample ['a', 'd'] 10).status = .rejected ∧
      ∃ verdict log visits,
        Evaluates RuleMap.sample ['a', 'd'] (.rule (.ref "S")) 0 verdict log visits ∧
        ((start "S").after RuleMap.sample ['a', 'd'] 10).failures.Keeps
          ((log ++ verdict.leftOver 2).map Mismatch.entry) :=
  have hrejected : ((start "S").after RuleMap.sample ['a', 'd'] 10).status = .rejected := by decide
  have ⟨verdict, log, visits, hverdict, _, _, hkeeps, _⟩ :=
    (failures_of_run RuleMap.sample ['a', 'd'] "S" 10).1 hrejected
  ⟨hrejected, verdict, log, visits, hverdict, hkeeps⟩

end Machine

end PegMachine
