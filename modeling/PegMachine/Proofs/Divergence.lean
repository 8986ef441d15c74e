import PegMachine.Proofs.Adequacy
import PegMachine.Proofs.Checked
import PegMachine.Proofs.InFlight
import PegMachine.Regex.Backtracking

/-!
# Runs that do not end

A machine over a checked grammar finishes if and only if its evaluation comes to a verdict
(`Machine.running_forever_iff`), since none of its calls is refused. A call that is met again on its
own path has no verdict, and without such a call there is one. So two frames in flight of the same
call are an exact certificate that the run does not end (`Machine.running_forever_iff_repeats`).

The certificate may be found at any time. A call that pushes no frame leaves the frames in flight as
they were, if it leaves any (`Machine.repeatsInFlight_of_succ`), so a machine that has finished
shows no more of them than the same machine did while it was running.
-/

namespace PegMachine

/-- There are no frames in flight on an empty stack. -/
theorem InFlight.ne_nil {origins : List Origin} {height : Nat} (h : InFlight origins height) :
    origins ≠ [] := by
  induction h with
  | top hheight =>
    rintro rfl
    cases hheight
  | cause _ _ _ ih => exact ih

section AnyLibrary

variable [RegexLibrary]

namespace Machine

section Machine

variable {rules : RuleMap} {text : List Char} {machine : Machine}

/-- The walk after a success keeps the calls that references stand for. -/
theorem settle_map_call? {stack frames : List Frame} {next : Option Item}
    (h : settle stack = (next, frames)) : frames.map Frame.call? = stack.map Frame.call? := by
  have hcall : Frame.call? = (fun shape : Item × Nat =>
      Frame.call? { item := shape.1, offset := shape.2 }) ∘ fun f => (f.item, f.offset) := rfl
  have hshape := settle_map_shape stack
  rw [h] at hshape
  rw [hcall, ← List.map_map, hshape, List.map_map]

/-- A call that pushes no frame leaves the stack empty, or all calls on it as they were. -/
theorem map_call?_of_not_pushes (h : (machine.advance rules text).pushes = false) :
    (machine.advance rules text).machine.stack = [] ∨
      (machine.advance rules text).machine.stack.map Frame.call? =
        machine.stack.map Frame.call? := by
  by_cases hrunning : machine.status = .running
  · rcases advance_cases rules text hrunning with ⟨fault, hadvance⟩ | hmoves
    · rw [hadvance]
      exact Or.inr rfl
    · generalize machine.advance rules text = outcome at h hmoves ⊢
      cases hmoves with
      | refers => cases h
      | takesUp => cases h
      | goesOn => cases h
      | resumes => cases h
      | accepts stack _ _ _ walk =>
        refine Or.inr ((settle_map_call? walk).trans ?_)
        rw [show machine.stack = _ from stack]
        rfl
      | leavesOver => exact Or.inl rfl
      | givesUp => exact Or.inl rfl
  · rw [advance_finished rules text hrunning]
    exact Or.inr rfl

end Machine

section Run

variable {rules : RuleMap} {text : List Char} {name : String} {calls : Nat}

/-- A call that pushes no frame and leaves as many as there were keeps their origins. -/
theorem origins_succ_of_length
    (hpush : (((start name).after rules text calls).advance rules text).pushes = false)
    (hlength : ((start name).after rules text (calls + 1)).frames.length =
      ((start name).after rules text calls).frames.length) :
    origins rules text name (calls + 1) = origins rules text name calls := by
  have hkept := (kept_le rules text ((start name).after rules text calls)).2
  rw [← after_succ, hlength, ← length_origins, if_neg (by simp [hpush])] at hkept
  rw [origins, ← Nat.add_zero (Outcome.kept _), ← hkept, List.take_length, if_neg (by simp [hpush]),
    List.append_nil]

/-- What a call shows that pushes no frame was to be seen before it. -/
theorem repeatsInFlight_of_succ
    (hpush : (((start name).after rules text calls).advance rules text).pushes = false)
    (h : RepeatsInFlight rules text name (calls + 1)) : RepeatsInFlight rules text name calls := by
  obtain ⟨lower, upper, call, hne, hlower, hupper, hcall, hcall'⟩ := h
  have hframes := map_call?_of_not_pushes hpush
  rw [← after_succ] at hframes
  rcases hframes with hnil | hsame
  · have horigins := length_origins rules text name (calls + 1)
    rw [frames, hnil] at horigins
    exact absurd (List.eq_nil_of_length_eq_zero horigins) hlower.ne_nil
  · have hbind : ∀ (all : List Frame) (height : Nat),
        all[height]?.bind Frame.call? = (all.map Frame.call?)[height]?.bind id := by
      intro all height
      rw [List.getElem?_map, Option.bind_map]
      rfl
    have hmap : ((start name).after rules text (calls + 1)).frames.map Frame.call? =
        ((start name).after rules text calls).frames.map Frame.call? := by
      rw [frames, frames, List.map_reverse, hsame, List.map_reverse]
    have hlength : ((start name).after rules text (calls + 1)).frames.length =
        ((start name).after rules text calls).frames.length := by
      simpa using congrArg List.length hmap
    rw [origins_succ_of_length hpush hlength] at hlower hupper
    rw [hbind, hmap, ← hbind] at hcall hcall'
    exact ⟨lower, upper, call, hne, hlower, hupper, hcall, hcall'⟩

/-- Two frames in flight of the same call were so while the machine was running. -/
theorem repeatsInFlight_running (h : RepeatsInFlight rules text name calls) :
    ∃ earlier, ((start name).after rules text earlier).status = .running ∧
      RepeatsInFlight rules text name earlier := by
  -- back to the last call that pushed a frame, since a machine that has ended pushes none
  induction calls with
  | zero => exact ⟨0, rfl, h⟩
  | succ calls ih =>
    cases hpush : (((start name).after rules text calls).advance rules text).pushes with
    | true =>
      refine ⟨calls + 1, ?_, h⟩
      rw [after_succ]
      exact (pushes_iff.1 hpush).2
    | false => exact ih (repeatsInFlight_of_succ hpush h)

end Run

section Sound

variable {rules : RuleMap} {name : String} {calls : Nat}

/-- Over sound rules a running machine holds an evaluation under way with one visit for each
call. -/
theorem underway_of_running (hrules : rules.Sound) (hname : rules.contains name = true)
    {text : List Char} (hrunning : ((start name).after rules text calls).status = .running) :
    ∃ tree log, Underway rules text (.rule (.ref name)) 0 tree log calls := by
  have hfault := fault?_of_sound hrules hname hrunning
  obtain ⟨tree, hunderway, -⟩ :=
    (stage rules text name calls).underway_of_goes_on hrunning hfault
  exact ⟨tree, _, hunderway⟩

/-- Over sound rules a machine is running after any number of calls if and only if the name comes to
no verdict. -/
theorem running_forever_iff (hrules : rules.Sound) (hname : rules.contains name = true)
    (text : List Char) :
    (∀ calls, ((start name).after rules text calls).status = .running) ↔
      ¬ ∃ verdict, rules.Gives text name verdict := by
  rw [← goes_on_iff]
  constructor
  · exact fun hrunning calls => ⟨hrunning calls, fault?_of_sound hrules hname (hrunning calls)⟩
  · exact fun hon calls => (hon calls).1

/-- A name comes to a verdict if no two frames in flight are ever of the same call. -/
theorem gives_of_not_repeats {text : List Char}
    (h : ∀ calls, ¬ RepeatsInFlight rules text name calls) :
    ∃ verdict, rules.Gives text name verdict := by
  refine comesOut_of_nodup_calls (Nat.zero_le _) fun tree log visits hunderway => ?_
  by_contra hrepeats
  exact h visits ((repeatsInFlight_iff hunderway).2 hrepeats)

/-- A machine over a checked grammar of rule expressions that started from a defined name is running
after any number of calls if and only if after some number of calls two different frames in flight
are references to the same name at the same offset. -/
theorem running_forever_iff_repeats {grammar : Grammar} (hcheck : grammar.check = .ok ())
    (hrules : grammar.rules.Expressions) (text : List Char) {name : String}
    (hname : grammar.rules.contains name = true) :
    (∀ calls, ((start name).after grammar.rules text calls).status = .running) ↔
      ∃ calls, RepeatsInFlight grammar.rules text name calls := by
  have hsound := Grammar.sound_of_check hcheck hrules
  rw [running_forever_iff hsound hname]
  constructor
  · intro hnone
    by_contra hrepeats
    exact hnone (gives_of_not_repeats (not_exists.1 hrepeats))
  · rintro ⟨calls, hrepeats⟩ ⟨verdict, log, visits, hverdict⟩
    obtain ⟨earlier, hrunning, hearlier⟩ := repeatsInFlight_running hrepeats
    obtain ⟨tree, told, hunderway⟩ := underway_of_running hsound hname hrunning
    exact (repeatsInFlight_iff hunderway).1 hearlier (hunderway.nodup_calls hverdict)

end Sound

end Machine

end AnyLibrary

namespace Machine

theorem running_forever_iff_repeats_sample :
    Grammar.sample.check = .ok () ∧ Grammar.sample.rules.Expressions ∧
      Grammar.sample.rules.contains "L" = true ∧
      RepeatsInFlight Grammar.sample.rules ['a'] "L" 4 ∧
      ∀ calls, ((start "L").after Grammar.sample.rules ['a'] calls).status = .running :=
  have hcheck : Grammar.sample.check = .ok () := by decide
  have hrules : Grammar.sample.rules.Expressions := by decide
  have hname : Grammar.sample.rules.contains "L" = true := by decide
  have horigins : origins Grammar.sample.rules ['a'] "L" 4 =
      [⟨0, none⟩, ⟨1, some 0⟩, ⟨2, some 1⟩, ⟨3, some 2⟩, ⟨4, some 2⟩] := by decide
  have htop : InFlight (origins Grammar.sample.rules ['a'] "L" 4) 4 := .top (by rw [horigins]; rfl)
  have hroot : InFlight (origins Grammar.sample.rules ['a'] "L" 4) 0 := by
    rw [horigins] at htop ⊢
    exact .cause (.cause (.cause htop rfl rfl) rfl rfl) rfl rfl
  have hrepeats : RepeatsInFlight Grammar.sample.rules ['a'] "L" 4 :=
    ⟨0, 4, ("L", 0), by decide, hroot, htop, by decide, by decide⟩
  ⟨hcheck, hrules, hname, hrepeats,
    (running_forever_iff_repeats hcheck hrules ['a'] hname).2 ⟨4, hrepeats⟩⟩

end Machine

end PegMachine
