import PegMachine.Proofs.Moves
import PegMachine.Semantics.Origins

/-!
# What a call leaves on the stack

A call pushes one frame if it is not refused and leaves the machine running, and else none
(`Machine.pushes_iff`). Below the new frame only frames stand that were there before, so every frame
on the stack has an origin (`Machine.length_origins`), and a frame that a call leaves where it stood
keeps its origin (`Machine.origins_succ_of_lt`).
-/

namespace PegMachine.Machine

variable [RegexLibrary]

variable {rules : RuleMap} {text : List Char} {machine : Machine}

/-- The walk after a success keeps the number of frames. -/
theorem length_settle {stack frames : List Frame} {next : Option Item}
    (h : settle stack = (next, frames)) : frames.length = stack.length := by
  have hshape := congrArg List.length (settle_map_shape stack)
  rw [h] at hshape
  simpa using hshape

/-- A move pushes a frame above frames that were there before, or ends the run. -/
theorem Moves.pushes_or_ends {outcome : Outcome} (h : Moves rules text machine outcome) :
    (outcome.pushes = true ∧ outcome.fault? = none ∧ outcome.machine.status = machine.status ∧
      ∃ item offset below, outcome.machine.stack = { item, offset } :: below ∧
        below.length ≤ machine.stack.length) ∨
    (outcome.pushes = false ∧ outcome.machine.status ≠ .running ∧
      outcome.machine.stack.length ≤ machine.stack.length) := by
  cases h with
  | refers => exact Or.inl ⟨rfl, rfl, rfl, _, _, _, rfl, Nat.le_refl _⟩
  | takesUp => exact Or.inl ⟨rfl, rfl, rfl, _, _, _, rfl, Nat.le_refl _⟩
  | goesOn stack _ _ _ walk =>
    refine Or.inl ⟨rfl, rfl, rfl, _, _, _, rfl, ?_⟩
    rw [length_settle walk, stack]
    exact Nat.le_refl _
  | resumes stack _ _ _ walk =>
    refine Or.inl ⟨rfl, rfl, rfl, _, _, _, rfl, ?_⟩
    obtain ⟨above, found, -, hsplit, -⟩ := retreat_eq_some walk
    rw [hsplit]
    simp
  | accepts stack _ _ _ walk =>
    refine Or.inr ⟨rfl, by simp, ?_⟩
    rw [length_settle walk, stack]
    exact Nat.le_refl _
  | leavesOver => exact Or.inr ⟨rfl, by simp, Nat.zero_le _⟩
  | givesUp => exact Or.inr ⟨rfl, by simp, Nat.zero_le _⟩

/-- A call pushes a frame above frames that were there before, and leaves the machine running; or it
pushes none, and is refused or leaves the machine finished. -/
theorem advance_pushes_or_ends (rules : RuleMap) (text : List Char) (machine : Machine) :
    ((machine.advance rules text).pushes = true ∧ (machine.advance rules text).fault? = none ∧
      (machine.advance rules text).machine.status = .running ∧
      ∃ item offset below, (machine.advance rules text).machine.stack = { item, offset } :: below ∧
        below.length ≤ machine.stack.length) ∨
    ((machine.advance rules text).pushes = false ∧
      ((machine.advance rules text).fault? ≠ none ∨
        (machine.advance rules text).machine.status ≠ .running) ∧
      (machine.advance rules text).machine.stack.length ≤ machine.stack.length) := by
  by_cases h : machine.status = .running
  · rcases advance_cases rules text h with ⟨fault, hadvance⟩ | hmoves
    · rw [hadvance]
      exact Or.inr ⟨rfl, Or.inl (by simp [refuse]), Nat.le_refl _⟩
    · rcases hmoves.pushes_or_ends with ⟨hpush, hfault, hstatus, hstack⟩ |
        ⟨hpush, hstatus, hstack⟩
      · exact Or.inl ⟨hpush, hfault, hstatus.trans h, hstack⟩
      · exact Or.inr ⟨hpush, Or.inr hstatus, hstack⟩
  · rw [advance_finished rules text h]
    exact Or.inr ⟨rfl, Or.inl (by simp [refuse]), Nat.le_refl _⟩

/-- A call pushes a frame if and only if it is not refused and leaves the machine running. -/
theorem pushes_iff :
    (machine.advance rules text).pushes = true ↔
      (machine.advance rules text).fault? = none ∧
        (machine.advance rules text).machine.status = .running := by
  rcases advance_pushes_or_ends rules text machine with ⟨hpush, hfault, hstatus, -⟩ |
    ⟨hpush, hends, -⟩
  · simp [hpush, hfault, hstatus]
  · rcases hends with hfault | hstatus
    · simp [hpush, hfault]
    · simp [hpush, hstatus]

/-- A call leaves frames that were there before, and on them the one that it pushes. -/
theorem kept_le (rules : RuleMap) (text : List Char) (machine : Machine) :
    (machine.advance rules text).kept ≤ machine.frames.length ∧
      (machine.advance rules text).machine.frames.length =
        (machine.advance rules text).kept +
          if (machine.advance rules text).pushes then 1 else 0 := by
  rcases advance_pushes_or_ends rules text machine with ⟨hpush, -, -, _, _, below, hstack, hle⟩ |
    ⟨hpush, -, hle⟩
  · simpa [Outcome.kept, hpush, frames, hstack] using hle
  · simpa [Outcome.kept, hpush, frames] using hle

section Run

variable {name : String} {calls height : Nat}

/-- Every frame on the stack has an origin. -/
theorem length_origins (rules : RuleMap) (text : List Char) (name : String) (calls : Nat) :
    (origins rules text name calls).length =
      ((start name).after rules text calls).frames.length := by
  induction calls with
  | zero => rfl
  | succ calls ih =>
    obtain ⟨hle, hlength⟩ := kept_le rules text ((start name).after rules text calls)
    rw [origins, after_succ, hlength, List.length_append, List.length_take, ih,
      Nat.min_eq_left hle]
    split
    · rfl
    · rfl

/-- A frame that a call leaves on the stack keeps its origin. -/
theorem origins_succ_of_lt
    (h : height < (((start name).after rules text calls).advance rules text).kept) :
    (origins rules text name (calls + 1))[height]? = (origins rules text name calls)[height]? := by
  have hle := (kept_le rules text ((start name).after rules text calls)).1
  have hlength := length_origins rules text name calls
  have hlt : height < ((origins rules text name calls).take
      (((start name).after rules text calls).advance rules text).kept).length := by
    rw [List.length_take]
    omega
  rw [origins, List.getElem?_append_left hlt, List.getElem?_take_of_lt h]

/-- The frame that a call pushes stands on top of those that the call has left. -/
theorem origins_succ_new
    (hpush : (((start name).after rules text calls).advance rules text).pushes = true) :
    (origins rules text name (calls + 1))[(((start name).after rules text calls).advance rules
      text).kept]? =
      some { born := calls + 1, cause? := some (causeOf ((start name).after rules text calls).frames
        ((start name).after rules text (calls + 1)).frames) } := by
  have hle := (kept_le rules text ((start name).after rules text calls)).1
  have hlength := length_origins rules text name calls
  have htake : ((origins rules text name calls).take
      (((start name).after rules text calls).advance rules text).kept).length =
      (((start name).after rules text calls).advance rules text).kept := by
    rw [List.length_take]
    omega
  rw [origins, List.getElem?_append_right (Nat.le_of_eq htake), htake, Nat.sub_self, if_pos hpush,
    after_succ]
  rfl

end Run

end PegMachine.Machine
