import PegMachine.Proofs.Stages

/-!
# The moves of a machine

A transition that is not refused is one of seven `Moves`. Two push a frame on the whole stack, one
takes up a later element of a sequence after a match, and one the next branch of a choice after a
mismatch; each of these four pushes one frame and leaves the machine running. Three end the run:
the text is accepted, or left over, or no choice has a branch left. So what all moves keep is kept
by calls (`Machine.advance_invariant`).

What the walk after a success does to the frames on the stack: it changes neither the item nor the
offset of a frame (`settle_map_shape`), and where it stops nowhere it leaves nothing open, so the walk
after a failure stops nowhere either (`retreat_of_settle_none`). Of a move that is all that keeps text
that is left over from resuming a choice.
-/

namespace PegMachine

variable [RegexLibrary]

namespace Machine

/-! ## The walks -/

section Walks

variable {stack frames : List Frame}

/-- The walk after a success keeps what depends on no place and on no mark of a settled choice. -/
theorem settle_map {α : Type} (part : Frame → α)
    (hplace : ∀ (f : Frame) place, part { f with place } = part f)
    (hsettled : ∀ f : Frame, part { f with settled := true } = part f) (stack : List Frame) :
    (settle stack).2.map part = stack.map part := by
  induction stack with
  | nil => rfl
  | cons frame below ih =>
    rw [settle_cons]
    split
    · simp [ih]
    · simp [hsettled, ih]
    · simp [hplace]

/-- The walk after a success keeps items and offsets. -/
theorem settle_map_shape (stack : List Frame) :
    (settle stack).2.map (fun f => (f.item, f.offset)) =
      stack.map fun f => (f.item, f.offset) :=
  settle_map _ (fun _ _ => rfl) (fun _ => rfl) stack

/-- The walk after a success keeps what holds of all items on the stack. -/
theorem settle_holds {motive : Item → Prop} (h : ∀ frame ∈ stack, motive frame.item) :
    ∀ frame ∈ (settle stack).2, motive frame.item := by
  have hitems : (settle stack).2.map Frame.item = stack.map Frame.item :=
    settle_map _ (fun _ _ => rfl) (fun _ => rfl) stack
  intro frame hframe
  have hmem : frame.item ∈ stack.map Frame.item := by
    rw [← hitems]
    exact List.mem_map_of_mem hframe
  obtain ⟨kept, hkept, hsame⟩ := List.mem_map.1 hmem
  rw [← hsame]
  exact h kept hkept

/-- The item that the walk after a success goes on with follows a frame on the stack. -/
theorem settle_eq_some {next : Item} (h : (settle stack).1 = some next) :
    ∃ frame ∈ stack, frame.following? = some next := by
  induction stack with
  | nil => cases h
  | cons frame below ih =>
    have hbelow : (settle below).1 = some next →
        ∃ found ∈ frame :: below, found.following? = some next := by
      intro hnext
      obtain ⟨found, hfound, hpart⟩ := ih hnext
      exact ⟨found, List.mem_cons_of_mem _ hfound, hpart⟩
    rw [settle_cons] at h
    split at h
    · exact hbelow h
    · exact hbelow h
    · next hpart =>
      cases h
      exact ⟨frame, List.mem_cons_self, hpart⟩

/-- Where the walk after a success stops nowhere, no frame is left at which a walk could stop. -/
theorem closed_of_settle_none (h : (settle stack).1 = none) : ∀ f ∈ (settle stack).2, f.Closed := by
  induction stack with
  | nil => exact fun _ hf => absurd hf List.not_mem_nil
  | cons frame below ih =>
    rw [settle_cons] at h ⊢
    split at h
    · next hnone =>
      rintro f hf
      rcases List.mem_cons.1 hf with rfl | hf
      · exact Or.inl hnone
      · exact ih h f hf
    · next hseparator =>
      rintro f hf
      rcases List.mem_cons.1 hf with rfl | hf
      · exact Or.inr ⟨hseparator, rfl⟩
      · exact ih h f hf
    · cases h

/-- Where the walk after a success stops nowhere, the walk after a failure does not either. -/
theorem retreat_of_settle_none (h : settle stack = (none, frames)) : retreat frames = none := by
  have hclosed := closed_of_settle_none (congrArg Prod.fst h)
  rw [h] at hclosed
  exact retreat_of_closed hclosed

end Walks

/-! ## The moves -/

/-- What a transition gives that is not refused. -/
inductive Moves (rules : RuleMap) (text : List Char) (machine : Machine) : Outcome → Prop where
  | refers {top below name item} (stack : machine.stack = top :: below)
    (named : top.item = .rule (.ref name)) (found : rules.get? name = some item) :
    Moves rules text machine (machine.push item top.offset)
  | takesUp {top below rule item} (stack : machine.stack = top :: below)
    (composite : top.item = .rule rule) (hand : top.current? = some item) :
    Moves rules text machine (machine.push item top.offset)
  | goesOn {top below matcher stop value next frames} (stack : machine.stack = top :: below)
    (terminal : top.item = .rule (.terminal matcher))
    (ends : matcher.matchEnd? text top.offset = some stop)
    (taken : value = (text.drop top.offset).take (stop - top.offset))
    (walk : settle ({ top with value := some value } :: below) = (some next, frames)) :
    Moves rules text machine
      (.tell (.matched (some value) top.offset (top.offset + value.length))
        ({ machine with stack := frames }.push next (top.offset + value.length)))
  | accepts {top below matcher stop value frames} (stack : machine.stack = top :: below)
    (terminal : top.item = .rule (.terminal matcher))
    (ends : matcher.matchEnd? text top.offset = some stop)
    (taken : value = (text.drop top.offset).take (stop - top.offset))
    (walk : settle ({ top with value := some value } :: below) = (none, frames))
    (atEnd : top.offset + value.length = text.length) :
    Moves rules text machine
      { machine := { machine with stack := frames, failures := .empty, status := .accepted }
        events := [.matched (some value) top.offset (top.offset + value.length),
          .accepted machine.steps] }
  | leavesOver {top below matcher stop value frames failures} (stack : machine.stack = top :: below)
    (terminal : top.item = .rule (.terminal matcher))
    (ends : matcher.matchEnd? text top.offset = some stop)
    (taken : value = (text.drop top.offset).take (stop - top.offset))
    (walk : settle ({ top with value := some value } :: below) = (none, frames))
    (left : top.offset + value.length ≠ text.length)
    (recorded : failures = machine.failures.record ↑(top.offset + value.length) endOfInputMessage) :
    Moves rules text machine
      { machine := { machine with stack := [], failures, status := .rejected }
        events := [.matched (some value) top.offset (top.offset + value.length),
          .failed (top.offset + value.length) endOfInputMessage,
          .rejected machine.steps failures] }
  | resumes {top below matcher message choice rest branch} (stack : machine.stack = top :: below)
    (terminal : top.item = .rule (.terminal matcher))
    (refused : matcher.matchEnd? text top.offset = none)
    (described : matcher.failureMessage = .ok message)
    (walk : retreat machine.stack = some (choice, rest))
    (behind : choice.following? = some (.rule branch)) :
    Moves rules text machine
      (tellingAll [.failed top.offset message, .resumed choice,
          .matched none choice.offset choice.offset]
        ({ machine with stack := { choice with place := choice.place + 1 } :: rest
                        failures := machine.failures.record top.offset message }.push
          (.rule branch) choice.offset))
  | givesUp {top below matcher message failures} (stack : machine.stack = top :: below)
    (terminal : top.item = .rule (.terminal matcher))
    (refused : matcher.matchEnd? text top.offset = none)
    (described : matcher.failureMessage = .ok message)
    (walk : retreat machine.stack = none)
    (recorded : failures = machine.failures.record top.offset message) :
    Moves rules text machine
      { machine := { machine with stack := [], failures, status := .rejected }
        events := [.failed top.offset message, .rejected machine.steps failures] }

section Moves

variable {rules : RuleMap} {text : List Char} {machine : Machine} {top : Frame} {below : List Frame}
  {matcher : Matcher}

/-- A terminal on top that matches. -/
theorem moves_succeed {stop : Nat} (hstack : machine.stack = top :: below)
    (hterminal : top.item = .rule (.terminal matcher))
    (ends : matcher.matchEnd? text top.offset = some stop) :
    Moves rules text machine
      (machine.succeed text top below ((text.drop top.offset).take (stop - top.offset))) := by
  generalize htaken : (text.drop top.offset).take (stop - top.offset) = value
  rcases hwalk : settle ({ top with value := some value } :: below) with ⟨_ | next, frames⟩
  · have hretreat := retreat_of_settle_none hwalk
    by_cases hstop : top.offset + value.length = text.length
    · have hresult : Moves rules text machine _ :=
        .accepts hstack hterminal ends htaken.symm hwalk hstop
      simpa only [succeed, goOn, hwalk, if_pos hstop, Outcome.tell] using hresult
    · have hresult : Moves rules text machine _ :=
        .leavesOver hstack hterminal ends htaken.symm hwalk hstop rfl
      simpa only [succeed, goOn, hwalk, if_neg hstop, fail, backtrack, hretreat, Outcome.tell]
        using hresult
  · have hresult : Moves rules text machine _ :=
      .goesOn hstack hterminal ends htaken.symm hwalk
    simpa only [succeed, goOn, hwalk] using hresult

/-- A terminal on top that does not match. -/
theorem moves_fail {message : String} (hstack : machine.stack = top :: below)
    (hterminal : top.item = .rule (.terminal matcher))
    (refused : matcher.matchEnd? text top.offset = none)
    (described : matcher.failureMessage = .ok message) :
    Moves rules text machine (machine.fail top.offset message) := by
  cases hwalk : retreat machine.stack with
  | some found =>
    obtain ⟨choice, rest⟩ := found
    have hrecorded : retreat ({ machine with
        failures := machine.failures.record top.offset message } : Machine).stack =
          some (choice, rest) := hwalk
    obtain ⟨branch, hbranch⟩ := following?_of_retreat hwalk
    have hresult : Moves rules text machine _ :=
      .resumes hstack hterminal refused described hwalk hbranch
    rw [fail, backtrack_of_retreat hrecorded hbranch]
    exact hresult
  | none =>
    have hresult : Moves rules text machine _ :=
      .givesUp hstack hterminal refused described hwalk rfl
    simpa only [fail, backtrack, hwalk, Outcome.tell] using hresult

/-- A transition that is not refused is one of the moves. -/
theorem moves_of_transition (h : (machine.transition rules text).fault? = none) :
    Moves rules text machine (machine.transition rules text) := by
  unfold transition at h ⊢
  split at h
  · cases h
  · next top below hstack =>
    split at h
    · next name hname =>
      unfold RuleMap.require at h ⊢
      cases found : rules.get? name with
      | none => simp [found, refuse] at h
      | some item => exact .refers hstack hname found
    · next matcher hterminal =>
      split at h
      · next stop ends => exact moves_succeed hstack hterminal ends
      · next refused =>
        split at h
        · next message described => exact moves_fail hstack hterminal refused described
        · cases h
    · next rule _ _ hcomposite =>
      split at h
      · next item hand => exact .takesUp hstack hcomposite hand
      · cases h
    · cases h

end Moves

/-! ## Calls -/

/-- A call on a running machine is refused and leaves it with one more step, or makes one of the
moves. -/
theorem advance_cases (rules : RuleMap) (text : List Char) {machine : Machine}
    (h : machine.status = .running) :
    (∃ fault, machine.advance rules text =
      { machine with steps := machine.steps + 1 }.refuse fault) ∨
      Moves rules text { machine with steps := machine.steps + 1 }
        (machine.advance rules text) := by
  rw [advance_of_running rules text h]
  cases hfault : ({ machine with steps := machine.steps + 1 }.transition rules text).fault? with
  | none => exact Or.inr (moves_of_transition hfault)
  | some fault => exact Or.inl ⟨fault, transition_of_fault hfault⟩

/-- What is kept when a step is counted, and by every move, is kept by every call, refused or not. -/
theorem advance_invariant {text : List Char} {motive : Machine → Prop}
    (hcounted : ∀ machine, machine.status = .running → motive machine →
      motive { machine with steps := machine.steps + 1 })
    (hmove : ∀ rules machine outcome, machine.status = .running → motive machine →
      Moves rules text machine outcome → motive outcome.machine)
    (rules : RuleMap) {machine : Machine} (h : motive machine) :
    motive (machine.advance rules text).machine := by
  by_cases hrunning : machine.status = .running
  · have hstep := hcounted machine hrunning h
    rcases advance_cases rules text hrunning with ⟨fault, hrefused⟩ | hmoves
    · rw [hrefused]
      exact hstep
    · exact hmove rules { machine with steps := machine.steps + 1 } _ hrunning hstep hmoves
  · rw [advance_finished rules text hrunning]
    exact h

end Machine

end PegMachine
