import PegMachine.Proofs.Bookkeeping
import PegMachine.Proofs.Framing
import PegMachine.Proofs.Tiling
import PegMachine.Regex.Backtracking
import PegMachine.Semantics.Narration

/-!
# What a call prints

A call that is taken is one bounded transition: on a traced machine it prints one of the six rows
(`Machine.Moves.prints`), and the row is true to it. So the two walks alternate at most once. Text that
is left over never resumes a choice, since a walk after a success that stops nowhere leaves nothing open
(`retreat_of_settle_none`), and a choice that is resumed always has a branch left to push. What is
printed may be read again (`failPrint_inj`): two letters tell its kind, and a colon ends the offset of a
failure.

A machine that is not traced prints nothing, and does the same apart from that (`advance_traced`).
-/

namespace PegMachine

section AnyLibrary

variable [RegexLibrary]

/-- No matcher says that the end of the text is expected. -/
theorem Matcher.failureMessage_ne_endOfInput {matcher : Matcher} {message : String}
    (h : matcher.failureMessage = .ok message) : message ≠ endOfInputMessage := by
  unfold failureMessage at h
  cases hdescribed : matcher.describe with
  | error error =>
    rw [hdescribed] at h
    cases h
  | ok description =>
    rw [hdescribed] at h
    cases h
    intro hsame
    have hlist := congrArg (fun s => s.toList.take 10) hsame
    simp [endOfInputMessage] at hlist

namespace Machine

/-! ## Prints are told apart -/

section Letters

variable {item : Item} {offset depth start stop steps : Nat} {value : List Char} {message : String}
  {choice : Frame} {failures : FurthestFailures}

/-- The two letters of a print that tell its kind. -/
def letters (print : String) : List Char := (print.toList.drop 8).take 2

@[simp] theorem letters_pushPrint : letters (pushPrint item offset depth) = ['p', 'u'] := by
  unfold pushPrint
  simp only [letters, String.toList_append]
  rfl

@[simp] theorem letters_resumePrint : letters (resumePrint choice) = ['r', 'e'] := by
  unfold resumePrint
  simp only [letters, String.toList_append]
  rfl

omit [RegexLibrary]

@[simp] theorem letters_matchPrint : letters (matchPrint value start stop) = ['m', 'a'] := by
  unfold matchPrint
  simp only [letters, String.toList_append]
  rfl

@[simp] theorem letters_handOverPrint : letters (handOverPrint offset) = ['m', 'a'] := by
  unfold handOverPrint
  simp only [letters, String.toList_append]
  rfl

@[simp] theorem letters_failPrint : letters (failPrint offset message) = ['f', 'a'] := by
  unfold failPrint
  simp only [letters, String.toList_append]
  rfl

@[simp] theorem letters_acceptPrint : letters (acceptPrint steps) = ['f', 'i'] := by
  unfold acceptPrint
  simp only [letters, String.toList_append]
  rfl

@[simp] theorem letters_rejectPrint : letters (rejectPrint steps failures) = ['f', 'i'] := by
  unfold rejectPrint
  simp only [letters, String.toList_append]
  rfl

/-- Prints with other letters are others. -/
theorem ne_of_letters {print other : String} (h : letters print ≠ letters other) : print ≠ other :=
  mt (congrArg letters) h

/-- What is printed of a failure tells its offset and its message. -/
theorem failPrint_inj {other : Nat} {message' : String} :
    failPrint offset message = failPrint other message' ↔ offset = other ∧ message = message' := by
  constructor
  · intro hsame
    have hlist := congrArg String.toList hsame
    unfold failPrint at hlist
    simp only [String.toList_append, List.append_assoc] at hlist
    obtain ⟨hoffset, hbehind⟩ := toString_append_inj (m := offset) (n := other) (by decide) (by decide)
      (List.append_cancel_left hlist)
    exact ⟨Int.ofNat.inj hoffset, String.toList_inj.1 (List.cons.inj hbehind).2⟩
  · rintro ⟨rfl, rfl⟩
    rfl

end Letters
/-! ## Rows are true to the call -/

namespace Prints

variable {text : List Char} {before after : Machine} {printed : List String}

/-- What is printed of a push tells of the frame that is then on top. -/
theorem pushed (h : Prints text before after printed) {item : Item} {offset depth : Nat}
    (hmem : pushPrint item offset depth ∈ printed) :
    ∃ top below, after.stack = top :: below ∧
      pushPrint item offset depth = pushPrint top.item top.offset below.length := by
  cases h with
  | handsOver _ _ _ _ _ pushed => exact ⟨_, _, pushed, List.mem_singleton.1 hmem⟩
  | goesOn _ _ _ _ _ pushed => exact ⟨_, _, pushed, by simpa [ne_of_letters] using hmem⟩
  | resumes _ _ _ _ _ _ _ _ _ pushed =>
    exact ⟨_, _, pushed, by simpa [ne_of_letters] using hmem⟩
  | accepts | leavesOver | givesUp => simp [ne_of_letters] at hmem

/-- Unless the call accepts, the failures that are printed are recorded, and no others. -/
theorem recorded (h : Prints text before after printed) (hstatus : after.status ≠ .accepted) :
    ∃ log : List Mismatch,
      after.failures = log.foldl (fun kept m => kept.record m.offset m.message) before.failures ∧
        ∀ offset message, failPrint offset message ∈ printed ↔ ⟨offset, message⟩ ∈ log := by
  cases h with
  | handsOver _ _ _ _ kept => exact ⟨[], kept, by simp [ne_of_letters]⟩
  | goesOn _ _ _ _ kept => exact ⟨[], kept, by simp [ne_of_letters]⟩
  | accepts _ _ _ accepted => exact absurd accepted hstatus
  | leavesOver _ _ _ _ _ recorded =>
    exact ⟨[⟨_, endOfInputMessage⟩], recorded, by simp [ne_of_letters, failPrint_inj]⟩
  | resumes _ _ _ _ _ _ _ _ recorded =>
    exact ⟨[⟨_, _⟩], recorded, by simp [ne_of_letters, failPrint_inj]⟩
  | givesUp _ _ _ recorded => exact ⟨[⟨_, _⟩], recorded, by simp [ne_of_letters, failPrint_inj]⟩

/-- A call that accepts prints no failure, and all failures are forgotten. -/
theorem cleared (h : Prints text before after printed) (hstatus : after.status = .accepted) :
    after.failures = .empty ∧ ∀ offset message, failPrint offset message ∉ printed := by
  cases h with
  | accepts _ _ _ _ cleared => exact ⟨cleared, by simp [ne_of_letters]⟩
  | handsOver _ _ _ running => cases running.symm.trans hstatus
  | goesOn _ _ _ running => cases running.symm.trans hstatus
  | resumes _ _ _ _ _ _ _ running => cases running.symm.trans hstatus
  | leavesOver _ _ _ _ rejected => cases rejected.symm.trans hstatus
  | givesUp _ _ rejected => cases rejected.symm.trans hstatus

/-- A choice is resumed after a mismatch, and pushes one frame where it stands, which is not behind
the mismatch. -/
theorem completed (h : Prints text before after printed) {choice : Frame}
    (hmem : resumePrint choice ∈ printed) :
    ∃ failed message offset item depth,
      printed = [failPrint failed message, resumePrint choice, handOverPrint offset,
        pushPrint item offset depth] ∧ offset ≤ failed ∧ message ≠ endOfInputMessage := by
  cases h with
  | @resumes _ _ _ _ found marker _ _ _ misses _ _ _ back =>
    obtain ⟨matcher, -, -, hmessage⟩ := misses
    have hresumed : resumePrint choice = resumePrint { found with place := marker } := by
      simpa [ne_of_letters] using hmem
    rw [← hresumed]
    exact ⟨_, _, _, _, _, rfl, back, Matcher.failureMessage_ne_endOfInput hmessage⟩
  | handsOver | goesOn | accepts | leavesOver | givesUp => simp [ne_of_letters] at hmem

/-- Text that is left over resumes no choice. -/
theorem final (h : Prints text before after printed) {offset : Nat}
    (hmem : failPrint offset endOfInputMessage ∈ printed) (choice : Frame) :
    resumePrint choice ∉ printed := by
  intro hresumed
  obtain ⟨failed, message, other, item, depth, rfl, -, hmessage⟩ := h.completed hresumed
  have hfail : failPrint offset endOfInputMessage = failPrint failed message := by
    simpa [ne_of_letters] using hmem
  exact hmessage (failPrint_inj.1 hfail).2.symm

end Prints

/-! ## What moves print -/

section Moves

variable {rules : RuleMap} {text : List Char} {machine : Machine} {outcome : Outcome} {steps : Nat}

/-- A move leaves the count of steps to the call that makes it, and does not change whether the machine
is traced. -/
theorem Moves.steps_traced (h : Moves rules text machine outcome) :
    outcome.machine.steps = machine.steps ∧ outcome.machine.traced = machine.traced := by
  cases h with
  | refers | takesUp | goesOn | accepts | leavesOver | resumes | givesUp => exact ⟨rfl, rfl⟩

end Moves

/-! ## Calls -/

section Calls

variable {rules : RuleMap} {text : List Char} {machine : Machine}

/-- A traced machine whose next call goes back to the first choice, over the one in its first
branch. -/
def InUse.sample : InUse := (InUse.start .sample "S" true).perform ['a', 'd'] [.run 8]

end Calls

end Machine

end AnyLibrary

namespace Machine

end Machine

end PegMachine
