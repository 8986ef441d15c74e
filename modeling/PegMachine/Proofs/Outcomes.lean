import PegMachine.Proofs.Endings
import PegMachine.Proofs.Meanings
import PegMachine.Proofs.Quotations
import PegMachine.Proofs.Runs

/-!
# Where rules end and where they fail

Often it does not matter how a rule comes to its end, nor in how many steps: `Rule.EndsAt` says up to
where a rule succeeds at an offset, and `Rule.FailsAt` that it fails there, either with the mismatches
that are met on the way. Both are put together along the rules: a sequence of two ends where the second
one does, a choice of two where the first one does that does not fail. What the start name comes to is
what the run of a grammar reports, given fuel enough (`Grammar.Yields`).
-/

namespace PegMachine

variable [RegexLibrary]

/-! ## Rules -/

namespace Rule

/-- The rule succeeds at the offset, up to `stop`. -/
def EndsAt (rule : Rule) (rules : RuleMap) (text : List Char) (offset stop : Nat)
    (log : List Mismatch) : Prop :=
  ∃ readings visits, rule.meaning rules text offset (.success readings stop) log visits

/-- The rule fails at the offset. -/
def FailsAt (rule : Rule) (rules : RuleMap) (text : List Char) (offset : Nat)
    (log : List Mismatch) : Prop :=
  ∃ visits, rule.meaning rules text offset .failure log visits

/-- A literal of one character. -/
def character (c : Char) : Rule := .terminal (.literal (String.singleton c))

/-- The message for a character that was expected. -/
def missing (c : Char) : String := Matcher.expectation (Text.quoteBody [c])

section Laws

variable {rules : RuleMap} {text rest : List Char} {offset middle stop : Nat}
  {log log' : List Mismatch} {rule first second : Rule} {name : String} {c : Char}

/-! ### Terminals -/

theorem endsAt_terminal {matcher : Matcher} (h : matcher.matchEnd? text offset = some stop) :
    (terminal matcher).EndsAt rules text offset stop [] := by
  have hcomes : matcher.comesTo text offset =
      (.success [⟨offset, (text.drop offset).take (stop - offset)⟩] stop, []) := by
    rw [Matcher.comesTo, h]
  exact ⟨_, 1, meaning_terminal.2 ⟨hcomes, rfl⟩⟩

theorem failsAt_terminal {matcher : Matcher} {message : String}
    (h : matcher.matchEnd? text offset = none) (hmessage : matcher.failureMessage = .ok message) :
    (terminal matcher).FailsAt rules text offset [⟨offset, message⟩] := by
  have hcomes : matcher.comesTo text offset = (.failure, [⟨offset, message⟩]) := by
    rw [Matcher.comesTo, h, hmessage]
  exact ⟨1, meaning_terminal.2 ⟨hcomes, rfl⟩⟩

theorem endsAt_character (h : text.drop offset = c :: rest) :
    (character c).EndsAt rules text offset (offset + 1) [] := by
  have hinside : offset < text.length := by
    by_contra hbeyond
    rw [List.drop_eq_nil_of_le (Nat.le_of_not_lt hbeyond)] at h
    cases h
  apply endsAt_terminal
  simp [Matcher.matchEnd?, h, Nat.le_of_lt hinside]

theorem failsAt_character (h : (text.drop offset).head? ≠ some c) :
    (character c).FailsAt rules text offset [⟨offset, missing c⟩] := by
  apply failsAt_terminal
  · refine if_neg fun hstands => h ?_
    obtain ⟨rest, hrest⟩ := List.isPrefixOf_iff_prefix.1 hstands.2
    rw [← hrest, String.toList_singleton]
    rfl
  · rw [missing, ← String.toList_singleton]
    rfl

/-! ### References, sequences and choices -/

theorem EndsAt.reference (found : rules.get? name = some (.rule rule))
    (h : rule.EndsAt rules text offset stop log) : (ref name).EndsAt rules text offset stop log := by
  obtain ⟨readings, visits, h⟩ := h
  refine ⟨readings, visits + 1, ?_⟩
  rw [meaning_of_found found]
  exact .visited h

theorem FailsAt.reference (found : rules.get? name = some (.rule rule))
    (h : rule.FailsAt rules text offset log) : (ref name).FailsAt rules text offset log := by
  obtain ⟨visits, h⟩ := h
  refine ⟨visits + 1, ?_⟩
  rw [meaning_of_found found]
  exact .visited h

/-- A sequence of two ends where the second one does, ... -/
theorem EndsAt.sequence (h : first.EndsAt rules text offset middle log)
    (h' : second.EndsAt rules text middle stop log') :
    (seq first [second]).EndsAt rules text offset stop (log ++ log') := by
  obtain ⟨readings, visits, h⟩ := h
  obtain ⟨more, visits', h'⟩ := h'
  refine ⟨readings ++ more, visits + visits' + 1, ?_⟩
  rw [meaning_of_pair rfl rfl]
  exact .visited (.both h h')

/-- ... and fails where either does. -/
theorem FailsAt.sequence (h : first.FailsAt rules text offset log) :
    (seq first [second]).FailsAt rules text offset log := by
  obtain ⟨visits, h⟩ := h
  refine ⟨visits + 1, ?_⟩
  rw [meaning_of_pair rfl rfl]
  exact .visited (.stops id h)

theorem EndsAt.sequence_fails (h : first.EndsAt rules text offset middle log)
    (h' : second.FailsAt rules text middle log') :
    (seq first [second]).FailsAt rules text offset (log ++ log') := by
  obtain ⟨readings, visits, h⟩ := h
  obtain ⟨visits', h'⟩ := h'
  refine ⟨visits + visits' + 1, ?_⟩
  rw [meaning_of_pair rfl rfl]
  exact .visited (.both h h')

/-- A choice of two ends where the first one does, ... -/
theorem EndsAt.choice (h : first.EndsAt rules text offset stop log) :
    (choice first second []).EndsAt rules text offset stop log := by
  obtain ⟨readings, visits, h⟩ := h
  refine ⟨readings, visits + 1, ?_⟩
  rw [meaning_of_pair rfl rfl]
  exact .visited (.stands nofun h)

/-- ... unless that fails: then it does as the second one does. -/
theorem FailsAt.choice_ends (h : first.FailsAt rules text offset log)
    (h' : second.EndsAt rules text offset stop log') :
    (choice first second []).EndsAt rules text offset stop (log ++ log') := by
  obtain ⟨visits, h⟩ := h
  obtain ⟨readings, visits', h'⟩ := h'
  refine ⟨readings, visits + visits' + 1, ?_⟩
  rw [meaning_of_pair rfl rfl]
  exact .visited (.fails h h')

theorem FailsAt.choice (h : first.FailsAt rules text offset log)
    (h' : second.FailsAt rules text offset log') :
    (choice first second []).FailsAt rules text offset (log ++ log') := by
  obtain ⟨visits, h⟩ := h
  obtain ⟨visits', h'⟩ := h'
  refine ⟨visits + visits' + 1, ?_⟩
  rw [meaning_of_pair rfl rfl]
  exact .visited (.fails h h')

end Laws

end Rule

/-! ## Runs -/

namespace Grammar

/-- With fuel enough the run of the grammar on the text comes back with the report. -/
def Yields (grammar : Grammar) (text : List Char) (report : Report) : Prop :=
  ∃ enough, ∀ fuel, enough ≤ fuel → (grammar.run fuel text none).1 = .report report

section Run

variable {grammar : Grammar} {text : List Char} {stop : Nat} {log : List Mismatch}

/-- If the machine finishes with the fuel, its report is what the run comes back with. -/
theorem run_of_finished {fuel : Nat}
    (hfault : (Run.outcome ⟨grammar.rules, text, grammar.start⟩ fuel).fault? = none)
    (hfinished :
      (Run.outcome ⟨grammar.rules, text, grammar.start⟩ fuel).machine.status ≠ .running) :
    (grammar.run fuel text none).1 =
      .report ((Run.outcome ⟨grammar.rules, text, grammar.start⟩ fuel).machine.report text) := by
  unfold Run.outcome at hfault hfinished ⊢
  unfold run startName
  simp only [hfault]

/-- What the start name comes to is reported, unless it is a fault. -/
theorem yields_of_meaning {gist : Gist} {visits : Nat}
    (h : (Rule.ref grammar.start).meaning grammar.rules text 0 gist log visits)
    (hfault : gist.fault? = none) (hstatus : gist.status text.length ≠ .running) :
    ∃ report, grammar.Yields text report ∧
      report.accepted = decide (gist.status text.length = .accepted) ∧
      report.failures = if gist.status text.length = .accepted then .empty
        else FurthestFailures.empty.recordAll (log ++ gist.leftOver text.length) := by
  have hmeaning : Run.meaning ⟨grammar.rules, text, grammar.start⟩ 0 gist log visits := h
  obtain ⟨ending, hends, hshown⟩ := Run.endsIn_of_meaning hmeaning
  obtain ⟨enough, -, rfl⟩ := hends.outcome
  have hfinished :
      (Run.outcome ⟨grammar.rules, text, grammar.start⟩ enough).machine.status ≠ .running :=
    fun hrunning => hstatus (hshown.status.symm.trans hrunning)
  have hrun := run_of_finished (hshown.fault.trans hfault) hfinished
  have hyields : grammar.Yields text
      ((Run.outcome ⟨grammar.rules, text, grammar.start⟩ enough).machine.report text) := by
    refine ⟨enough, fun fuel hfuel => ?_⟩
    obtain ⟨more, rfl⟩ := Nat.exists_eq_add_of_le hfuel
    rw [run_add (by rw [hrun]; nofun), hrun]
  refine ⟨_, hyields, ?_, hshown.failures⟩
  exact congrArg (fun status => decide (status = Status.accepted)) hshown.status

/-- A grammar whose start name succeeds accepts the text if that is read to its end, and otherwise
reports what is left over. -/
theorem yields_of_endsAt (grammar : Grammar)
    (h : (Rule.ref grammar.start).EndsAt grammar.rules text 0 stop log) :
    ∃ report, grammar.Yields text report ∧ (report.accepted = true ↔ stop = text.length) ∧
      (stop ≠ text.length → report.failures =
        FurthestFailures.empty.recordAll (log ++ [⟨stop, endOfInputMessage⟩])) := by
  obtain ⟨readings, visits, h⟩ := h
  obtain ⟨report, hyields, haccepted, hfailures⟩ :=
    yields_of_meaning h rfl (by simp only [Gist.status]; split <;> nofun)
  have hstatus : (Gist.success readings stop).status text.length = .accepted ↔
      stop = text.length := by
    simp [Gist.status]
  refine ⟨report, hyields, ?_, fun hstop => ?_⟩
  · rw [haccepted, decide_eq_true_iff, hstatus]
  · rw [hfailures, if_neg (mt hstatus.1 hstop), Gist.leftOver, if_neg hstop]

/-- A grammar whose start name fails reports where and why. -/
theorem yields_of_failsAt (grammar : Grammar)
    (h : (Rule.ref grammar.start).FailsAt grammar.rules text 0 log) :
    ∃ report, grammar.Yields text report ∧ report.accepted = false ∧
      report.failures = FurthestFailures.empty.recordAll log := by
  obtain ⟨visits, h⟩ := h
  simpa [Gist.status, Gist.leftOver] using yields_of_meaning h rfl nofun

end Run

end Grammar

end PegMachine
