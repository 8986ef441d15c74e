import PegMachine.Proofs.Bookkeeping
import PegMachine.Proofs.Diagnostics
import PegMachine.Proofs.Runs
import PegMachine.Regex.Backtracking
import PegMachine.Text.Lines

/-!
# What a finished run says

A run of a checked grammar of rule expressions that does not use up its fuel gives a report
(`Grammar.reports_of_run`). A parse gives the same one if the text is accepted, and otherwise an error
that `Explains` it: with the offset of the failure, which lies inside the text, what was expected
there in ascending order, and the diagnosis of the report for a message, in which the same offset and
the same order are found and the place is that of the offset in the lines of the text.
-/

namespace PegMachine

/-- A set of messages is kept in order. -/
theorem ParseError.of_set (message : String) (offset : Int) (expected : StringSet) :
    ParseError.of message offset expected.toList = ⟨message, offset, expected.toList⟩ := by
  rw [of, expected.mergeSort_toList]

/-- The diagnosis at an offset inside the text. The end of the file is the end of the text there. -/
theorem diagnose_of_le {text : List Char} {offset : Nat} (h : offset ≤ text.length)
    (expected : StringSet) :
    diagnose text offset expected.toList =
      "Parse error at " ++
        (if offset = text.length then "EOF"
          else toString (Text.locate text offset).line ++ ":" ++
            toString (Text.locate text offset).column) ++
        " (offset " ++ toString offset ++ "): expected one of \x7b" ++
        ", ".intercalate expected.toList ++ "\x7d\n" ++
        String.ofList (Text.lineAt text offset ++
          '\n' :: List.replicate ((Text.locate text offset).column - 1).toNat ' ' ++ ['^']) := by
  have hend : (text.length : Int) ≤ offset ↔ offset = text.length := by omega
  have hshown : toString (offset : Int) = toString offset := rfl
  have hplace : renderPlace text offset =
      if offset = text.length then "EOF"
      else toString (Text.locate text offset).line ++ ":" ++
        toString (Text.locate text offset).column := by
    simp only [renderPlace, hend]
  unfold diagnose
  rw [hplace, expected.ofList_toList, Text.caretSnippet_eq, hshown]

example : diagnose ['a', '\n', 'b', 'c'] 3 ["two", "one"] =
    "Parse error at 2:2 (offset 3): expected one of \x7bone, two\x7d\nbc\n ^" := by decide

section AnyLibrary

variable [RegexLibrary]

/-- The error says of the report where it failed, at an offset that lies in a line of the text, and
what was expected there: its message is the report in words, which is of this form. -/
structure ParseError.Explains (error : ParseError) (report : Report) (offset : Nat)
    (location : Text.Location) (line : List Char) : Prop where
  failed : report.failures.offset = offset
  raised : error.offset = offset
  inside : offset ≤ report.text.length
  located : Text.Locates report.text offset location line
  nonempty : error.expected ≠ []
  ascending : error.expected.Pairwise (· < ·)
  expected : ∀ message, message ∈ error.expected ↔ message ∈ report.failures.messages
  described : error.message = report.describe
  worded : error.message =
    "Parse error at " ++
      (if offset = report.text.length then "EOF"
        else toString location.line ++ ":" ++ toString location.column) ++
      " (offset " ++ toString offset ++ "): expected one of \x7b" ++
      ", ".intercalate error.expected ++ "\x7d\n" ++
      String.ofList (line ++ '\n' :: List.replicate (location.column - 1).toNat ' ' ++ ['^'])

/-- The error of a report that is not accepted explains it, if anything was expected inside the
text. -/
theorem Report.explained {report : Report} {offset : Nat} (haccepted : report.accepted = false)
    (hoffset : report.failures.offset = offset) (hinside : offset ≤ report.text.length)
    (hexpected : report.failures.messages ≠ .empty) :
    (ParseError.of report.describe report.failures.offset
      report.failures.messages.toList).Explains report offset (Text.locate report.text offset)
        (Text.lineAt report.text offset) := by
  rw [ParseError.of_set]
  refine ⟨hoffset, hoffset, hinside, Text.locates_locate hinside, fun hnone => hexpected ?_,
    report.failures.messages.ascending, fun _ => StringSet.mem_iff.symm, rfl, ?_⟩
  · apply StringSet.ext
    intro message
    have hno : report.failures.messages.toList = [] := hnone
    rw [StringSet.mem_iff, hno, StringSet.mem_iff, StringSet.empty]
  · rw [describe, haccepted, hoffset]
    exact diagnose_of_le hinside report.failures.messages

namespace Grammar

/-- A run of a checked grammar of rule expressions that starts from a defined name and does not use
up its fuel gives the report on a machine that has finished. -/
theorem report_of_ended {grammar : Grammar} (hcheck : grammar.check = .ok ())
    (hrules : grammar.rules.Expressions) {fuel : Nat} {text : List Char} {override : Option String}
    (hname : ∀ name, override = some name → grammar.rules.contains name = true)
    (hended : (grammar.run fuel text override).1 ≠ .outOfFuel) :
    ∃ name calls, ((Machine.start name).after grammar.rules text calls).status ≠ .running ∧
      (grammar.run fuel text override).1 =
        .report (((Machine.start name).after grammar.rules text calls).report text) := by
  have hfault : ∀ fault, (grammar.run fuel text override).1 ≠ .fault fault := by
    intro fault hfault
    obtain ⟨name, hasked, hmissing, -⟩ := (run_fault_iff hcheck hrules).1 hfault
    obtain ⟨item, hfound⟩ := RuleMap.contains_iff.1 (hname name hasked)
    rw [hmissing] at hfound
    cases hfound
  have hcomes := grammar.comesTo_run fuel text override
  generalize (grammar.run fuel text override).1 = result at hcomes hended hfault
  cases hcomes with
  | finished hnamed hfinished => exact ⟨_, _, hfinished, rfl⟩
  | unnamed => exact absurd rfl (hfault _)
  | refused => exact absurd rfl (hfault _)
  | outOfFuel => exact absurd rfl hended

/-- A run of a checked grammar of rule expressions that starts from a defined name and does not use
up its fuel gives a report on the text, traced or not. If the text is accepted, the report says no more
than that and the parse gives it too; otherwise the parse gives an error that explains it. -/
theorem reports_of_run {grammar : Grammar} (hcheck : grammar.check = .ok ())
    (hrules : grammar.rules.Expressions) (fuel : Nat) (text : List Char) (override : Option String)
    (traced : Bool) (hname : ∀ name, override = some name → grammar.rules.contains name = true)
    (hended : (grammar.run fuel text override traced).1 ≠ .outOfFuel) :
    ∃ report, (grammar.run fuel text override traced).1 = .report report ∧ report.text = text ∧
      (report.accepted = true →
        grammar.parse fuel text override = .report report ∧ report.describe = "ok") ∧
      (report.accepted = false →
        ∃ error offset location line, grammar.parse fuel text override = .error error ∧
          error.Explains report offset location line) := by
  rw [run_traced] at hended ⊢
  obtain ⟨name, calls, hfinished, hrun⟩ := report_of_ended hcheck hrules hname hended
  refine ⟨_, hrun, rfl, fun haccepted => ?_, fun hrejected => ?_⟩
  · refine ⟨?_, if_pos haccepted⟩
    rw [parse, hrun]
    exact if_pos haccepted
  · have hstatus : ((Machine.start name).after grammar.rules text calls).status = .rejected := by
      cases hstatus : ((Machine.start name).after grammar.rules text calls).status with
      | running => exact absurd hstatus hfinished
      | accepted => simp [Machine.report, hstatus] at hrejected
      | rejected => rfl
    obtain ⟨-, -, -, -, -, -, -, hexpected, hnonneg, hinside⟩ :=
      Machine.failures_of_rejected hstatus
    obtain ⟨offset, hoffset⟩ := Int.eq_ofNat_of_zero_le hnonneg
    rw [hoffset] at hinside
    refine ⟨_, offset, _, _, ?_,
      Report.explained hrejected hoffset (Int.ofNat_le.1 hinside) hexpected⟩
    rw [parse, hrun]
    exact if_neg (by rw [hrejected]; exact Bool.false_ne_true)

/-- The report on a text that goes wrong at its newline. -/
def reportSample : Report where
  accepted := false
  text := ['a', '\n', 'b']
  failures := ⟨1, .ofList ["expected match of 'a'", "expected match of '[b-c]'"]⟩
  frames := []
  steps := 10

end Grammar

end AnyLibrary

namespace Grammar

theorem reports_of_run_sample :
    sample.check = .ok () ∧ sample.rules.Expressions ∧
      (∀ name, some "S" = some name → sample.rules.contains name = true) ∧
      (sample.run 20 ['a', '\n', 'b'] (some "S") true).1 = .report reportSample ∧
      reportSample.accepted = false ∧
      ∃ error location line, sample.parse 20 ['a', '\n', 'b'] (some "S") = .error error ∧
        error.offset = 1 ∧
        error.expected = ["expected match of '[b-c]'", "expected match of 'a'"] ∧
        error.message =
          "Parse error at 1:2 (offset 1): expected one of \x7b" ++
            "expected match of '[b-c]', expected match of 'a'\x7d\na\n ^" ∧
        error.Explains reportSample 1 location line :=
  have hcheck : sample.check = .ok () := by decide
  have hrules : sample.rules.Expressions := by decide
  have hname : ∀ name, some "S" = some name → sample.rules.contains name = true := by
    rintro name ⟨⟩
    decide
  have hrun : (sample.run 20 ['a', '\n', 'b'] (some "S") true).1 = .report reportSample := by
    decide
  have ⟨_, hgives, _, _, hrejected⟩ :=
    reports_of_run hcheck hrules 20 ['a', '\n', 'b'] (some "S") true hname (by rw [hrun]; nofun)
  have hreport := RunResult.report.inj (hgives.symm.trans hrun)
  have ⟨error, offset, location, line, herror, hexplains⟩ := hrejected (by rw [hreport]; rfl)
  have hexplained : error.Explains reportSample offset location line := hreport ▸ hexplains
  have hoffset : offset = 1 := Int.ofNat.inj hexplained.failed.symm
  have hexpected : error.expected = reportSample.failures.messages.toList :=
    StringSet.eq_of_mem_iff hexplained.ascending reportSample.failures.messages.ascending
      fun message => (hexplained.expected message).trans StringSet.mem_iff
  ⟨hcheck, hrules, hname, hrun, rfl, error, location, line, herror,
    hexplained.raised.trans (congrArg Int.ofNat hoffset), hexpected.trans (by decide),
    hexplained.described.trans (by decide), hoffset ▸ hexplained⟩

end Grammar

end PegMachine
