import PegMachine.Proofs.Framing
import PegMachine.Proofs.Locations
import PegMachine.Proofs.Quotations
import PegMachine.Proofs.Reports
import PegMachine.Regex.Backtracking

/-!
# The lines of a failure in words

A rejected text is reported by a header, in which all that was expected stands, and under it by the
snippet of the offset, which is two lines (`Report.LaidOut`). These are three lines if the header is
one, and that it is if no message in it breaks the line. The messages are those of matchers of the
grammar that do not match there (`Evaluates.mem_log`). A literal is shown with its newlines escaped; a
pattern, and the bounds and members of a class, are shown as they are. So the report has three lines
unless a newline stands in one of those (`Grammar.three_lines_iff_of_run`), and then it has more
(`Grammar.four_lines_of_anyButNewline`).
-/

namespace PegMachine

/-! ## Messages -/

/-- What comes of two steps without an error comes of the second after the first. -/
theorem exists_of_bind_eq_ok {ε α β : Type} {first : Except ε α} {next : α → Except ε β} {b : β}
    (h : first >>= next = .ok b) : ∃ a, first = .ok a ∧ next a = .ok b := by
  cases first with
  | ok a => exact ⟨a, rfl, h⟩
  | error error => cases h

namespace CharClass

/-- A newline is a bound of the class, or stands in a member. -/
def BreaksLine (cls : CharClass) : Prop :=
  (∃ r ∈ cls.ranges, r.1 = 10 ∨ r.2 = 10) ∨ ∃ s ∈ cls.singles, '\n' ∈ s.toList

instance (cls : CharClass) : Decidable cls.BreaksLine :=
  inferInstanceAs (Decidable (_ ∨ _))

/-- Only the bound of the newline is shown with one. -/
theorem newline_mem_boundText {n : Int} {shown : String} (h : boundText n = .ok shown) :
    '\n' ∈ shown.toList ↔ n = 10 := by
  unfold boundText at h
  split at h
  · obtain rfl := Except.ok.inj h
    split
    · next hvalid =>
      have hcode : (Char.ofNat n.toNat).toNat = n.toNat := congrArg Char.toNat (dif_pos hvalid)
      rw [String.toList_singleton, List.mem_singleton, ← Char.toNat_inj, hcode]
      show 10 = n.toNat ↔ n = 10
      omega
    · next hsurrogate =>
      -- a surrogate is shown as it is quoted, in characters that can be seen
      have hdigits : '\n' ∉ Text.hexDigits 4 n.toNat := fun hmem =>
        absurd (Text.Quoted.visible_of_mem_hexDigits hmem) (by decide)
      refine iff_of_false ?_ ?_
      · simp only [String.toList_ofList, List.mem_cons, not_or]
        exact ⟨by decide, by decide, hdigits⟩
      · rintro rfl
        exact hsurrogate (by decide)
  · split at h
    · cases h
    · cases h

theorem newline_mem_describeRange {r : Int × Int} {shown : String}
    (h : describeRange r = .ok shown) : '\n' ∈ shown.toList ↔ r.1 = 10 ∨ r.2 = 10 := by
  obtain ⟨low, hlow, h⟩ := exists_of_bind_eq_ok h
  obtain ⟨high, hhigh, h⟩ := exists_of_bind_eq_ok h
  obtain rfl := Except.ok.inj h
  rw [← newline_mem_boundText hlow, ← newline_mem_boundText hhigh]
  simp

theorem newline_mem_join {ranges : List (Int × Int)} {shown : List String}
    (h : ranges.mapM describeRange = .ok shown) :
    '\n' ∈ (String.join shown).toList ↔ ∃ r ∈ ranges, r.1 = 10 ∨ r.2 = 10 := by
  induction ranges generalizing shown with
  | nil =>
    cases h
    simp
  | cons r rest ih =>
    rw [List.mapM_cons] at h
    obtain ⟨first, hfirst, h⟩ := exists_of_bind_eq_ok h
    obtain ⟨others, hothers, h⟩ := exists_of_bind_eq_ok h
    obtain rfl := Except.ok.inj h
    rw [String.join_cons, String.toList_append, List.mem_append, newline_mem_describeRange hfirst,
      ih hothers, List.exists_mem_cons_iff]

/-- The description of a class shows the newlines of its bounds and members. -/
theorem newline_mem_iff {cls : CharClass} {description : String}
    (h : cls.describe = .ok description) : '\n' ∈ description.toList ↔ cls.BreaksLine := by
  obtain ⟨shown, hshown, h⟩ := exists_of_bind_eq_ok h
  obtain rfl := Except.ok.inj h
  have hopen : '\n' ∉ (if cls.negated then "[^" else "[").toList := by split <;> decide
  have hclose : '\n' ∉ "]".toList := by decide
  have hsingles : '\n' ∈ (String.join cls.singles).toList ↔ ∃ s ∈ cls.singles, '\n' ∈ s.toList := by
    rw [String.toList_join, List.mem_flatMap]
  simp only [String.toList_append, List.mem_append, newline_mem_join hshown, hsingles, hopen, hclose,
    false_or, or_false]
  exact Iff.rfl

end CharClass

section AnyLibrary

variable [RegexLibrary]

namespace Matcher

/-- A newline stands in what is shown of the matcher as it is. -/
def BreaksLine : Matcher → Prop
  | .literal _ => False
  | .regex r => '\n' ∈ r.pattern.toList
  | .charClass cls => cls.BreaksLine
  | .anyChar => False

instance : (matcher : Matcher) → Decidable matcher.BreaksLine
  | .literal _ | .anyChar => .isFalse id
  | .regex r => inferInstanceAs (Decidable ('\n' ∈ r.pattern.toList))
  | .charClass cls => inferInstanceAs (Decidable cls.BreaksLine)

/-- The message of a matcher is one line, unless a newline is shown in it as it is. -/
theorem newline_mem_iff {matcher : Matcher} {message : String}
    (h : matcher.failureMessage = .ok message) :
    '\n' ∈ message.toList ↔ matcher.BreaksLine := by
  obtain ⟨description, hdescription, rfl⟩ : ∃ description, matcher.describe = .ok description ∧
      "expected match of '" ++ description ++ "'" = message := by
    unfold failureMessage at h
    cases hdescribe : matcher.describe with
    | ok description =>
      rw [hdescribe] at h
      exact ⟨description, rfl, Except.ok.inj h⟩
    | error error =>
      rw [hdescribe] at h
      cases h
  have hopen : '\n' ∉ "expected match of '".toList := by decide
  have hclose : '\n' ∉ "'".toList := by decide
  simp only [String.toList_append, List.mem_append, hopen, hclose, false_or, or_false]
  cases matcher with
  | literal s =>
    -- only here is what is shown escaped
    obtain rfl := Except.ok.inj hdescription
    refine iff_of_false (fun hmem => ?_) id
    rw [Text.quoteBody, String.toList_ofList] at hmem
    exact Text.Quoted.not_breaks_of_mem_body Text.Quoted.withholds_isPrintable hmem (Or.inl (by decide))
  | regex r =>
    obtain rfl := Except.ok.inj hdescription
    exact Iff.rfl
  | charClass cls => exact cls.newline_mem_iff hdescription
  | anyChar =>
    obtain rfl := Except.ok.inj hdescription
    exact iff_of_false (by decide) id

end Matcher

/-! ## Where messages come from -/

/-- The matchers in an item. -/
def Item.matchers : Item → List Matcher
  | .rule r => r.matchers
  | _ => []

/-- The matchers in the items of a map. -/
def RuleMap.matchers (rules : RuleMap) : List Matcher := rules.items.flatMap Item.matchers

/-- The matchers in a goal. -/
def Goal.matchers : Goal → List Matcher
  | .item i => i.matchers
  | .elements parts => Rule.matchersAll parts
  | .branches choice _ => choice.matchers

theorem RuleMap.matchers_subset_of_get? {rules : RuleMap} {name : String} {item : Item}
    (found : rules.get? name = some item) : item.matchers ⊆ rules.matchers :=
  fun _ hmatcher => List.mem_flatMap.2 ⟨item, mem_items_of_get? found, hmatcher⟩

/-- A mismatch is that of a matcher in the rules, which does not match there, if the goal has only
such. -/
theorem Evaluates.mem_log {rules : RuleMap} {text : List Char} {goal : Goal} {offset : Nat}
    {verdict : Verdict} {log : List Mismatch} {visits : Nat}
    (h : Evaluates rules text goal offset verdict log visits)
    (hgoal : goal.matchers ⊆ rules.matchers) :
    ∀ m ∈ log, ∃ matcher ∈ rules.matchers,
      matcher.matchEnd? text m.offset = none ∧ matcher.failureMessage = .ok m.message := by
  have hpart : ∀ {rule part : Rule} {branch : Nat}, rule.parts[branch]? = some part →
      rule.matchers ⊆ rules.matchers → part.matchers ⊆ rules.matchers := fun here hrule _ hmatcher =>
    hrule (Rule.mem_matchers_of_part (List.mem_of_getElem? here) hmatcher)
  induction h with
  | undefined | matched | indescribable | separator | atom | noElements | noBranch => nofun
  | reference found _ ih => exact ih (RuleMap.matchers_subset_of_get? found)
  | @mismatched matcher _ _ refused described =>
    intro m hm
    rw [List.mem_singleton.1 hm]
    exact ⟨matcher, hgoal (List.mem_singleton.2 rfl), refused, described⟩
  | sequence _ ih => exact ih hgoal
  | choice _ ih => exact ih hgoal
  | element _ _ ihHead ihTail =>
    obtain ⟨hhead, htail⟩ := List.append_subset.1 hgoal
    exact List.forall_mem_append.2 ⟨ihHead hhead, ihTail htail⟩
  | elementStops _ _ ih => exact ih (List.append_subset.1 hgoal).1
  | branch here _ ih => exact ih (hpart here hgoal)
  | branchFault here _ ih => exact ih (hpart here hgoal)
  | branchFails here _ _ ihHead ihTail =>
    exact List.forall_mem_append.2 ⟨ihHead (hpart here hgoal), ihTail hgoal⟩

/-! ## Headers -/

section Headers

omit [RegexLibrary]

theorem Text.mem_intercalate {separator : List Char} {c : Char} (h : c ∉ separator)
    {parts : List (List Char)} : c ∈ separator.intercalate parts ↔ ∃ part ∈ parts, c ∈ part := by
  induction parts with
  | nil => simp
  | cons part rest ih =>
    cases rest with
    | nil => simp
    | cons next rest =>
      rw [List.intercalate_cons_cons, List.mem_append, List.mem_append, ih,
        or_iff_left h, List.exists_mem_cons_iff (l := next :: rest)]

theorem newline_not_mem_toString (n : Int) : '\n' ∉ (toString n).toList := by
  rw [toList_toString]
  intro hmem
  split at hmem
  · exact absurd (isDigit_of_mem_toDigits hmem) (by decide)
  · rcases List.mem_cons.1 hmem with hsign | hmem
    · exact absurd hsign (by decide)
    · exact absurd (isDigit_of_mem_toDigits hmem) (by decide)

/-- What a diagnosis says first: where the offset is. -/
def diagnosisOpening (text : List Char) (offset : Int) : String :=
  "Parse error at " ++ renderPlace text offset ++ " (offset " ++ toString offset ++
    "): expected one of \x7b"

/-- What a diagnosis says before it shows the line: where the offset is, and all that was expected. -/
def diagnosisHeader (text : List Char) (offset : Int) (expected : StringSet) : String :=
  diagnosisOpening text offset ++ ", ".intercalate expected.toList ++ "\x7d"

theorem newline_not_mem_diagnosisOpening (text : List Char) (offset : Int) :
    '\n' ∉ (diagnosisOpening text offset).toList := by
  have hplace : '\n' ∉ (renderPlace text offset).toList := by
    unfold renderPlace
    split
    · decide
    · have hline : '\n' ∉ (toString (Text.locate text offset).line).toList := by
        have hnumber : ∀ n : Nat, toString n = toString (n : Int) := fun _ => rfl
        rw [hnumber]
        exact newline_not_mem_toString _
      have hcolumn := newline_not_mem_toString (Text.locate text offset).column
      simp only [String.toList_append, List.mem_append, not_or]
      exact ⟨⟨hline, by decide⟩, hcolumn⟩
  unfold diagnosisOpening
  simp only [String.toList_append, List.mem_append, not_or]
  refine ⟨⟨⟨⟨?_, hplace⟩, ?_⟩, newline_not_mem_toString offset⟩, ?_⟩
  · decide
  · decide
  · decide

/-- A header is one line, unless a message in it is not. -/
theorem newline_mem_diagnosisHeader {text : List Char} {offset : Int} {expected : StringSet} :
    '\n' ∈ (diagnosisHeader text offset expected).toList ↔
      ∃ message ∈ expected, '\n' ∈ message.toList := by
  have hcomma : '\n' ∉ ", ".toList := by decide
  have hclose : '\n' ∉ "\x7d".toList := by decide
  unfold diagnosisHeader
  simp only [String.toList_append, String.toList_intercalate, List.mem_append]
  rw [or_iff_left hclose, or_iff_right (newline_not_mem_diagnosisOpening text offset),
    Text.mem_intercalate hcomma]
  simp only [List.mem_map, exists_exists_and_eq_and]
  exact Iff.rfl

/-- A diagnosis is its header, a newline and the snippet. -/
theorem diagnose_eq (text : List Char) (offset : Int) (expected : StringSet) :
    (diagnose text offset expected.toList).toList =
      (diagnosisHeader text offset expected).toList ++
        '\n' :: (Text.caretSnippet text offset).toList := by
  have hclose : "\x7d\n".toList = "\x7d".toList ++ ['\n'] := by decide
  unfold diagnose diagnosisHeader diagnosisOpening
  rw [expected.ofList_toList]
  simp only [String.toList_append, hclose, List.append_assoc, List.singleton_append]

/-- The snippet of an offset is two lines, that of the offset and the one with the caret. -/
theorem Text.lines_caretSnippet {text : List Char} {offset : Nat} (h : offset ≤ text.length) :
    lines (caretSnippet text offset).toList =
      [lineAt text offset, List.replicate ((locate text offset).column - 1).toNat ' ' ++ ['^']] := by
  have hcaret : '\n' ∉ List.replicate ((locate text offset).column - 1).toNat ' ' ++ ['^'] := by
    simp
  rw [caretSnippet_eq, String.toList_ofList, List.append_assoc, List.cons_append,
    lines_append_newline, lines_of_not_mem (not_mem_lineAt h), lines_of_not_mem hcaret]
  rfl

end Headers

/-! ## Reports -/

/-- A report of a failure in words, line by line: the header, and under it the line of the offset with
its caret. -/
structure Report.LaidOut (report : Report) (offset : Nat) : Prop where
  failed : report.failures.offset = offset
  inside : offset ≤ report.text.length
  located : Text.Locates report.text offset (Text.locate report.text offset)
    (Text.lineAt report.text offset)
  lines : Text.lines report.describe.toList =
    Text.lines (diagnosisHeader report.text offset report.failures.messages).toList ++
      [Text.lineAt report.text offset,
        List.replicate ((Text.locate report.text offset).column - 1).toNat ' ' ++ ['^']]

/-- A report of a failure inside the text is laid out so. -/
theorem Report.laidOut {report : Report} {offset : Nat} (haccepted : report.accepted = false)
    (hoffset : report.failures.offset = offset) (hinside : offset ≤ report.text.length) :
    report.LaidOut offset where
  failed := hoffset
  inside := hinside
  located := Text.locates_locate hinside
  lines := by
    have hdescribe : report.describe =
        diagnose report.text offset report.failures.messages.toList := by
      rw [describe, haccepted, hoffset]
      rfl
    rw [hdescribe, diagnose_eq, Text.lines_append_newline, Text.lines_caretSnippet hinside]

/-- The report has three lines if the header is one, which it is unless a message is not. -/
theorem Report.LaidOut.three_lines_iff {report : Report} {offset : Nat}
    (h : report.LaidOut offset) :
    (Text.lines report.describe.toList).length = 3 ↔
      ∀ message ∈ report.failures.messages, '\n' ∉ message.toList := by
  have hheader : (Text.lines report.describe.toList).length = 3 ↔
      '\n' ∉ (diagnosisHeader report.text offset report.failures.messages).toList := by
    rw [h.lines, List.length_append, Text.length_lines, ← List.count_eq_zero]
    simp
  rw [hheader, newline_mem_diagnosisHeader]
  push Not
  rfl

/-- A machine that has finished and reports a failure has rejected. -/
theorem Machine.rejected_of_report {machine : Machine} {text : List Char}
    (hfinished : machine.status ≠ .running) (h : (machine.report text).accepted = false) :
    machine.status = .rejected := by
  cases hstatus : machine.status with
  | running => exact absurd hstatus hfinished
  | accepted => simp [report, hstatus] at h
  | rejected => rfl

/-- What is left over is the end of the text that was expected. -/
theorem Verdict.message_of_leftOver {verdict : Verdict} {length : Nat} {m : Mismatch}
    (h : m ∈ verdict.leftOver length) : m.message = endOfInputMessage := by
  cases verdict with
  | success trees stop =>
    rw [leftOver] at h
    split at h
    · cases h
    · rw [List.mem_singleton.1 h]
  | failure => cases h
  | fault => cases h

/-- What a rejecting machine keeps as expected is the end of the text, or in the words of a matcher of
the rules that does not match there. -/
theorem Machine.mem_messages_of_rejected {rules : RuleMap} {text : List Char} {name : String}
    {calls offset : Nat} {message : String}
    (hstatus : ((start name).after rules text calls).status = .rejected)
    (hoffset : ((start name).after rules text calls).failures.offset = offset)
    (hmessage : message ∈ ((start name).after rules text calls).failures.messages) :
    message = endOfInputMessage ∨ ∃ matcher ∈ rules.matchers,
      matcher.matchEnd? text offset = none ∧ matcher.failureMessage = .ok message := by
  obtain ⟨verdict, log, visits, hverdict, -, -, hkeeps, -⟩ := failures_of_rejected hstatus
  rw [hkeeps.mem_messages, hoffset] at hmessage
  obtain ⟨m, hm, hentry⟩ := List.mem_map.1 hmessage
  obtain ⟨hat, rfl⟩ := Prod.mk.inj hentry
  obtain rfl := Int.ofNat_inj.1 hat
  rcases List.mem_append.1 hm with hlog | hleft
  · exact Or.inr (hverdict.mem_log (List.nil_subset _) m hlog)
  · exact Or.inl (Verdict.message_of_leftOver hleft)

namespace Grammar

/-- A run of a checked grammar of rule expressions that starts from a defined name and does not use
up its fuel gives a report. If the text is rejected, the report says in its header all that was
expected, which is the end of the text or in the words of matchers that do not match there, and it
shows the line of the offset with a caret. These are three lines unless one of those matchers has a
newline in what is shown of it as it is; a message breaks the line only for that. -/
theorem three_lines_iff_of_run {grammar : Grammar} (hcheck : grammar.check = .ok ())
    (hrules : grammar.rules.Expressions) (fuel : Nat) (text : List Char) (override : Option String)
    (hname : ∀ name, override = some name → grammar.rules.contains name = true)
    (hended : (grammar.run fuel text override).1 ≠ .outOfFuel) :
    (∀ (matcher : Matcher) message, matcher.failureMessage = .ok message →
      ('\n' ∈ message.toList ↔ matcher.BreaksLine)) ∧
    ∃ report, (grammar.run fuel text override).1 = .report report ∧ (report.accepted = false →
      (∃ offset, report.LaidOut offset ∧
        ∀ message ∈ report.failures.messages, message = endOfInputMessage ∨
          ∃ matcher ∈ grammar.rules.matchers, matcher.matchEnd? text offset = none ∧
            matcher.failureMessage = .ok message) ∧
      ((Text.lines report.describe.toList).length = 3 ↔
        ∀ matcher ∈ grammar.rules.matchers, ∀ message ∈ report.failures.messages,
          matcher.failureMessage = .ok message → ¬ matcher.BreaksLine)) := by
  refine ⟨fun _ _ => Matcher.newline_mem_iff, ?_⟩
  obtain ⟨name, calls, hfinished, hrun⟩ := report_of_ended hcheck hrules hname hended
  refine ⟨_, hrun, fun hrejected => ?_⟩
  have hstatus := Machine.rejected_of_report hfinished hrejected
  obtain ⟨-, -, -, -, -, -, -, -, hnonneg, hinside⟩ := Machine.failures_of_rejected hstatus
  obtain ⟨offset, hoffset⟩ := Int.eq_ofNat_of_zero_le hnonneg
  rw [hoffset] at hinside
  have hlaid := Report.laidOut hrejected hoffset (Int.ofNat_le.1 hinside)
  have hsources : ∀ message ∈ ((Machine.start name).after grammar.rules text calls).failures.messages,
      message = endOfInputMessage ∨ ∃ matcher ∈ grammar.rules.matchers,
        matcher.matchEnd? text offset = none ∧ matcher.failureMessage = .ok message :=
    fun _ => Machine.mem_messages_of_rejected hstatus hoffset
  refine ⟨⟨offset, hlaid, hsources⟩, hlaid.three_lines_iff.trans ?_⟩
  constructor
  · intro hfree matcher _ message hmessage hwords
    exact mt (Matcher.newline_mem_iff hwords).2 (hfree message hmessage)
  · intro hfree message hmessage
    rcases hsources message hmessage with rfl | ⟨matcher, hmatcher, -, hwords⟩
    · decide
    · exact mt (Matcher.newline_mem_iff hwords).1 (hfree matcher hmatcher message hmessage hwords)

/-- Any character but a newline. -/
def anyButNewline : Grammar where
  rules := .ofList [("S", .rule (.terminal (.charClass ⟨true, [], ["\n"]⟩)))]
  start := "S"

end Grammar

end AnyLibrary

namespace Grammar

theorem three_lines_iff_of_run_sample :
    sample.check = .ok () ∧ sample.rules.Expressions ∧
      (∀ name, some "S" = some name → sample.rules.contains name = true) ∧
      (sample.run 20 ['a', '\n', 'b'] (some "S")).1 ≠ .outOfFuel ∧
      ∃ report, (sample.run 20 ['a', '\n', 'b'] (some "S")).1 = .report report ∧
        report.accepted = false ∧ (Text.lines report.describe.toList).length = 3 := by
  have hcheck : sample.check = .ok () := by decide
  have hrules : sample.rules.Expressions := by decide
  have hname : ∀ name, some "S" = some name → sample.rules.contains name = true := by
    rintro name ⟨⟩
    decide
  have hended : (sample.run 20 ['a', '\n', 'b'] (some "S")).1 ≠ .outOfFuel := by decide
  obtain ⟨-, report, hrun, hrejected⟩ :=
    three_lines_iff_of_run hcheck hrules 20 ['a', '\n', 'b'] (some "S") hname hended
  have haccepted : report.accepted = false := by
    obtain ⟨given, hgiven, hfails⟩ : ∃ given : Report,
        (sample.run 20 ['a', '\n', 'b'] (some "S")).1 = .report given ∧ given.accepted = false :=
      ⟨_, rfl, rfl⟩
    rw [hgiven] at hrun
    exact RunResult.report.inj hrun ▸ hfails
  refine ⟨hcheck, hrules, hname, hended, report, hrun, haccepted, (hrejected haccepted).2.2 ?_⟩
  have hmatchers : ∀ matcher ∈ sample.rules.matchers, ¬ matcher.BreaksLine := by decide
  exact fun matcher hmatcher _ _ _ => hmatchers matcher hmatcher

/-- At the end of a text a class with a newline among its members is reported in four lines. -/
theorem four_lines_of_anyButNewline :
    anyButNewline.check = .ok () ∧ anyButNewline.rules.Expressions ∧
      ∃ report, (anyButNewline.run 5 [] none).1 = .report report ∧ report.accepted = false ∧
        report.describe = "Parse error at EOF (offset 0): expected one of \x7bexpected match of " ++
          "'[^\n]'\x7d\n\n^" ∧
        (Text.lines report.describe.toList).length = 4 := by
  refine ⟨by decide, by decide, _, rfl, ?_, ?_, ?_⟩
  · decide
  · decide
  · decide

end Grammar

end PegMachine
