import PegMachine.Proofs.Bookkeeping
import PegMachine.Proofs.Runs
import PegMachine.Regex.Backtracking
import PegMachine.Semantics.Sessions

/-!
# Whose rules a program runs

A program with its own copy of the rules is isolated: whatever was asked before and however the
caller's rules were edited, it answers as one that was made just now of the rules as they were. A
program that shares the caller's rules answers for these as they stand. Neither is ever at fault for a
name that its rules refer to, as long as those were checked after they were last edited, so the only
names that can be missing are those that a request asks to start from (`Session.isolated_or_following`).

No request changes anything but the caller's rules (`Session.after_eq`), and an answer is a matter of
the grammar that the program runs (`Session.answer_congr`), so all that a history can do is in the
rules that it leaves. The rest is that the check covers all that a run looks up, from whichever name
(`Grammar.run_fault_iff`).
-/

namespace PegMachine

section AnyLibrary

variable [RegexLibrary]

/-! ## Edits -/

namespace RuleMap

variable {rules : RuleMap}

/-- An item of a map in which one more was defined is that one or an item of the map. -/
theorem mem_items_define {name : String} {item other : Item}
    (h : other ∈ (rules.define name item).items) : other = item ∨ other ∈ rules.items := by
  have hentries : ∀ entries : List (String × Item),
      other ∈ (putEntry name item entries).map Prod.snd →
        other = item ∨ other ∈ entries.map Prod.snd := by
    intro entries
    induction entries with
    | nil => simp [putEntry]
    | cons entry rest ih =>
      unfold putEntry
      split
      · simp only [List.map_cons, List.mem_cons]
        exact Or.imp_right Or.inr
      · simp only [List.map_cons, List.mem_cons]
        rintro (hhead | hrest)
        · exact Or.inr (Or.inl hhead)
        · exact (ih hrest).imp_right Or.inr
  exact hentries rules.entries h

/-- A map of rule expressions in which one more is defined holds nothing else. -/
theorem Expressions.define (h : rules.Expressions) {item : Item} (hitem : item.IsExpression)
    (name : String) : (rules.define name item).Expressions := by
  intro other hother
  rcases mem_items_define hother with rfl | hother
  · exact hitem
  · exact h other hother

/-- Neither does one from which a name is removed. -/
theorem Expressions.remove (h : rules.Expressions) (name : String) :
    (rules.remove name).Expressions := by
  intro other hother
  exact h other ((List.filter_sublist.map Prod.snd).subset hother)

end RuleMap

namespace Session

section History

variable {session : Session} {rules : RuleMap} {calls : List Call}

/-- A row of calls that puts rule expressions under names keeps the rules to such. -/
theorem expressions_edited (hrules : rules.Expressions)
    (hitems : ∀ name item fuel, ⟨.define name item, fuel⟩ ∈ calls → item.IsExpression) :
    (edited rules calls).Expressions := by
  induction calls generalizing rules with
  | nil => exact hrules
  | cons call calls ih =>
    refine ih ?_ fun name item fuel hmem => hitems name item fuel (List.mem_cons_of_mem _ hmem)
    obtain ⟨request, fuel⟩ := call
    cases request with
    | define name item => exact hrules.define (hitems name item fuel List.mem_cons_self) name
    | remove name => exact hrules.remove name
    | run => exact hrules
    | parse => exact hrules
    | check => exact hrules

theorem edited_append (rules : RuleMap) (calls more : List Call) :
    edited rules (calls ++ more) = edited (edited rules calls) more :=
  List.foldl_append

/-- A request changes nothing but the caller's rules. -/
theorem answer_fst (session : Session) (fuel : Nat) (request : Request) :
    (session.answer fuel request).1 =
      { session with callerRules := request.edit session.callerRules } := by
  cases request <;> rfl

/-- So does a row of calls. -/
theorem after_eq (session : Session) (calls : List Call) :
    session.after calls = { session with callerRules := edited session.callerRules calls } := by
  induction calls generalizing session with
  | nil => rfl
  | cons call calls ih => rw [after, ih, answer_fst, edited, edited, List.foldl_cons]

/-- A request that is no edit leaves the rules as they are. -/
theorem edit_of_not_isEdit {request : Request} (h : request.isEdit = false) (rules : RuleMap) :
    request.edit rules = rules := by
  cases request with
  | define => cases h
  | remove => cases h
  | run => rfl
  | parse => rfl
  | check => rfl

/-- As long as the rules are vetted the grammar passes the check. -/
theorem Vetted.passes (h : Vetted session calls) (hmade : session.grammar.check = .ok ()) :
    (session.after calls).grammar.check = .ok () := by
  induction h with
  | made => exact hmade
  | @checked calls fuel passed =>
    have hchecked : (session.after calls).grammar.check = .ok () := Answer.checked.inj passed
    rw [after_eq] at hchecked ⊢
    rw [edited_append]
    exact hchecked
  | @kept calls call _ unedited ih =>
    rw [after_eq] at ih ⊢
    rw [edited_append, edited, List.foldl_cons, List.foldl_nil, edit_of_not_isEdit unedited]
    exact ih

end History

section Answers

theorem Answer.fault?_ran {result : RunResult} {printed : List String} {fault : Fault} :
    (Answer.ran result printed).fault? = some fault ↔ result = .fault fault := by
  cases result <;> simp [fault?]

theorem Answer.fault?_parsed {result : ParseResult} {fault : Fault} :
    (Answer.parsed result).fault? = some fault ↔ result = .fault fault := by
  cases result <;> simp [fault?]

theorem Answer.isFinal_ran {result : RunResult} {printed : List String} :
    (Answer.ran result printed).IsFinal ↔ result ≠ .outOfFuel := by
  cases result <;> simp [IsFinal]

theorem Answer.isFinal_parsed {result : ParseResult} :
    (Answer.parsed result).IsFinal ↔ result ≠ .outOfFuel := by
  cases result <;> simp [IsFinal]

/-- A program answers for the grammar that it runs. -/
theorem answersFor (session : Session) : session.AnswersFor session.grammar :=
  ⟨fun _ _ _ _ => rfl, fun _ _ _ => rfl, fun _ => rfl⟩

variable {session other : Session} {request : Request} {answer : Answer}

/-- Programs that run the same grammar answer in the same way. -/
theorem answer_congr (h : session.grammar = other.grammar) (fuel : Nat) (request : Request) :
    (session.answer fuel request).2 = (other.answer fuel request).2 := by
  cases request with
  | run text override traced => rw [session.answersFor.run, h, ← other.answersFor.run]
  | parse text override => rw [session.answersFor.parse, h, ← other.answersFor.parse]
  | check => rw [session.answersFor.check, h, ← other.answersFor.check]
  | define => rfl
  | remove => rfl

theorem gives_congr (h : session.grammar = other.grammar) :
    session.Gives request answer ↔ other.Gives request answer := by
  simp only [Gives, answer_congr h]

/-- An answer for good does not change with more fuel. -/
theorem answer_add {fuel : Nat} (h : (session.answer fuel request).2.IsFinal) (more : Nat) :
    (session.answer (fuel + more) request).2 = (session.answer fuel request).2 := by
  cases request with
  | run text override traced =>
    rw [session.answersFor.run] at h
    rw [session.answersFor.run, session.answersFor.run,
      Grammar.run_add (Answer.isFinal_ran.1 h)]
  | parse text override =>
    rw [session.answersFor.parse] at h
    rw [session.answersFor.parse, session.answersFor.parse,
      Grammar.parse_add (Answer.isFinal_parsed.1 h)]
  | check => rfl
  | define => rfl
  | remove => rfl

/-- There is but one answer for good. -/
theorem Gives.unique {answer' : Answer} (h : session.Gives request answer)
    (h' : session.Gives request answer') : answer = answer' := by
  obtain ⟨hfinal, fuel, rfl⟩ := h
  obtain ⟨hfinal', fuel', rfl⟩ := h'
  rw [← answer_add hfinal fuel', ← answer_add hfinal' fuel, Nat.add_comm]

/-- A program that runs a checked grammar of rule expressions misses nothing. -/
theorem missesNothing_of_check (hcheck : session.grammar.check = .ok ())
    (hrules : session.grammar.rules.Expressions) :
    session.MissesNothing session.grammar.rules := by
  refine ⟨fun fuel => by rw [session.answersFor.check, hcheck], fun fuel request fault => ?_⟩
  cases request with
  | run text override traced =>
    rw [session.answersFor.run, Answer.fault?_ran, Grammar.run_traced,
      Grammar.run_fault_iff hcheck hrules,
      Request.override?]
  | parse text override =>
    rw [session.answersFor.parse, Answer.fault?_parsed, Grammar.parse_eq_fault_iff,
      Grammar.run_fault_iff hcheck hrules, Request.override?]
  | check =>
    rw [session.answersFor.check, hcheck]
    simp [Answer.fault?, Request.override?]
  | define => simp [Session.answer, Answer.fault?, Request.override?]
  | remove => simp [Session.answer, Answer.fault?, Request.override?]

end Answers

/-! ## Programs -/

section Made

variable {rules : RuleMap} {start : String} {ownership : Ownership} {session : Session}

/-- A program can be made of rules that pass the check; it takes a copy or shares them. -/
theorem make_eq_ok_iff :
    make rules start ownership = .ok session ↔
      Grammar.check { rules, start } = .ok () ∧
        session = { callerRules := rules, start,
                    ownRules? := match ownership with
                      | .copied => some rules
                      | .shared => none } := by
  unfold make
  cases Grammar.check { rules, start } with
  | ok => cases ownership <;> simp [eq_comm]
  | error error => simp

/-- A program that was made of checked rules runs these from its start name, and it makes no
difference at first whether it took a copy. -/
theorem grammar_of_make (h : make rules start ownership = .ok session) :
    session.grammar = { rules, start } := by
  obtain ⟨-, rfl⟩ := make_eq_ok_iff.1 h
  cases ownership <;> rfl

end Made

/-- What a program answers after any calls. If it took a copy of the rules when it was made, it
answers as one that was made of them just now, and misses nothing but names that the rules did not
define then. If it shares them, it answers for them as they stand, and as long as these are vetted
misses nothing but names that they do not define. -/
theorem isolated_or_following {rules : RuleMap} {start : String} {ownership : Ownership}
    {session : Session} (hmade : make rules start ownership = .ok session)
    (hrules : rules.Expressions) (calls : List Call)
    (hitems : ∀ name item fuel, ⟨.define name item, fuel⟩ ∈ calls → item.IsExpression) :
    (∀ request answer answer', (session.after calls).Gives request answer →
      (session.after calls).Gives request answer' → answer = answer') ∧
    (ownership = .copied →
      (session.after calls).MissesNothing rules ∧
        ∀ ownership' fresh, make rules start ownership' = .ok fresh → ∀ request answer,
          (session.after calls).Gives request answer ↔ fresh.Gives request answer) ∧
    (ownership = .shared →
      (session.after calls).AnswersFor { rules := edited rules calls, start } ∧
        (session.Vetted calls → (session.after calls).MissesNothing (edited rules calls))) := by
  have hgrammar := grammar_of_make hmade
  obtain ⟨hcheck, hsession⟩ := make_eq_ok_iff.1 hmade
  refine ⟨fun _ _ _ => Gives.unique, ?_, ?_⟩
  · rintro rfl
    have hsame : (session.after calls).grammar = { rules, start } := by
      rw [after_eq, hsession]
      rfl
    refine ⟨?_, fun ownership' fresh hfresh request answer => ?_⟩
    · have hmisses : (session.after calls).MissesNothing (session.after calls).grammar.rules :=
        missesNothing_of_check (by rw [hsame, hcheck]) (by rw [hsame]; exact hrules)
      rw [hsame] at hmisses
      exact hmisses
    · exact gives_congr (hsame.trans (grammar_of_make hfresh).symm)
  · rintro rfl
    have hsame : (session.after calls).grammar = { rules := edited rules calls, start } := by
      rw [after_eq, hsession]
      rfl
    refine ⟨?_, fun hvetted => ?_⟩
    · rw [← hsame]
      exact (session.after calls).answersFor
    · have hpasses := hvetted.passes (by rw [hgrammar, hcheck])
      have hmisses : (session.after calls).MissesNothing (session.after calls).grammar.rules :=
        missesNothing_of_check hpasses (by rw [hsame]; exact expressions_edited hrules hitems)
      rw [hsame] at hmisses
      exact hmisses

/-- A program of the sample grammar, with these rules for its own. -/
def sample (ownRules? : Option RuleMap) : Session where
  callerRules := Grammar.sample.rules
  ownRules?
  start := "S"

/-- Two edits, a check, and a parse from a name that one of the edits has defined. -/
def Call.sample : List Call :=
  [⟨.remove "L", 0⟩, ⟨.define "T" (.rule (.ref "S")), 0⟩, ⟨.check, 0⟩,
    ⟨.parse ['a', 'b'] (some "T"), 20⟩]

end Session

end AnyLibrary

namespace Session

theorem isolated_or_following_sample :
    make Grammar.sample.rules "S" .copied = .ok (sample (some Grammar.sample.rules)) ∧
      make Grammar.sample.rules "S" .shared = .ok (sample none) ∧
      Grammar.sample.rules.Expressions ∧
      (∀ name item fuel, ⟨.define name item, fuel⟩ ∈ Call.sample → item.IsExpression) ∧
      ((sample (some Grammar.sample.rules)).after Call.sample).MissesNothing
        Grammar.sample.rules ∧
      (∀ request answer,
        ((sample (some Grammar.sample.rules)).after Call.sample).Gives request answer ↔
          (sample none).Gives request answer) ∧
      (sample none).Vetted Call.sample ∧
      ((sample none).after Call.sample).AnswersFor
        ⟨edited Grammar.sample.rules Call.sample, "S"⟩ ∧
      ((sample none).after Call.sample).MissesNothing
        (edited Grammar.sample.rules Call.sample) := by
  have hcopied : make Grammar.sample.rules "S" .copied =
    .ok (sample (some Grammar.sample.rules)) := make_eq_ok_iff.2 ⟨by decide, rfl⟩
  have hshared : make Grammar.sample.rules "S" .shared = .ok (sample none) :=
    make_eq_ok_iff.2 ⟨by decide, rfl⟩
  have hrules : Grammar.sample.rules.Expressions := by decide
  have hitems : ∀ name item fuel, ⟨.define name item, fuel⟩ ∈ Call.sample → item.IsExpression := by
    intro name item fuel hmem
    have hitem : (name = "T" ∧ item = .rule (.ref "S")) ∧ fuel = 0 := by
      simpa [Call.sample] using hmem
    rw [hitem.1.2]
    decide
  have hvetted : (sample none).Vetted Call.sample := by
    have hpassed : (((sample none).after (Call.sample.take 2)).answer 0 .check).2 =
      .checked (.ok ()) := congrArg Answer.checked (by decide)
    exact (Vetted.checked hpassed).kept rfl
  obtain ⟨-, hisolated, -⟩ := isolated_or_following hcopied hrules Call.sample hitems
  obtain ⟨-, -, hfollowing⟩ := isolated_or_following hshared hrules Call.sample hitems
  obtain ⟨hmisses, hsame⟩ := hisolated rfl
  obtain ⟨hanswers, hfollows⟩ := hfollowing rfl
  exact ⟨hcopied, hshared, hrules, hitems, hmisses, hsame .shared _ hshared, hvetted, hanswers,
    hfollows hvetted⟩

end Session

end PegMachine
