import Mathlib.Data.Nat.Find
import PegMachine.Proofs.Divergence
import PegMachine.Regex.Backtracking
import PegMachine.Semantics.LeftCalls

/-!
# Grammars without left recursion

A rule that succeeds without text is possibly empty (`Evaluates.possiblyEmpty`). On the way to the
frame in hand a sequence has gone on from one element to a later one at the same offset only if the
elements before it succeeded without text. So a call that is met on the path of a rule at the offset
of the rule is one that the rule leads to by left calls (`Underway.leadsTo_of_mem_path`), and of two
calls at the same offset on one path the first leads to the second
(`Underway.pairwise_leftCalls`).

Hence if no name left-calls itself, no path meets a call again, and every run ends
(`Machine.finishes_of_not_leftRecursive`).
-/

namespace PegMachine

section AnyLibrary

variable [RegexLibrary]

/-! ## Success without text -/

/-- The goal may succeed without text, as far as its form tells. -/
def Goal.PossiblyEmpty (rules : RuleMap) : Goal → Prop
  | .item i => ∃ rule, i = .rule rule ∧ rule.PossiblyEmpty rules
  | .elements parts => ∀ part ∈ parts, part.PossiblyEmpty rules
  | .branches choice _ => ∃ part ∈ choice.parts, part.PossiblyEmpty rules

/-- A matcher that matches no character is a regular expression or the empty literal. -/
theorem Matcher.possiblyEmpty {rules : RuleMap} {matcher : Matcher} {text : List Char}
    {offset : Nat} (h : matcher.matchEnd? text offset = some offset) :
    (Rule.terminal matcher).PossiblyEmpty rules := by
  cases matcher with
  | regex => exact .regex
  | literal s =>
    simp only [matchEnd?] at h
    split at h
    · obtain rfl : s = "" := by
        have hlength : offset + s.length = offset := Option.some.inj h
        exact String.length_eq_zero_iff.1 (by omega)
      exact .emptyLiteral
    · cases h
  | charClass cls =>
    simp only [matchEnd?] at h
    split at h
    · split at h
      · have hnext : offset + 1 = offset := Option.some.inj h
        omega
      · cases h
    · cases h
  | anyChar =>
    simp only [matchEnd?] at h
    split at h
    · have hnext : offset + 1 = offset := Option.some.inj h
      omega
    · cases h

section Empty

variable {rules : RuleMap} {text : List Char} {goal : Goal} {offset : Nat} {verdict : Verdict}
  {log : List Mismatch} {visits : Nat}

/-- What succeeds without text is possibly empty. -/
theorem Evaluates.possiblyEmpty (h : Evaluates rules text goal offset verdict log visits)
    (hoffset : offset ≤ text.length) :
    verdict.OnSuccess fun _ stop => stop = offset → goal.PossiblyEmpty rules := by
  induction h with
  | matched ends =>
    rintro rfl
    exact ⟨_, rfl, Matcher.possiblyEmpty ends⟩
  | reference found _ ih =>
    apply Verdict.OnSuccess.under
    apply (ih hoffset).imp
    intro _ _ hempty hstop
    obtain ⟨rule, rfl, hrule⟩ := hempty hstop
    exact ⟨_, rfl, .reference found hrule⟩
  | sequence _ ih =>
    apply Verdict.OnSuccess.under
    apply (ih hoffset).imp
    exact fun _ _ hempty hstop => ⟨_, rfl, .sequence (hempty hstop)⟩
  | choice _ ih =>
    apply (ih hoffset).imp
    intro _ _ hempty hstop
    obtain ⟨part, hpart, hrule⟩ := hempty hstop
    exact ⟨_, rfl, .choice hpart hrule⟩
  | noElements =>
    intro _ part hpart
    exact absurd hpart List.not_mem_nil
  | @element _ _ _ _ _ verdict _ _ _ _ head tail ihHead ihTail =>
    obtain ⟨hle, hlen⟩ := head.stop_bounds hoffset
    have hbounds := tail.stop_bounds hlen
    have htail := ihTail hlen
    apply Verdict.OnSuccess.after
    cases verdict with
    | failure => trivial
    | fault => trivial
    | success more stop =>
      rintro rfl
      -- neither the first element nor the others have taken text
      obtain rfl : _ = _ := Nat.le_antisymm hle hbounds.1
      obtain ⟨rule, hrule, hempty⟩ := ihHead hoffset rfl
      cases hrule
      exact List.forall_mem_cons.2 ⟨hempty, htail rfl⟩
  | @elementStops _ _ _ verdict _ _ stops =>
    cases verdict with
    | success => exact absurd trivial stops
    | failure => trivial
    | fault => trivial
  | branch here _ ih =>
    intro hstop
    obtain ⟨rule, hrule, hempty⟩ := ih hoffset hstop
    cases hrule
    exact ⟨_, List.mem_of_getElem? here, hempty⟩
  | branchFails _ _ _ _ ihTail => exact ihTail hoffset
  | undefined | mismatched | indescribable | separator | atom | noBranch | branchFault => trivial

end Empty

/-! ## Left calls on a path -/

/-- A reference to a name occurs on the left in the rule, or that of a name that leads to it by left
calls. -/
def Item.LeadsTo (rules : RuleMap) (item : Item) (name : String) : Prop :=
  ∃ rule first, item = .rule rule ∧ Rule.LeftOccurs rules (.ref first) rule ∧
    Relation.ReflTransGen rules.LeftCalls first name

namespace Underway

variable {rules : RuleMap} {text : List Char} {item : Item} {offset : Nat} {tree : OpenDerivation}
  {log : List Mismatch} {visits : Nat}

/-- No frame on the path lies before the item. -/
theorem le_of_mem_path (h : Underway rules text item offset tree log visits)
    (hoffset : offset ≤ text.length) : ∀ f ∈ tree.path, offset ≤ f.offset := by
  induction h with
  | begun =>
    intro f hf
    rw [List.mem_singleton.1 hf]
    exact Nat.le_refl _
  | reference _ _ ih | choice _ _ _ ih =>
    intro f hf
    rcases List.mem_cons.1 hf with rfl | hf
    · exact Nat.le_refl _
    · exact ih hoffset f hf
  | sequence done _ _ ih =>
    obtain ⟨hle, hlen⟩ := done.stop_bounds hoffset
    intro f hf
    rcases List.mem_cons.1 hf with rfl | hf
    · exact Nat.le_refl _
    · exact Nat.le_trans hle (ih hlen f hf)

/-- A call on the path at the offset of the item is one that the item leads to. -/
theorem leadsTo_of_mem_path (h : Underway rules text item offset tree log visits)
    (hoffset : offset ≤ text.length) {name : String} :
    ∀ f ∈ tree.path, f.call? = some (name, offset) → item.LeadsTo rules name := by
  induction h with
  | begun =>
    intro f hf hcall
    rw [List.mem_singleton.1 hf] at hcall
    obtain ⟨rfl, -⟩ := Frame.call?_eq_some.1 hcall
    exact ⟨_, name, rfl, .here, .refl⟩
  | @reference caller _ _ _ _ _ found _ ih =>
    intro f hf hcall
    rcases List.mem_cons.1 hf with rfl | hf
    · cases hcall
      exact ⟨_, name, rfl, .here, .refl⟩
    · obtain ⟨rule, first, rfl, hoccurs, hcalls⟩ := ih hoffset f hf hcall
      exact ⟨_, caller, rfl, .here, .head ⟨rule, found, hoccurs⟩ hcalls⟩
  | sequence done here body ih =>
    intro f hf hcall
    rcases List.mem_cons.1 hf with rfl | hf
    · cases hcall
    · obtain ⟨hle, hlen⟩ := done.stop_bounds hoffset
      have hmiddle := body.le_of_mem_path hlen f hf
      have hstop := (Frame.call?_eq_some.1 hcall).2
      -- the elements before it have taken no text
      obtain rfl : _ = _ := Nat.le_antisymm hle (hstop ▸ hmiddle)
      have hbefore : ∀ r ∈ _, Rule.PossiblyEmpty rules r := done.possiblyEmpty hoffset rfl
      obtain ⟨rule, first, hrule, hoccurs, hcalls⟩ := ih hoffset f hf hcall
      cases hrule
      exact ⟨_, first, rfl, .sequence here hbefore hoccurs, hcalls⟩
  | choice _ here _ ih =>
    intro f hf hcall
    rcases List.mem_cons.1 hf with rfl | hf
    · cases hcall
    · obtain ⟨rule, first, hrule, hoccurs, hcalls⟩ := ih hoffset f hf hcall
      cases hrule
      exact ⟨_, first, rfl, .choice (List.mem_of_getElem? here) hoccurs, hcalls⟩

/-- Of two calls at the same offset on the path the first leads to the second by left calls. -/
theorem pairwise_leftCalls (h : Underway rules text item offset tree log visits)
    (hoffset : offset ≤ text.length) :
    tree.path.Pairwise fun outer inner => ∀ name other middle,
      outer.call? = some (name, middle) → inner.call? = some (other, middle) →
        Relation.TransGen rules.LeftCalls name other := by
  induction h with
  | begun => exact List.pairwise_singleton _ _
  | reference found body ih =>
    refine List.pairwise_cons.2 ⟨?_, ih hoffset⟩
    rintro f hf name other middle ⟨⟩ hcall
    obtain ⟨rule, first, rfl, hoccurs, hcalls⟩ := body.leadsTo_of_mem_path hoffset f hf hcall
    exact .head' ⟨rule, found, hoccurs⟩ hcalls
  | sequence done _ _ ih =>
    refine List.pairwise_cons.2 ⟨?_, ih (done.stop_bounds hoffset).2⟩
    rintro f hf name other middle ⟨⟩
  | choice _ _ _ ih =>
    refine List.pairwise_cons.2 ⟨?_, ih hoffset⟩
    rintro f hf name other middle ⟨⟩

/-- Without left recursion no path meets a call again. -/
theorem nodup_calls_of_not_leftRecursive (hrules : ¬ rules.LeftRecursive)
    (h : Underway rules text item offset tree log visits) (hoffset : offset ≤ text.length) :
    tree.calls.Nodup := by
  refine List.pairwise_filterMap.2 ((h.pairwise_leftCalls hoffset).imp ?_)
  rintro outer inner hcalls ⟨name, middle⟩ houter _ hinner rfl
  exact hrules ⟨name, hcalls name name middle houter hinner⟩

end Underway

/-- Names with ranks that go down along all left calls are not left recursive. -/
theorem RuleMap.not_leftRecursive_of_rank {rules : RuleMap} (rank : String → Nat)
    (h : ∀ name other, rules.LeftCalls name other → rank other < rank name) :
    ¬ rules.LeftRecursive := by
  have hclosure : ∀ name other, Relation.TransGen rules.LeftCalls name other →
      rank other < rank name := by
    intro name other hcalls
    induction hcalls with
    | single hcall => exact h _ _ hcall
    | tail _ hcall ih => exact Nat.lt_trans (h _ _ hcall) ih
  rintro ⟨name, hcycle⟩
  exact Nat.lt_irrefl _ (hclosure name name hcycle)

/-! ## Runs that end -/

/-- A literal is possibly empty only if it is empty. -/
theorem Rule.possiblyEmpty_literal_iff {rules : RuleMap} {s : String} :
    (Rule.terminal (.literal s)).PossiblyEmpty rules ↔ s = "" := by
  constructor
  · rintro ⟨⟩
    rfl
  · rintro rfl
    exact .emptyLiteral

/-- Any number of a's, each with or without an x before it, and then one b. -/
def Grammar.marked : Grammar where
  rules := .ofList [
    ("S", .rule (.choice (.seq (.ref "Mark") [.terminal (.literal "a"), .ref "S"])
      (.terminal (.literal "b")) [])),
    ("Mark", .rule (.choice (.terminal (.literal "x")) (.terminal (.literal "")) []))]
  start := "S"

/-- The mark is all that is called on the left. -/
theorem Grammar.leftCalls_marked {name other : String} (h : marked.rules.LeftCalls name other) :
    name = "S" ∧ other = "Mark" := by
  obtain ⟨rule, found, occurs⟩ := h
  have hentry : (name, Item.rule rule) ∈ marked.rules.entries := by
    obtain ⟨front, back, hentries, -⟩ := List.lookup_eq_some_iff.1 found
    rw [hentries]
    simp
  have hnot : ¬ (Rule.terminal (.literal "a")).PossiblyEmpty marked.rules := by
    rw [Rule.possiblyEmpty_literal_iff]
    decide
  rcases List.mem_cons.1 hentry with hS | hentry
  · cases hS
    cases occurs with
    | choice branch occurs =>
    rcases List.mem_cons.1 branch with rfl | branch
    · cases occurs with
      | @sequence _ _ cursor _ element before occurs =>
      match cursor, element with
      | 0, rfl =>
        cases occurs
        exact ⟨rfl, rfl⟩
      | 1, rfl => cases occurs
      | 2, _ => exact absurd (before _ (by simp)) hnot
    · rw [List.mem_singleton.1 branch] at occurs
      cases occurs
  · cases List.mem_singleton.1 hentry
    cases occurs with
    | choice branch occurs =>
    rcases List.mem_cons.1 branch with rfl | branch
    · cases occurs
    · rw [List.mem_singleton.1 branch] at occurs
      cases occurs

theorem Grammar.not_leftRecursive_marked : ¬ marked.rules.LeftRecursive := by
  refine RuleMap.not_leftRecursive_of_rank (fun name => if name = "S" then 1 else 0) ?_
  intro name other hcall
  obtain ⟨rfl, rfl⟩ := leftCalls_marked hcall
  decide

namespace Machine

/-- A machine over a checked grammar of rule expressions without left recursion that started from a
defined name finishes after some number of calls, and none of them is refused. -/
theorem finishes_of_not_leftRecursive {grammar : Grammar} (hcheck : grammar.check = .ok ())
    (hrules : grammar.rules.Expressions) (hrecursive : ¬ grammar.rules.LeftRecursive)
    (text : List Char) {name : String} (hname : grammar.rules.contains name = true) :
    ∃ calls, ((start name).after grammar.rules text calls).status ≠ .running ∧
      ∀ earlier < calls, ((start name).after grammar.rules text earlier).status = .running ∧
        (((start name).after grammar.rules text earlier).advance grammar.rules text).fault? =
          none := by
  have hsound := Grammar.sound_of_check hcheck hrules
  have hgives : ∃ verdict, grammar.rules.Gives text name verdict :=
    comesOut_of_nodup_calls (Nat.zero_le _) fun _ _ _ hunderway =>
      hunderway.nodup_calls_of_not_leftRecursive hrecursive (Nat.zero_le _)
  have hfinishes : ∃ calls, ((start name).after grammar.rules text calls).status ≠ .running := by
    by_contra hnone
    push Not at hnone
    exact (running_forever_iff hsound hname text).1 hnone hgives
  refine ⟨Nat.find hfinishes, Nat.find_spec hfinishes, fun earlier hearlier => ?_⟩
  have hrunning : ((start name).after grammar.rules text earlier).status = .running :=
    Decidable.of_not_not (Nat.find_min hfinishes hearlier)
  exact ⟨hrunning, fault?_of_sound hsound hname hrunning⟩

end Machine

end AnyLibrary

namespace Machine

theorem finishes_of_not_leftRecursive_marked :
    Grammar.marked.check = .ok () ∧ Grammar.marked.rules.Expressions ∧
      ¬ Grammar.marked.rules.LeftRecursive ∧ Grammar.marked.rules.contains "S" = true ∧
      ∃ calls,
        ((start "S").after Grammar.marked.rules ['x', 'a', 'a', 'c'] calls).status ≠ .running ∧
        ∀ earlier < calls,
          ((start "S").after Grammar.marked.rules ['x', 'a', 'a', 'c'] earlier).status = .running ∧
          (((start "S").after Grammar.marked.rules ['x', 'a', 'a', 'c'] earlier).advance
            Grammar.marked.rules ['x', 'a', 'a', 'c']).fault? = none :=
  have hcheck : Grammar.marked.check = .ok () := by decide
  have hrules : Grammar.marked.rules.Expressions := by decide
  have hname : Grammar.marked.rules.contains "S" = true := by decide
  ⟨hcheck, hrules, Grammar.not_leftRecursive_marked, hname,
    finishes_of_not_leftRecursive hcheck hrules Grammar.not_leftRecursive_marked
      ['x', 'a', 'a', 'c'] hname⟩

end Machine

end PegMachine
