import PegMachine.Machine.Basic
import PegMachine.Semantics.Derivation

/-!
# Recursive evaluation

The meaning of a rule, said without a stack. A terminal asks its matcher; a reference is evaluated
as what it names; a sequence evaluates its elements from left to right, each where the one before
ended, up to the first that does not succeed; a choice evaluates its branches in order, each at the
offset of the choice, and is the first one that does not fail. A fault is neither success nor
failure: it ends the evaluation of everything around it.

`Evaluates goal offset verdict log visits` says how a goal comes out at an offset, which mismatches
of terminals are met on the way, in order, and how many references, sequences, choices and terminals
are evaluated. Under a left-recursive grammar a goal may come out in no way; it never comes out in
two ways (`Evaluates.deterministic`).
-/

namespace PegMachine

variable [RegexLibrary]

/-- A terminal that did not match, in the words of its failure message. -/
structure Mismatch where
  offset : Nat
  message : String
  deriving DecidableEq

/-- What is evaluated: an item, the elements of a sequence that are left, or a choice from one of its
branches on. -/
inductive Goal where
  | item (item : Item)
  | elements (rules : List Rule)
  | branches (choice : Rule) (branch : Nat)

/-- The goal of evaluating a rule. -/
abbrev Goal.rule (rule : Rule) : Goal := .item (.rule rule)

/-- How a goal comes out. A success has its derivations and the offset where it ends. -/
inductive Verdict where
  | success (trees : List Derivation) (stop : Nat)
  | failure
  | fault (fault : Fault)

namespace Verdict

/-- The verdict on a goal whose derivations stand under a frame. -/
def under (frame : Frame) : Verdict → Verdict
  | .success trees stop => .success [.node frame trees] stop
  | .failure => .failure
  | .fault f => .fault f

/-- The verdict on a goal that begins with the given derivations. -/
def after (trees : List Derivation) : Verdict → Verdict
  | .success more stop => .success (trees ++ more) stop
  | .failure => .failure
  | .fault f => .fault f

/-- Is the verdict a success? -/
def IsSuccess : Verdict → Prop
  | .success .. => True
  | _ => False

end Verdict

/-- How a goal comes out at an offset, with the mismatches met and the number of evaluations. -/
inductive Evaluates (rules : RuleMap) (text : List Char) :
    Goal → Nat → Verdict → List Mismatch → Nat → Prop where
  | undefined {name offset} (missing : rules.get? name = none) :
    Evaluates rules text (.rule (.ref name)) offset (.fault (.undefined ⟨name⟩)) [] 1
  | reference {name offset item verdict log visits} (found : rules.get? name = some item)
    (body : Evaluates rules text (.item item) offset verdict log visits) :
    Evaluates rules text (.rule (.ref name)) offset (verdict.under (.reference name offset)) log
      (visits + 1)
  | matched {matcher offset stop} (ends : matcher.matchEnd? text offset = some stop) :
    Evaluates rules text (.rule (.terminal matcher)) offset
      (.success [.node (.terminal matcher offset ((text.drop offset).take (stop - offset))) []] stop)
      [] 1
  | mismatched {matcher offset message} (refused : matcher.matchEnd? text offset = none)
    (described : matcher.failureMessage = .ok message) :
    Evaluates rules text (.rule (.terminal matcher)) offset .failure [⟨offset, message⟩] 1
  | indescribable {matcher offset error} (refused : matcher.matchEnd? text offset = none)
    (undescribed : matcher.failureMessage = .error error) :
    Evaluates rules text (.rule (.terminal matcher)) offset (.fault (.indescribable error)) [] 1
  | sequence {first rest offset verdict log visits}
    (body : Evaluates rules text (.elements (first :: rest)) offset verdict log visits) :
    Evaluates rules text (.rule (.seq first rest)) offset
      (verdict.under (.sequence first rest offset)) log (visits + 1)
  | choice {first second rest offset verdict log visits}
    (body : Evaluates rules text (.branches (.choice first second rest) 0) offset verdict log
      visits) :
    Evaluates rules text (.rule (.choice first second rest)) offset verdict log (visits + 1)
  | separator {offset} :
    Evaluates rules text (.item .separator) offset (.fault (.notARule .separator)) [] 1
  | atom {value offset} :
    Evaluates rules text (.item (.atom value)) offset (.fault (.notARule (.atom value))) [] 1
  | noElements {offset} : Evaluates rules text (.elements []) offset (.success [] offset) [] 0
  | element {rule others offset trees stop verdict log log' visits visits'}
    (head : Evaluates rules text (.rule rule) offset (.success trees stop) log visits)
    (tail : Evaluates rules text (.elements others) stop verdict log' visits') :
    Evaluates rules text (.elements (rule :: others)) offset (verdict.after trees) (log ++ log')
      (visits + visits')
  | elementStops {rule others offset verdict log visits} (stops : ¬ verdict.IsSuccess)
    (head : Evaluates rules text (.rule rule) offset verdict log visits) :
    Evaluates rules text (.elements (rule :: others)) offset verdict log visits
  | noBranch {rule branch offset} (beyond : rule.parts[branch]? = none) :
    Evaluates rules text (.branches rule branch) offset .failure [] 0
  | branch {rule branch part offset trees stop log visits}
    (here : rule.parts[branch]? = some part)
    (head : Evaluates rules text (.rule part) offset (.success trees stop) log visits) :
    Evaluates rules text (.branches rule branch) offset
      (.success [.node (.choice rule offset branch) trees] stop) log visits
  | branchFault {rule branch part offset fault log visits}
    (here : rule.parts[branch]? = some part)
    (head : Evaluates rules text (.rule part) offset (.fault fault) log visits) :
    Evaluates rules text (.branches rule branch) offset (.fault fault) log visits
  | branchFails {rule branch part offset verdict log log' visits visits'}
    (here : rule.parts[branch]? = some part)
    (head : Evaluates rules text (.rule part) offset .failure log visits)
    (tail : Evaluates rules text (.branches rule (branch + 1)) offset verdict log' visits') :
    Evaluates rules text (.branches rule branch) offset verdict (log ++ log') (visits + visits')

namespace Evaluates

section Inversion

variable {rules : RuleMap} {text : List Char} {offset : Nat} {verdict : Verdict}
  {log : List Mismatch} {visits : Nat}

/-- A defined reference comes out as what it names. -/
theorem of_reference {name : String} {item : Item} (found : rules.get? name = some item)
    (h : Evaluates rules text (.rule (.ref name)) offset verdict log visits) :
    ∃ verdict' visits', Evaluates rules text (.item item) offset verdict' log visits' ∧
      verdict = verdict'.under (.reference name offset) ∧ visits = visits' + 1 := by
  cases h with
  | undefined missing => simp [missing] at found
  | reference found' body =>
    cases found.symm.trans found'
    exact ⟨_, _, body, rfl, rfl⟩

/-- A choice comes out, from a branch on, as that branch does, unless it fails: then as from the next
branch on. -/
theorem of_branches {rule part : Rule} {branch : Nat} (here : rule.parts[branch]? = some part)
    (h : Evaluates rules text (.branches rule branch) offset verdict log visits) :
    (∃ trees stop, Evaluates rules text (.rule part) offset (.success trees stop) log visits ∧
        verdict = .success [.node (.choice rule offset branch) trees] stop) ∨
      (∃ fault, Evaluates rules text (.rule part) offset (.fault fault) log visits ∧
        verdict = .fault fault) ∨
      ∃ log₁ log₂ visits₁ visits₂,
        Evaluates rules text (.rule part) offset .failure log₁ visits₁ ∧
        Evaluates rules text (.branches rule (branch + 1)) offset verdict log₂ visits₂ ∧
        log = log₁ ++ log₂ ∧ visits = visits₁ + visits₂ := by
  cases h with
  | noBranch beyond => simp [beyond] at here
  | branch here' head =>
    cases here.symm.trans here'
    exact Or.inl ⟨_, _, head, rfl⟩
  | branchFault here' head =>
    cases here.symm.trans here'
    exact Or.inr (Or.inl ⟨_, head, rfl⟩)
  | branchFails here' head tail =>
    cases here.symm.trans here'
    exact Or.inr (Or.inr ⟨_, _, _, _, head, tail, rfl, rfl⟩)

end Inversion

/-- A goal comes out in one way only. -/
theorem deterministic {rules : RuleMap} {text : List Char} {goal : Goal} {offset : Nat}
    {verdict verdict' : Verdict} {log log' : List Mismatch} {visits visits' : Nat}
    (h : Evaluates rules text goal offset verdict log visits)
    (h' : Evaluates rules text goal offset verdict' log' visits') :
    verdict = verdict' ∧ log = log' ∧ visits = visits' := by
  induction h generalizing verdict' log' visits' with
  | undefined missing =>
    cases h' with
    | undefined _ => exact ⟨rfl, rfl, rfl⟩
    | reference found _ => simp [missing] at found
  | reference found _ ih =>
    obtain ⟨_, _, body, rfl, rfl⟩ := h'.of_reference found
    obtain ⟨rfl, rfl, rfl⟩ := ih body
    exact ⟨rfl, rfl, rfl⟩
  | matched ends =>
    cases h' with
    | matched ends' =>
      cases ends.symm.trans ends'
      exact ⟨rfl, rfl, rfl⟩
    | mismatched refused _ => simp [ends] at refused
    | indescribable refused _ => simp [ends] at refused
  | mismatched refused described =>
    cases h' with
    | matched ends => simp [refused] at ends
    | mismatched _ described' =>
      cases described.symm.trans described'
      exact ⟨rfl, rfl, rfl⟩
    | indescribable _ undescribed => simp [described] at undescribed
  | indescribable refused undescribed =>
    cases h' with
    | matched ends => simp [refused] at ends
    | mismatched _ described => simp [undescribed] at described
    | indescribable _ undescribed' =>
      cases undescribed.symm.trans undescribed'
      exact ⟨rfl, rfl, rfl⟩
  | sequence _ ih =>
    cases h' with
    | sequence body =>
      obtain ⟨rfl, rfl, rfl⟩ := ih body
      exact ⟨rfl, rfl, rfl⟩
  | choice _ ih =>
    cases h' with
    | choice body =>
      obtain ⟨rfl, rfl, rfl⟩ := ih body
      exact ⟨rfl, rfl, rfl⟩
  | separator => cases h'; exact ⟨rfl, rfl, rfl⟩
  | atom => cases h'; exact ⟨rfl, rfl, rfl⟩
  | noElements => cases h'; exact ⟨rfl, rfl, rfl⟩
  | element _ _ ihHead ihTail =>
    cases h' with
    | element head tail =>
      obtain ⟨hv, rfl, rfl⟩ := ihHead head
      cases hv
      obtain ⟨rfl, rfl, rfl⟩ := ihTail tail
      exact ⟨rfl, rfl, rfl⟩
    | elementStops stops head =>
      obtain ⟨rfl, _, _⟩ := ihHead head
      exact absurd trivial stops
  | elementStops stops _ ih =>
    cases h' with
    | element head tail =>
      obtain ⟨rfl, _, _⟩ := ih head
      exact absurd trivial stops
    | elementStops _ head => exact ih head
  | noBranch beyond =>
    cases h' with
    | noBranch _ => exact ⟨rfl, rfl, rfl⟩
    | branch here _ => simp [beyond] at here
    | branchFault here _ => simp [beyond] at here
    | branchFails here _ _ => simp [beyond] at here
  | branch here _ ih =>
    rcases h'.of_branches here with ⟨_, _, head, rfl⟩ | ⟨_, head, rfl⟩ | ⟨_, _, _, _, head, _, _, _⟩
    · obtain ⟨hverdict, rfl, rfl⟩ := ih head
      cases hverdict
      exact ⟨rfl, rfl, rfl⟩
    · cases (ih head).1
    · cases (ih head).1
  | branchFault here _ ih =>
    rcases h'.of_branches here with ⟨_, _, head, rfl⟩ | ⟨_, head, rfl⟩ | ⟨_, _, _, _, head, _, _, _⟩
    · cases (ih head).1
    · obtain ⟨hverdict, rfl, rfl⟩ := ih head
      cases hverdict
      exact ⟨rfl, rfl, rfl⟩
    · cases (ih head).1
  | branchFails here _ _ ihHead ihTail =>
    rcases h'.of_branches here with ⟨_, _, head, rfl⟩ | ⟨_, head, rfl⟩ |
      ⟨_, _, _, _, head, tail, rfl, rfl⟩
    · cases (ihHead head).1
    · cases (ihHead head).1
    · obtain ⟨_, rfl, rfl⟩ := ihHead head
      obtain ⟨rfl, rfl, rfl⟩ := ihTail tail
      exact ⟨rfl, rfl, rfl⟩

end Evaluates

end PegMachine
