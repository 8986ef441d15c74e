import PegMachine.Matcher.Bounds
import PegMachine.Proofs.Walks
import PegMachine.Semantics.Evaluation

/-!
# What an evaluation gives

Facts of the recursive evaluation alone. A success ends inside the text (`Evaluates.stop_bounds`),
has one derivation for each part of its goal (`Evaluates.length_trees`), and leaves closed frames
only (`Evaluates.closed`). Mismatches lie inside the text (`Evaluates.log_bounds`), and a failure
has at least one (`Evaluates.log_ne_nil`).

The elements of a sequence can be evaluated in two goes (`Evaluates.elements_append`), and every
evaluation of them falls into two at each element that is reached (`Evaluates.elements_split`). So
does a choice at each branch that is reached: `BranchesFail` says that all branches before it fail.
-/

namespace PegMachine

variable [RegexLibrary]

namespace Verdict

/-- A verdict that has the property if it is a success. -/
def OnSuccess (property : List Derivation → Nat → Prop) : Verdict → Prop
  | .success trees stop => property trees stop
  | _ => True

section OnSuccess

variable {property other : List Derivation → Nat → Prop} {verdict : Verdict}

theorem OnSuccess.of_forall (h : ∀ trees stop, property trees stop) : verdict.OnSuccess property := by
  cases verdict with
  | success trees stop => exact h trees stop
  | failure => trivial
  | fault f => trivial

theorem OnSuccess.imp (h : verdict.OnSuccess property)
    (himp : ∀ trees stop, property trees stop → other trees stop) : verdict.OnSuccess other := by
  cases verdict with
  | success trees stop => exact himp trees stop h
  | failure => trivial
  | fault f => trivial

theorem OnSuccess.under {frame : Frame}
    (h : verdict.OnSuccess fun trees stop => property [.node frame trees] stop) :
    (verdict.under frame).OnSuccess property := by
  cases verdict with
  | success trees stop => exact h
  | failure => trivial
  | fault f => trivial

theorem OnSuccess.after {trees : List Derivation}
    (h : verdict.OnSuccess fun more stop => property (trees ++ more) stop) :
    (verdict.after trees).OnSuccess property := by
  cases verdict with
  | success more stop => exact h
  | failure => trivial
  | fault f => trivial

end OnSuccess

@[simp] theorem after_nil (verdict : Verdict) : verdict.after [] = verdict := by
  cases verdict <;> rfl

theorem after_append (verdict : Verdict) (trees more : List Derivation) :
    verdict.after (trees ++ more) = (verdict.after more).after trees := by
  cases verdict with
  | success last stop => simp [after]
  | failure => rfl
  | fault f => rfl

theorem not_isSuccess_failure : ¬ failure.IsSuccess := id

theorem not_isSuccess_fault (f : Fault) : ¬ (fault f).IsSuccess := id

end Verdict

namespace Goal

/-- A goal that an evaluation of an item can come to: branches are those of a choice. -/
def Proper : Goal → Prop
  | .branches rule _ => rule.isChoice = true
  | _ => True

/-- The number of derivations that a success of the goal has. -/
def width : Goal → Nat
  | .elements rules => rules.length
  | _ => 1

end Goal

namespace Evaluates

variable {rules : RuleMap} {text : List Char} {goal : Goal} {offset : Nat} {verdict : Verdict}
  {log : List Mismatch} {visits : Nat}

/-- A success ends at or after the offset where it began and inside the text. -/
theorem stop_bounds (h : Evaluates rules text goal offset verdict log visits)
    (hoffset : offset ≤ text.length) :
    verdict.OnSuccess fun _ stop => offset ≤ stop ∧ stop ≤ text.length := by
  induction h with
  | matched ends => exact Matcher.matchEnd?_bounds hoffset ends
  | reference _ _ ih | sequence _ ih => exact Verdict.OnSuccess.under (ih hoffset)
  | choice _ ih | branch _ _ ih | branchFails _ _ _ _ ih | elementStops _ _ ih => exact ih hoffset
  | noElements => exact ⟨Nat.le_refl _, hoffset⟩
  | element _ _ ihHead ihTail =>
    obtain ⟨hle, hlen⟩ := ihHead hoffset
    apply Verdict.OnSuccess.after
    apply (ihTail hlen).imp
    rintro _ _ ⟨hle', hlen'⟩
    exact ⟨Nat.le_trans hle hle', hlen'⟩
  | undefined | mismatched | indescribable | separator | atom | noBranch | branchFault => trivial

/-- Every mismatch lies inside the text. -/
theorem log_bounds (h : Evaluates rules text goal offset verdict log visits)
    (hoffset : offset ≤ text.length) : ∀ m ∈ log, m.offset ≤ text.length := by
  induction h with
  | mismatched =>
    intro m hm
    rw [List.mem_singleton.1 hm]
    exact hoffset
  | reference _ _ ih | sequence _ ih | choice _ ih | branch _ _ ih | branchFault _ _ ih
  | elementStops _ _ ih => exact ih hoffset
  | element head _ ihHead ihTail =>
    have hstop := (head.stop_bounds hoffset).2
    intro m hm
    rcases List.mem_append.1 hm with hm | hm
    · exact ihHead hoffset m hm
    · exact ihTail hstop m hm
  | branchFails _ _ _ ihHead ihTail =>
    intro m hm
    rcases List.mem_append.1 hm with hm | hm
    · exact ihHead hoffset m hm
    · exact ihTail hoffset m hm
  | undefined | matched | indescribable | separator | atom | noElements | noBranch =>
    intro m hm
    exact absurd hm List.not_mem_nil

/-- A success has a derivation for each part of its goal. -/
theorem length_trees (h : Evaluates rules text goal offset verdict log visits) :
    verdict.OnSuccess fun trees _ => trees.length = goal.width := by
  induction h with
  | matched | noElements | branch => rfl
  | reference | sequence => exact Verdict.OnSuccess.under (.of_forall fun _ _ => rfl)
  | choice _ ih | branchFails _ _ _ _ ih => exact ih
  | element _ _ ihHead ihTail =>
    apply Verdict.OnSuccess.after
    apply ihTail.imp
    intro more _ hmore
    have hhead : _ = 1 := ihHead
    have htail : more.length = _ := hmore
    simp only [Goal.width, List.length_append, List.length_cons, hhead, htail]
    omega
  | @elementStops _ _ _ verdict _ _ stops =>
    cases verdict with
    | success => exact absurd trivial stops
    | failure => trivial
    | fault => trivial
  | undefined | mismatched | indescribable | separator | atom | noBranch | branchFault => trivial

/-- A success of an item has one derivation. -/
theorem singleton_trees {item : Item} {trees : List Derivation} {stop : Nat}
    (h : Evaluates rules text (.item item) offset (.success trees stop) log visits) :
    ∃ tree, trees = [tree] :=
  List.length_eq_one_iff.1 h.length_trees

/-- No walk stops at a frame of a success. -/
theorem closed (h : Evaluates rules text goal offset verdict log visits) (hgoal : goal.Proper) :
    verdict.OnSuccess fun trees _ => ∀ f ∈ Derivation.listingAll trees, f.Closed := by
  induction h with
  | matched =>
    intro f hf
    rw [List.mem_singleton.1 hf]
    exact Frame.closed_terminal _ _ _
  | reference _ _ ih =>
    apply Verdict.OnSuccess.under
    apply (ih trivial).imp
    intro trees _ hclosed f hf
    rw [Derivation.listingAll_node] at hf
    rcases List.mem_cons.1 hf with rfl | hf
    · exact Frame.closed_reference _ _
    · exact hclosed f hf
  | sequence _ ih =>
    apply Verdict.OnSuccess.under
    apply (ih trivial).imp
    intro trees _ hclosed f hf
    rw [Derivation.listingAll_node] at hf
    rcases List.mem_cons.1 hf with rfl | hf
    · exact Frame.closed_sequence _ _ _
    · exact hclosed f hf
  | choice _ ih => exact ih rfl
  | noElements => exact fun f hf => absurd hf List.not_mem_nil
  | element _ _ ihHead ihTail =>
    apply Verdict.OnSuccess.after
    apply (ihTail trivial).imp
    intro more _ hclosed f hf
    rw [Derivation.listingAll_append] at hf
    rcases List.mem_append.1 hf with hf | hf
    · exact ihHead trivial f hf
    · exact hclosed f hf
  | elementStops _ _ ih => exact ih trivial
  | branch _ _ ih =>
    intro f hf
    rw [Derivation.listingAll_node] at hf
    rcases List.mem_cons.1 hf with rfl | hf
    · exact Frame.closed_choice hgoal _ _
    · exact ih trivial f hf
  | branchFails _ _ _ _ ih => exact ih hgoal
  | undefined | mismatched | indescribable | separator | atom | noBranch | branchFault => trivial

/-- On a stack no walk stops at a frame of a success either. -/
theorem closed_stack {trees : List Derivation} {stop : Nat}
    (h : Evaluates rules text goal offset (.success trees stop) log visits) (hgoal : goal.Proper) :
    ∀ f ∈ (Derivation.listingAll trees).reverse, f.Closed := by
  intro f hf
  have hmem : f ∈ Derivation.listingAll trees := List.mem_reverse.1 hf
  exact h.closed hgoal f hmem

/-- Evaluating an item takes a visit at least. -/
theorem visits_pos {item : Item} (h : Evaluates rules text (.item item) offset verdict log visits) :
    0 < visits := by
  cases h <;> omega

/-- A failure has met a mismatch, unless there was no branch to try. -/
theorem log_ne_nil (h : Evaluates rules text goal offset verdict log visits)
    (hfailure : verdict = .failure) (hbranch : ∀ rule branch, goal = .branches rule branch →
      rule.parts[branch]? ≠ none) : log ≠ [] := by
  induction h with
  | mismatched => exact List.cons_ne_nil _ _
  | @reference _ _ _ verdict _ _ _ _ ih | @sequence _ _ _ verdict _ _ _ ih =>
    cases verdict with
    | success => cases hfailure
    | failure => exact ih rfl nofun
    | fault => cases hfailure
  | choice _ ih =>
    apply ih hfailure
    rintro _ _ ⟨⟩
    exact Option.some_ne_none _
  | @element _ _ _ _ _ verdict _ _ _ _ _ _ _ ihTail =>
    cases verdict with
    | success => cases hfailure
    | failure => exact List.append_ne_nil_of_right_ne_nil _ (ihTail rfl nofun)
    | fault => cases hfailure
  | elementStops _ _ ih => exact ih hfailure nofun
  | noBranch beyond => exact absurd beyond (hbranch _ _ rfl)
  | branchFails _ _ _ ihHead =>
    exact List.append_ne_nil_of_left_ne_nil (ihHead rfl nofun) _
  | undefined | matched | indescribable | separator | atom | noElements | branch | branchFault =>
    cases hfailure

/-! ## Sequences in two goes -/

/-- The first elements succeed, and the others are evaluated where they ended. -/
theorem elements_append {front others : List Rule} {trees : List Derivation} {middle : Nat}
    {log' : List Mismatch} {visits' : Nat}
    (h : Evaluates rules text (.elements front) offset (.success trees middle) log visits)
    (h' : Evaluates rules text (.elements others) middle verdict log' visits') :
    Evaluates rules text (.elements (front ++ others)) offset (verdict.after trees) (log ++ log')
      (visits + visits') := by
  generalize hgoal : Goal.elements front = goal at h
  generalize hverdict : Verdict.success trees middle = success at h
  induction h generalizing front trees with
  | noElements =>
    cases hgoal
    cases hverdict
    simpa using h'
  | @element rule rest offset first reached tailVerdict log log' visits visits' head tail _ ih =>
    cases hgoal
    cases tailVerdict with
    | success more stop =>
      cases hverdict
      rw [Verdict.after_append, List.append_assoc, Nat.add_assoc]
      exact Evaluates.element head (ih rfl rfl)
    | failure => cases hverdict
    | fault => cases hverdict
  | elementStops stops =>
    subst hverdict
    exact absurd trivial stops
  | _ => cases hgoal

/-- Elements come out as the others do where the first ones ended, if those succeed. -/
theorem elements_split {front others : List Rule} {trees : List Derivation} {middle : Nat}
    {log' : List Mismatch} {visits' : Nat}
    (h : Evaluates rules text (.elements front) offset (.success trees middle) log visits)
    (h' : Evaluates rules text (.elements (front ++ others)) offset verdict log' visits') :
    ∃ verdict' log'' visits'',
      Evaluates rules text (.elements others) middle verdict' log'' visits'' ∧
        verdict = verdict'.after trees ∧ log' = log ++ log'' ∧ visits' = visits + visits'' := by
  generalize hgoal : Goal.elements front = goal at h
  generalize hverdict : Verdict.success trees middle = success at h
  induction h generalizing front trees verdict log' visits' with
  | noElements =>
    cases hgoal
    cases hverdict
    exact ⟨verdict, log', visits', h', by simp⟩
  | @element rule rest offset first reached tailVerdict log log' visits visits' head tail _ ih =>
    cases hgoal
    cases tailVerdict with
    | success more stop =>
      cases hverdict
      cases h' with
      | element head' tail' =>
        obtain ⟨hsame, rfl, rfl⟩ := head.deterministic head'
        cases hsame
        obtain ⟨verdict', log'', visits'', others, rfl, rfl, rfl⟩ := ih tail' rfl rfl
        exact ⟨verdict', log'', visits'', others, by rw [Verdict.after_append],
          by rw [List.append_assoc], by rw [Nat.add_assoc]⟩
      | elementStops stops head' =>
        obtain ⟨rfl, -, -⟩ := head.deterministic head'
        exact absurd trivial stops
    | failure => cases hverdict
    | fault => cases hverdict
  | elementStops stops =>
    subst hverdict
    exact absurd trivial stops
  | _ => cases hgoal

end Evaluates

/-! ## Choices in two goes -/

/-- All branches of a choice before the given one fail, with the mismatches met and the number of
evaluations. -/
inductive BranchesFail (rules : RuleMap) (text : List Char) (choice : Rule) (offset : Nat) :
    Nat → List Mismatch → Nat → Prop where
  | start : BranchesFail rules text choice offset 0 [] 0
  | another {branch part log log' visits visits'}
    (before : BranchesFail rules text choice offset branch log visits)
    (here : choice.parts[branch]? = some part)
    (fails : Evaluates rules text (.rule part) offset .failure log' visits') :
    BranchesFail rules text choice offset (branch + 1) (log ++ log') (visits + visits')

namespace BranchesFail

variable {rules : RuleMap} {text : List Char} {choice : Rule} {offset branch : Nat}
  {verdict : Verdict} {log log' : List Mismatch} {visits visits' : Nat}

/-- A choice comes out as it does from the first branch on that has not failed. -/
theorem append (h : BranchesFail rules text choice offset branch log visits)
    (h' : Evaluates rules text (.branches choice branch) offset verdict log' visits') :
    Evaluates rules text (.branches choice 0) offset verdict (log ++ log') (visits + visits') := by
  induction h generalizing verdict log' visits' with
  | start => simpa using h'
  | another _ here fails ih =>
    rw [List.append_assoc, Nat.add_assoc]
    exact ih (Evaluates.branchFails here fails h')

/-- From a branch on before which all have failed a choice comes out as it does. -/
theorem split (h : BranchesFail rules text choice offset branch log visits)
    (h' : Evaluates rules text (.branches choice 0) offset verdict log' visits') :
    ∃ log'' visits'', Evaluates rules text (.branches choice branch) offset verdict log'' visits'' ∧
      log' = log ++ log'' ∧ visits' = visits + visits'' := by
  induction h with
  | start => exact ⟨log', visits', h', by simp⟩
  | another _ here fails ih =>
    obtain ⟨_, _, rest, rfl, rfl⟩ := ih
    rcases rest.of_branches here with ⟨_, _, head, _⟩ | ⟨_, head, _⟩ |
      ⟨_, _, _, _, head, tail, rfl, rfl⟩
    · cases (fails.deterministic head).1
    · cases (fails.deterministic head).1
    · obtain ⟨-, rfl, rfl⟩ := fails.deterministic head
      exact ⟨_, _, tail, by rw [List.append_assoc], by rw [Nat.add_assoc]⟩

end BranchesFail

end PegMachine
