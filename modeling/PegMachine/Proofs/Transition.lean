import PegMachine.Proofs.Underway

/-!
# What one transition does to an evaluation

A machine with the frames of an evaluation under way on top of its stack does one of four things in
a transition (`Advanced`), whatever stands below those frames:

* the evaluation goes on, and what stands below is as it was;
* it succeeds: the frames of its derivations have taken the place of its frames, and the machine
  goes on after them;
* it fails: its frames are gone, and the machine goes back from what stands below;
* it is refused as the evaluation is.

In each case the mismatches that the transition tells of are those that the evaluation meets next.
What a transition is for each kind of frame on top is said once, in front.
`Underway.transition` proves it by induction on the path to the frame in hand: each node turns what
happens to the evaluation below it into what happens to its own.
-/

namespace PegMachine

namespace FurthestFailures

/-- Records mismatches in their order. -/
def recordAll (failures : FurthestFailures) (log : List Mismatch) : FurthestFailures :=
  log.foldl (fun kept m => kept.record m.offset m.message) failures

theorem recordAll_append (failures : FurthestFailures) (a b : List Mismatch) :
    failures.recordAll (a ++ b) = (failures.recordAll a).recordAll b :=
  List.foldl_append

end FurthestFailures

variable [RegexLibrary]

/-- The mismatch that an event tells of. -/
def Event.mismatch? : Event → Option Mismatch
  | .failed offset message => some ⟨offset, message⟩
  | _ => none

/-- Events that tell of no mismatch add none. -/
theorem Event.mismatches_append {events silent : List Event} {new : List Mismatch}
    (told : events.filterMap Event.mismatch? = new) (h : silent.filterMap Event.mismatch? = []) :
    (events ++ silent).filterMap Event.mismatch? = new := by
  rw [List.filterMap_append, told, h, List.append_nil]

namespace Machine

/-! ## The transition of each kind of frame -/

section Kinds

variable {rules : RuleMap} {text : List Char} {machine : Machine} {top : Frame} {below : List Frame}
  {name : String} {matcher : Matcher}

/-- A transition asks the rules for the name on top only. -/
theorem transition_congr {other : RuleMap}
    (h : ∀ top below name, machine.stack = top :: below → top.item = .rule (.ref name) →
      other.get? name = rules.get? name) :
    machine.transition other text = machine.transition rules text := by
  unfold transition
  cases hstack : machine.stack with
  | nil => rfl
  | cons top below =>
    cases hitem : top.item with
    | rule r =>
      cases r with
      | ref name => simp only [hitem, RuleMap.require, h top below name hstack hitem]
      | terminal matcher => simp only [hitem]
      | seq first rest => simp only [hitem]
      | choice first second rest => simp only [hitem]
    | separator => simp only [hitem]
    | atom value => simp only [hitem]

theorem transition_of_defined {item : Item} (hstack : machine.stack = top :: below)
    (hname : top.item = .rule (.ref name)) (found : rules.get? name = some item) :
    machine.transition rules text = machine.push item top.offset := by
  simp only [transition, hstack, hname, RuleMap.require, found]

theorem transition_of_undefined (hstack : machine.stack = top :: below)
    (hname : top.item = .rule (.ref name)) (missing : rules.get? name = none) :
    machine.transition rules text = machine.refuse (.undefined ⟨name⟩) := by
  simp only [transition, hstack, hname, RuleMap.require, missing]

theorem transition_of_match {stop : Nat} (hstack : machine.stack = top :: below)
    (hterminal : top.item = .rule (.terminal matcher))
    (ends : matcher.matchEnd? text top.offset = some stop) :
    machine.transition rules text =
      machine.succeed text top below ((text.drop top.offset).take (stop - top.offset)) := by
  simp only [transition, hstack, hterminal, ends]

theorem transition_of_mismatch {message : String} (hstack : machine.stack = top :: below)
    (hterminal : top.item = .rule (.terminal matcher))
    (refused : matcher.matchEnd? text top.offset = none)
    (described : matcher.failureMessage = .ok message) :
    machine.transition rules text = machine.fail top.offset message := by
  simp only [transition, hstack, hterminal, refused, described]

theorem transition_of_indescribable {error : BoundError} (hstack : machine.stack = top :: below)
    (hterminal : top.item = .rule (.terminal matcher))
    (refused : matcher.matchEnd? text top.offset = none)
    (undescribed : matcher.failureMessage = .error error) :
    machine.transition rules text = machine.refuse (.indescribable error) := by
  simp only [transition, hstack, hterminal, refused, undescribed]

theorem transition_of_hand {r : Rule} {item : Item} (hstack : machine.stack = top :: below)
    (hitem : top.item = .rule r) (hcomposite : r.isComposite = true)
    (hand : top.current? = some item) :
    machine.transition rules text = machine.push item top.offset := by
  cases r with
  | ref => cases hcomposite
  | terminal => cases hcomposite
  | seq first rest => simp only [transition, hstack, hitem, hand]
  | choice first second rest => simp only [transition, hstack, hitem, hand]

theorem transition_of_no_hand {r : Rule} (hstack : machine.stack = top :: below)
    (hitem : top.item = .rule r) (hcomposite : r.isComposite = true)
    (hand : top.current? = none) : machine.transition rules text = machine.refuse .stuck := by
  cases r with
  | ref => cases hcomposite
  | terminal => cases hcomposite
  | seq first rest => simp only [transition, hstack, hitem, hand]
  | choice first second rest => simp only [transition, hstack, hitem, hand]

theorem transition_of_noRule (hstack : machine.stack = top :: below)
    (hitem : top.item.rule? = none) :
    machine.transition rules text = machine.refuse (.notARule top.item) := by
  cases h : top.item with
  | rule r =>
    rw [h] at hitem
    cases hitem
  | separator => simp only [transition, hstack, h]
  | atom value => simp only [transition, hstack, h]

/-- A transition that is refused leaves the machine as it was, and tells of nothing. -/
theorem transition_of_fault {fault : Fault}
    (h : (machine.transition rules text).fault? = some fault) :
    machine.transition rules text = machine.refuse fault := by
  have hnone : ∀ {outcome : Outcome}, outcome.fault? = none → outcome.fault? = some fault →
      outcome = machine.refuse fault := by
    intro outcome hnone hsome
    cases hnone.symm.trans hsome
  have hrefuse : ∀ {other : Fault}, (machine.refuse other).fault? = some fault →
      machine.refuse other = machine.refuse fault := by
    rintro other ⟨⟩
    rfl
  unfold transition at h ⊢
  split at h
  · exact hrefuse h
  · split at h
    · split at h
      · exact hnone rfl h
      · exact hrefuse h
    · split at h
      · exact hnone (succeed_fault? _ _ _ _ _) h
      · split at h
        · exact hnone (fail_fault? _ _ _) h
        · exact hrefuse h
    · split at h
      · exact hnone rfl h
      · exact hrefuse h
    · exact hrefuse h

end Kinds

end Machine

/-! ## The transition of an evaluation under way -/

/-- What a transition gives on a machine that has the frames of an evaluation under way above the
frames `below`. The evaluation has met the mismatches `log` and made the given number of visits. -/
inductive Advanced (rules : RuleMap) (text : List Char) (item : Item) (offset : Nat)
    (below : List Frame) (failures : FurthestFailures) (steps : Nat) (log : List Mismatch)
    (visits : Nat) : Machine.Outcome → Prop where
  | goesOn {tree new events}
    (underway : Underway rules text item offset tree (log ++ new) (visits + 1))
    (told : events.filterMap Event.mismatch? = new) :
    Advanced rules text item offset below failures steps log visits
      { machine := .running (tree.listing.reverse ++ below) (failures.recordAll new) steps, events }
  | succeeds {trees stop new events}
    (evaluated : Evaluates rules text (.item item) offset (.success trees stop) (log ++ new)
      (visits + 1))
    (told : events.filterMap Event.mismatch? = new) :
    Advanced rules text item offset below failures steps log visits
      (Machine.tellingAll events
        ((Machine.running ((Derivation.listingAll trees).reverse ++ below) (failures.recordAll new)
          steps).goOn text stop))
  | fails {new events}
    (evaluated : Evaluates rules text (.item item) offset .failure (log ++ new) (visits + 1))
    (told : events.filterMap Event.mismatch? = new) :
    Advanced rules text item offset below failures steps log visits
      (Machine.tellingAll events
        (Machine.running below (failures.recordAll new) steps).backtrack)
  | faults {outcome fault} (refused : outcome.fault? = some fault)
    (evaluated : Evaluates rules text (.item item) offset (.fault fault) log (visits + 1)) :
    Advanced rules text item offset below failures steps log visits outcome

/-- The elements up to one that succeeds succeed together. -/
theorem Evaluates.elements_concat {rules : RuleMap} {text : List Char} {parts : List Rule}
    {part : Rule} {offset cursor middle stop : Nat} {trees more : List Derivation}
    {log log' : List Mismatch} {visits visits' : Nat}
    (done : Evaluates rules text (.elements (parts.take cursor)) offset (.success trees middle) log
      visits)
    (here : parts[cursor]? = some part)
    (head : Evaluates rules text (.rule part) middle (.success more stop) log' visits') :
    Evaluates rules text (.elements (parts.take (cursor + 1))) offset
      (.success (trees ++ more) stop) (log ++ log') (visits + visits') := by
  have hlast : Evaluates rules text (.elements [part]) middle (.success more stop) log' visits' := by
    simpa [Verdict.after] using head.element .noElements
  rw [List.take_add_one, here]
  exact done.elements_append hlast

namespace Advanced

variable {rules : RuleMap} {text : List Char} {item : Item} {offset : Nat} {below : List Frame}
  {failures : FurthestFailures} {steps : Nat} {log log' : List Mismatch} {visits visits' : Nat}
  {result : Machine.Outcome}

/-- Under a reference. -/
theorem reference {name : String} (found : rules.get? name = some item)
    (h : Advanced rules text item offset (.reference name offset :: below) failures steps log visits
      result) :
    Advanced rules text (.rule (.ref name)) offset below failures steps log (visits + 1) result := by
  cases h with
  | goesOn underway told =>
    have hgoes : Advanced rules text (.rule (.ref name)) offset below failures steps log (visits + 1)
        _ := .goesOn (.reference found underway) told
    rw [OpenDerivation.stack_node] at hgoes
    exact hgoes
  | succeeds evaluated told =>
    rw [Derivation.stack_root]
    exact .succeeds (evaluated.reference found) told
  | fails evaluated told =>
    rw [Machine.backtrack_closed (Frame.closed_reference name offset)]
    exact .fails (evaluated.reference found) told
  | faults refused evaluated => exact .faults refused (evaluated.reference found)

/-- An element of a sequence has succeeded: the next one is begun, or the sequence succeeds. -/
theorem sequence_succeeds {first part : Rule} {rest : List Rule} {cursor middle stop : Nat}
    {trees more : List Derivation} {new : List Mismatch} {events : List Event}
    (done : Evaluates rules text (.elements ((first :: rest).take cursor)) offset
      (.success trees middle) log visits)
    (here : (first :: rest)[cursor]? = some part)
    (evaluated : Evaluates rules text (.rule part) middle (.success more stop) (log' ++ new)
      (visits' + 1))
    (told : events.filterMap Event.mismatch? = new) :
    Advanced rules text (.rule (.seq first rest)) offset below failures steps (log ++ log')
      (visits + visits' + 1)
      (Machine.tellingAll events
        ((Machine.running ((Derivation.listingAll more).reverse ++
          ((Derivation.listingAll trees).reverse ++
            .sequenceAt first rest offset cursor :: below)) (failures.recordAll new)
          steps).goOn text stop)) := by
  have hconcat := done.elements_concat here evaluated
  have hclosed := hconcat.closed_stack trivial
  have hstack : (Derivation.listingAll more).reverse ++
      ((Derivation.listingAll trees).reverse ++ .sequenceAt first rest offset cursor :: below) =
      (Derivation.listingAll (trees ++ more)).reverse ++
        .sequenceAt first rest offset cursor :: below := by
    simp [Derivation.listingAll_append]
  rw [← List.append_assoc, show visits + (visits' + 1) = visits + visits' + 1 from rfl] at hconcat
  rw [hstack]
  -- the walk stops at the sequence if an element is left, and else passes it as a finished one
  cases hnext : (first :: rest)[cursor + 1]? with
  | some next =>
    rw [Machine.goOn_sequenceAt hclosed hnext]
    have hbegun := Underway.sequence hconcat hnext .begun
    rw [List.append_nil] at hbegun
    have hgoes : ∀ depth, Advanced rules text (.rule (.seq first rest)) offset below failures steps
        (log ++ log') (visits + visits' + 1) _ := fun depth =>
      have hsilent : [Event.pushed (.rule next) stop depth].filterMap Event.mismatch? = [] := rfl
      .goesOn hbegun (Event.mismatches_append told hsilent)
    rw [OpenDerivation.stack_node] at hgoes
    exact hgoes _
  | none =>
    have hlt := (List.getElem?_eq_some_iff.1 here).1
    rw [Frame.sequenceAt_last hlt hnext]
    rw [List.take_of_length_le (List.getElem?_eq_none_iff.1 hnext)] at hconcat
    rw [Derivation.stack_root]
    exact .succeeds hconcat.sequence told

/-- An element of a sequence stops its evaluation: so it stops that of the sequence. -/
theorem sequence_stops {first part : Rule} {rest : List Rule} {cursor middle : Nat}
    {trees : List Derivation} {verdict : Verdict}
    (done : Evaluates rules text (.elements ((first :: rest).take cursor)) offset
      (.success trees middle) log visits)
    (here : (first :: rest)[cursor]? = some part) (stops : ¬ verdict.IsSuccess)
    (evaluated : Evaluates rules text (.rule part) middle verdict log' (visits' + 1)) :
    Evaluates rules text (.rule (.seq first rest)) offset
      ((verdict.after trees).under (.sequence first rest offset)) (log ++ log')
      (visits + visits' + 1 + 1) := by
  have hhead : Evaluates rules text (.elements (part :: (first :: rest).drop (cursor + 1))) middle
      verdict log' (visits' + 1) := evaluated.elementStops stops
  have hstops := done.elements_append hhead
  rw [← take_append_of_getElem? here] at hstops
  exact hstops.sequence

/-- Under a sequence. -/
theorem sequence {first part : Rule} {rest : List Rule} {cursor middle : Nat}
    {trees : List Derivation}
    (done : Evaluates rules text (.elements ((first :: rest).take cursor)) offset
      (.success trees middle) log visits)
    (here : (first :: rest)[cursor]? = some part)
    (h : Advanced rules text (.rule part) middle
      ((Derivation.listingAll trees).reverse ++ .sequenceAt first rest offset cursor :: below)
      failures steps log' visits' result) :
    Advanced rules text (.rule (.seq first rest)) offset below failures steps (log ++ log')
      (visits + visits' + 1) result := by
  cases h with
  | goesOn underway told =>
    have hnext := Underway.sequence done here underway
    rw [← List.append_assoc] at hnext
    rw [← OpenDerivation.stack_node]
    exact .goesOn hnext told
  | succeeds evaluated told => exact sequence_succeeds done here evaluated told
  | fails evaluated told =>
    have hdone := done.closed_stack trivial
    have hstops := sequence_stops done here Verdict.not_isSuccess_failure evaluated
    rw [← List.append_assoc] at hstops
    rw [Machine.backtrack_sequenceAt hdone]
    exact .fails hstops told
  | faults refused evaluated =>
    exact .faults refused (sequence_stops done here (Verdict.not_isSuccess_fault _) evaluated)

/-- A branch of a choice has failed: the next one is begun, or the choice fails. -/
theorem choice_fails {first second part : Rule} {rest : List Rule} {branch : Nat}
    {new : List Mismatch} {events : List Event}
    (failed : BranchesFail rules text (.choice first second rest) offset branch log visits)
    (here : (first :: second :: rest)[branch]? = some part)
    (evaluated : Evaluates rules text (.rule part) offset .failure (log' ++ new) (visits' + 1))
    (told : events.filterMap Event.mismatch? = new) :
    Advanced rules text (.rule (.choice first second rest)) offset below failures steps
      (log ++ log') (visits + visits' + 1)
      (Machine.tellingAll events
        (Machine.running (.choiceAt (.choice first second rest) offset branch :: below)
          (failures.recordAll new) steps).backtrack) := by
  have hanother := BranchesFail.another failed here evaluated
  rw [← List.append_assoc, show visits + (visits' + 1) = visits + visits' + 1 from rfl] at hanother
  cases hnext : (Rule.choice first second rest).parts[branch + 1]? with
  | some next =>
    rw [Machine.backtrack_choiceAt rfl hnext]
    have hbegun := Underway.choice hanother hnext .begun
    rw [List.append_nil] at hbegun
    exact .goesOn hbegun (Event.mismatches_append told rfl)
  | none =>
    rw [Machine.backtrack_choiceAt_last rfl hnext]
    have hfails := hanother.append (.noBranch hnext)
    rw [List.append_nil] at hfails
    exact .fails hfails.choice told

/-- Under a choice. -/
theorem choice {first second part : Rule} {rest : List Rule} {branch : Nat}
    (failed : BranchesFail rules text (.choice first second rest) offset branch log visits)
    (here : (first :: second :: rest)[branch]? = some part)
    (h : Advanced rules text (.rule part) offset
      (.choiceAt (.choice first second rest) offset branch :: below) failures steps log' visits'
      result) :
    Advanced rules text (.rule (.choice first second rest)) offset below failures steps
      (log ++ log') (visits + visits' + 1) result := by
  cases h with
  | goesOn underway told =>
    have hnext := Underway.choice failed here underway
    rw [← List.append_assoc] at hnext
    have hgoes : Advanced rules text (.rule (.choice first second rest)) offset below failures steps
        (log ++ log') (visits + visits' + 1) _ := .goesOn hnext told
    rw [OpenDerivation.stack_node] at hgoes
    exact hgoes
  | succeeds evaluated told =>
    have hclosed := evaluated.closed_stack trivial
    have hsucceeds := failed.append (.branch here evaluated)
    rw [← List.append_assoc] at hsucceeds
    rw [Machine.goOn_choiceAt rfl hclosed, Derivation.stack_root]
    exact .succeeds hsucceeds.choice told
  | fails evaluated told => exact choice_fails failed here evaluated told
  | faults refused evaluated =>
    exact .faults refused (failed.append (.branchFault here evaluated)).choice

end Advanced

namespace Underway

variable {rules : RuleMap} {text : List Char} {item : Item} {offset : Nat} {tree : OpenDerivation}
  {log : List Mismatch} {visits : Nat}

section Begun

variable (rules text offset) (below : List Frame) (failures : FurthestFailures) (steps : Nat)

/-- A reference on top hands over to what it names. -/
theorem transition_reference (name : String) :
    Advanced rules text (.rule (.ref name)) offset below failures steps [] 0
      ((Machine.running ({ item := .rule (.ref name), offset } :: below) failures steps).transition
        rules text) := by
  cases found : rules.get? name with
  | none =>
    have hfault : (Machine.running ({ item := .rule (.ref name), offset } :: below) failures
        steps).transition rules text = Machine.refuse _ (.undefined ⟨name⟩) :=
      Machine.transition_of_undefined (Machine.stack_running _ _ _) rfl found
    rw [hfault]
    exact .faults rfl (.undefined found)
  | some item =>
    have hpush : (Machine.running ({ item := .rule (.ref name), offset } :: below) failures
        steps).transition rules text =
        (Machine.running (.reference name offset :: below) failures steps).push item offset :=
      Machine.transition_of_defined (Machine.stack_running _ _ _) rfl found
    have hbegun : Underway rules text (.rule (.ref name)) offset
        (.node (.reference name offset) [] (.hand { item, offset })) ([] ++ []) (0 + 1) :=
      .reference found .begun
    rw [hpush]
    exact .goesOn hbegun rfl

/-- A terminal on top whose matcher succeeds takes its value. -/
theorem transition_matched {matcher : Matcher} {stop : Nat} (hoffset : offset ≤ text.length)
    (ends : matcher.matchEnd? text offset = some stop) :
    Advanced rules text (.rule (.terminal matcher)) offset below failures steps [] 0
      ((Machine.running ({ item := .rule (.terminal matcher), offset } :: below) failures
        steps).transition rules text) := by
  obtain ⟨hle, hlen⟩ := Matcher.matchEnd?_bounds hoffset ends
  have hstop : offset + ((text.drop offset).take (stop - offset)).length = stop := by
    rw [List.length_take, List.length_drop]
    omega
  have hmatched : (Machine.running ({ item := .rule (.terminal matcher), offset } :: below)
      failures steps).transition rules text =
      Machine.tellingAll
        [.matched (some ((text.drop offset).take (stop - offset))) offset stop]
        ((Machine.running (.terminal matcher offset ((text.drop offset).take (stop - offset)) ::
          below) failures steps).goOn text stop) := by
    rw [Machine.transition_of_match (Machine.stack_running _ _ _) rfl ends]
    simp only [Machine.succeed, hstop]
    rfl
  have hevaluated : Evaluates rules text (.rule (.terminal matcher)) offset
      (.success [.node (.terminal matcher offset ((text.drop offset).take (stop - offset))) []]
        stop) ([] ++ []) (0 + 1) := .matched ends
  rw [hmatched]
  exact .succeeds hevaluated rfl

/-- A terminal on top whose matcher fails is recorded, and its frame is dropped. -/
theorem transition_mismatched {matcher : Matcher} {message : String}
    (refused : matcher.matchEnd? text offset = none)
    (described : matcher.failureMessage = .ok message) :
    Advanced rules text (.rule (.terminal matcher)) offset below failures steps [] 0
      ((Machine.running ({ item := .rule (.terminal matcher), offset } :: below) failures
        steps).transition rules text) := by
  have hfail : (Machine.running ({ item := .rule (.terminal matcher), offset } :: below)
      failures steps).transition rules text =
      Machine.tellingAll [.failed offset message]
        (Machine.running ({ item := .rule (.terminal matcher), offset } :: below)
          (failures.record offset message) steps).backtrack := by
    rw [Machine.transition_of_mismatch (Machine.stack_running _ _ _) rfl refused described]
    rfl
  have hclosed : Frame.Closed { item := .rule (.terminal matcher), offset } := Or.inl rfl
  have hevaluated : Evaluates rules text (.rule (.terminal matcher)) offset .failure
      ([] ++ [⟨offset, message⟩]) (0 + 1) := .mismatched refused described
  rw [hfail, Machine.backtrack_closed hclosed]
  exact .fails hevaluated rfl

/-- A terminal on top asks its matcher. -/
theorem transition_terminal (matcher : Matcher) (hoffset : offset ≤ text.length) :
    Advanced rules text (.rule (.terminal matcher)) offset below failures steps [] 0
      ((Machine.running ({ item := .rule (.terminal matcher), offset } :: below) failures
        steps).transition rules text) := by
  cases ends : matcher.matchEnd? text offset with
  | some stop => exact transition_matched rules text offset below failures steps hoffset ends
  | none =>
    cases described : matcher.failureMessage with
    | ok message =>
      exact transition_mismatched rules text offset below failures steps ends described
    | error error =>
      have hfault : (Machine.running ({ item := .rule (.terminal matcher), offset } :: below)
          failures steps).transition rules text = Machine.refuse _ (.indescribable error) :=
        Machine.transition_of_indescribable (Machine.stack_running _ _ _) rfl ends described
      rw [hfault]
      exact .faults rfl (.indescribable ends described)

/-- A frame on top that has not been visited begins its evaluation. -/
theorem transition_begun (item : Item) (hoffset : offset ≤ text.length) :
    Advanced rules text item offset below failures steps [] 0
      ((Machine.running ({ item, offset } :: below) failures steps).transition rules text) := by
  cases item with
  | separator => exact .faults rfl .separator
  | atom value => exact .faults rfl .atom
  | rule r =>
    cases r with
    | ref name => exact transition_reference rules text offset below failures steps name
    | terminal matcher =>
      exact transition_terminal rules text offset below failures steps matcher hoffset
    | seq first rest =>
      have hbegun : Underway rules text (.rule (.seq first rest)) offset
          (.node (.sequenceAt first rest offset 0) [] (.hand { item := .rule first, offset }))
          ([] ++ []) (0 + 1) := .sequence .noElements rfl .begun
      exact .goesOn hbegun rfl
    | choice first second rest =>
      have hbegun : Underway rules text (.rule (.choice first second rest)) offset
          (.node (.choiceAt (.choice first second rest) offset 0) []
            (.hand { item := .rule first, offset })) ([] ++ []) (0 + 1) :=
        .choice .start rfl .begun
      exact .goesOn hbegun rfl

end Begun

/-- A transition carries an evaluation under way on by one visit, whatever stands below it. -/
theorem transition (h : Underway rules text item offset tree log visits)
    (hoffset : offset ≤ text.length) (below : List Frame) (failures : FurthestFailures)
    (steps : Nat) :
    Advanced rules text item offset below failures steps log visits
      ((Machine.running (tree.listing.reverse ++ below) failures steps).transition rules text) := by
  induction h generalizing below with
  | begun => exact transition_begun rules text _ below failures steps _ hoffset
  | @reference name offset _ making _ _ found _ ih =>
    rw [OpenDerivation.stack_node]
    exact .reference found (ih hoffset _)
  | sequence done here _ ih =>
    rw [OpenDerivation.stack_node]
    exact .sequence done here (ih (done.stop_bounds hoffset).2 _)
  | choice failed here _ ih =>
    rw [OpenDerivation.stack_node]
    exact .choice failed here (ih hoffset _)

end Underway

end PegMachine
