import PegMachine.Proofs.Evaluation

/-!
# Evaluations under way

An evaluation that has not come to its verdict has made a part of a derivation. Down one path, from
the root to the frame in hand, every node lacks what is still to come: a reference what it names, a
sequence its element in hand and those after it, a choice its branch in hand. What stands beside
that path is complete.

`Underway` says that such an `OpenDerivation` belongs to an item at an offset, and which mismatches
and how many visits led to it. It is determined by nothing but the recursive evaluation, and an
evaluation under way is a beginning of the whole one (`Underway.begins`).
-/

namespace PegMachine

variable [RegexLibrary]

/-- A derivation in the making: the frame in hand, or a node with the derivations that it has and
the one in the making. -/
inductive OpenDerivation where
  | hand (frame : Frame)
  | node (frame : Frame) (done : List Derivation) (making : OpenDerivation)

namespace OpenDerivation

/-- The frames of a derivation in the making, every node before its children. -/
def listing : OpenDerivation → List Frame
  | .hand frame => [frame]
  | .node frame done making => frame :: (Derivation.listingAll done ++ making.listing)

/-- On a stack the frames stand the other way round. -/
theorem stack_node (frame : Frame) (done : List Derivation) (making : OpenDerivation)
    (below : List Frame) :
    (node frame done making).listing.reverse ++ below =
      making.listing.reverse ++ ((Derivation.listingAll done).reverse ++ frame :: below) := by
  simp [listing]

end OpenDerivation

/-- The evaluation of an item at an offset has made an open derivation, with the mismatches met so
far and the number of evaluations so far. -/
inductive Underway (rules : RuleMap) (text : List Char) :
    Item → Nat → OpenDerivation → List Mismatch → Nat → Prop where
  | begun {item offset} : Underway rules text item offset (.hand { item, offset }) [] 0
  | reference {name offset item making log visits} (found : rules.get? name = some item)
    (body : Underway rules text item offset making log visits) :
    Underway rules text (.rule (.ref name)) offset (.node (.reference name offset) [] making) log
      (visits + 1)
  | sequence {first rest offset cursor part trees middle making log log' visits visits'}
    (done : Evaluates rules text (.elements ((first :: rest).take cursor)) offset
      (.success trees middle) log visits)
    (here : (first :: rest)[cursor]? = some part)
    (body : Underway rules text (.rule part) middle making log' visits') :
    Underway rules text (.rule (.seq first rest)) offset
      (.node (.sequenceAt first rest offset cursor) trees making) (log ++ log')
      (visits + visits' + 1)
  | choice {first second rest offset branch part making log log' visits visits'}
    (failed : BranchesFail rules text (.choice first second rest) offset branch log visits)
    (here : (first :: second :: rest)[branch]? = some part)
    (body : Underway rules text (.rule part) offset making log' visits') :
    Underway rules text (.rule (.choice first second rest)) offset
      (.node (.choiceAt (.choice first second rest) offset branch) [] making) (log ++ log')
      (visits + visits' + 1)

/-- Up to an element the elements of a sequence are those before it and it. -/
theorem take_append_of_getElem? {part : Rule} {parts : List Rule} {cursor : Nat}
    (here : parts[cursor]? = some part) :
    parts = parts.take cursor ++ part :: parts.drop (cursor + 1) := by
  obtain ⟨hlt, rfl⟩ := List.getElem?_eq_some_iff.1 here
  rw [← List.drop_eq_getElem_cons hlt, List.take_append_drop]

namespace Underway

variable {rules : RuleMap} {text : List Char} {item : Item} {offset : Nat} {tree : OpenDerivation}
  {log log' : List Mismatch} {visits visits' : Nat} {verdict : Verdict}

/-- An evaluation under way is a beginning of the evaluation that comes to a verdict: it has made
fewer visits and met the first of its mismatches. -/
theorem begins (h : Underway rules text item offset tree log visits)
    (h' : Evaluates rules text (.item item) offset verdict log' visits') :
    visits < visits' ∧ log <+: log' := by
  induction h generalizing verdict log' visits' with
  | begun => exact ⟨h'.visits_pos, List.nil_prefix⟩
  | reference found _ ih =>
    obtain ⟨_, _, body, -, rfl⟩ := h'.of_reference found
    obtain ⟨hlt, hprefix⟩ := ih body
    exact ⟨Nat.succ_lt_succ hlt, hprefix⟩
  | @sequence first rest offset cursor part trees middle making log _ visits _ done here _ ih =>
    cases h' with
    | sequence body =>
      rw [take_append_of_getElem? here] at body
      obtain ⟨_, _, _, others, -, rfl, rfl⟩ := done.elements_split body
      cases others with
      | element head =>
        obtain ⟨hlt, hprefix⟩ := ih head
        refine ⟨by omega, (List.prefix_append_right_inj log).2 ?_⟩
        exact hprefix.trans (List.prefix_append _ _)
      | elementStops _ head =>
        obtain ⟨hlt, hprefix⟩ := ih head
        exact ⟨by omega, (List.prefix_append_right_inj log).2 hprefix⟩
  | @choice first second rest offset branch part making log _ visits _ failed here _ ih =>
    cases h' with
    | choice body =>
      obtain ⟨_, _, others, rfl, rfl⟩ := failed.split body
      have hpart : (Rule.choice first second rest).parts[branch]? = some part := here
      rcases others.of_branches hpart with ⟨_, _, head, -⟩ | ⟨_, head, -⟩ |
        ⟨_, _, _, _, head, -, rfl, rfl⟩
      · obtain ⟨hlt, hprefix⟩ := ih head
        exact ⟨by omega, (List.prefix_append_right_inj log).2 hprefix⟩
      · obtain ⟨hlt, hprefix⟩ := ih head
        exact ⟨by omega, (List.prefix_append_right_inj log).2 hprefix⟩
      · obtain ⟨hlt, hprefix⟩ := ih head
        refine ⟨by omega, (List.prefix_append_right_inj log).2 ?_⟩
        exact hprefix.trans (List.prefix_append _ _)

end Underway

end PegMachine
