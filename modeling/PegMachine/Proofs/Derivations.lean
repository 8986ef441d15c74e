import PegMachine.Proofs.Expressions
import PegMachine.Proofs.Stages
import PegMachine.Regex.Backtracking

/-!
# The derivation that an accepting machine holds

`Derives` is the part of the recursive evaluation that makes derivations: a reference stands over
the derivation of what it names, a sequence over those of all its elements, each beginning where the
one before ended, a choice over that of the first branch that does not fail, a terminal over
nothing. It agrees with the evaluation (`Evaluates.derives`, `Derives.evaluates`), so a goal has at
most one derivation.

An accepting machine holds the frames of the derivation of the text and no others. Callers see a
frame as an item, an offset, a value and a place (`Frame.shown`), and what they see of the frames of
a derivation determines it: the item of a frame says how many derivations follow
(`Derives.eq_of_shown`).
-/

namespace PegMachine

section AnyLibrary

variable [RegexLibrary]

/-- The derivations of a goal at an offset, and where they end. -/
inductive Derives (rules : RuleMap) (text : List Char) :
    Goal → Nat → List Derivation → Nat → Prop where
  | reference {name offset item tree stop} (found : rules.get? name = some item)
    (body : Derives rules text (.item item) offset [tree] stop) :
    Derives rules text (.rule (.ref name)) offset [.node (.reference name offset) [tree]] stop
  | terminal {matcher offset stop} (ends : matcher.matchEnd? text offset = some stop) :
    Derives rules text (.rule (.terminal matcher)) offset
      [.node (.terminal matcher offset ((text.drop offset).take (stop - offset))) []] stop
  | sequence {first rest offset trees stop}
    (body : Derives rules text (.elements (first :: rest)) offset trees stop) :
    Derives rules text (.rule (.seq first rest)) offset
      [.node (.sequence first rest offset) trees] stop
  | choice {first second rest offset branch part tree stop log visits}
    (failed : BranchesFail rules text (.choice first second rest) offset branch log visits)
    (here : (first :: second :: rest)[branch]? = some part)
    (body : Derives rules text (.rule part) offset [tree] stop) :
    Derives rules text (.rule (.choice first second rest)) offset
      [.node (.choice (.choice first second rest) offset branch) [tree]] stop
  | noElements {offset} : Derives rules text (.elements []) offset [] offset
  | element {rule others offset tree more middle stop}
    (head : Derives rules text (.rule rule) offset [tree] middle)
    (tail : Derives rules text (.elements others) middle more stop) :
    Derives rules text (.elements (rule :: others)) offset (tree :: more) stop

/-- The goal has the derivations: a choice from a branch on, if all branches before it fail. -/
def Goal.Derived (rules : RuleMap) (text : List Char) (offset : Nat) :
    Goal → List Derivation → Nat → Prop
  | .branches choice branch, trees, stop => ∀ log visits, choice.isChoice = true →
    BranchesFail rules text choice offset branch log visits →
      Derives rules text (.rule choice) offset trees stop
  | .item i, trees, stop => Derives rules text (.item i) offset trees stop
  | .elements parts, trees, stop => Derives rules text (.elements parts) offset trees stop

section Agreement

variable {rules : RuleMap} {text : List Char} {goal : Goal} {item : Item} {offset : Nat}
  {verdict : Verdict} {log : List Mismatch} {visits : Nat}

/-- A success has the derivations of its goal. -/
theorem Evaluates.derives (h : Evaluates rules text goal offset verdict log visits) :
    verdict.OnSuccess (goal.Derived rules text offset) := by
  induction h with
  | @reference _ _ _ verdict _ _ found body ih =>
    cases verdict with
    | success trees stop =>
      obtain ⟨tree, rfl⟩ := body.singleton_trees
      exact Derives.reference found ih
    | failure => trivial
    | fault => trivial
  | matched ends => exact Derives.terminal ends
  | sequence _ ih => exact Verdict.OnSuccess.under (ih.imp fun _ _ => Derives.sequence)
  | choice _ ih => exact ih.imp fun _ _ derived => derived [] 0 rfl .start
  | noElements => exact Derives.noElements
  | element head _ ihHead ihTail =>
    obtain ⟨tree, rfl⟩ := head.singleton_trees
    apply Verdict.OnSuccess.after
    exact ihTail.imp fun _ _ => Derives.element ihHead
  | @elementStops _ _ _ verdict _ _ stops =>
    cases verdict with
    | success => exact absurd trivial stops
    | failure => trivial
    | fault => trivial
  | @branch rule _ _ _ _ _ _ _ here head ih =>
    obtain ⟨tree, rfl⟩ := head.singleton_trees
    intro _ _ hchoice failed
    cases rule with
    | choice first second rest => exact Derives.choice failed here ih
    | ref => cases hchoice
    | terminal => cases hchoice
    | seq => cases hchoice
  | branchFails here head _ _ ihTail =>
    apply ihTail.imp
    intro trees stop derived _ _ hchoice failed
    exact derived _ _ hchoice (failed.another here head)
  | undefined | mismatched | indescribable | separator | atom | noBranch | branchFault => trivial

/-- A goal with derivations succeeds. -/
theorem Derives.evaluates {trees : List Derivation} {stop : Nat}
    (h : Derives rules text goal offset trees stop) :
    ∃ log visits, Evaluates rules text goal offset (.success trees stop) log visits := by
  induction h with
  | reference found _ ih =>
    obtain ⟨log, visits, body⟩ := ih
    exact ⟨log, visits + 1, body.reference found⟩
  | terminal ends => exact ⟨[], 1, .matched ends⟩
  | sequence _ ih =>
    obtain ⟨log, visits, body⟩ := ih
    exact ⟨log, visits + 1, body.sequence⟩
  | choice failed here _ ih =>
    obtain ⟨log, visits, body⟩ := ih
    exact ⟨_, _, (failed.append (.branch here body)).choice⟩
  | noElements => exact ⟨[], 0, .noElements⟩
  | element _ _ ihHead ihTail =>
    obtain ⟨log, visits, head⟩ := ihHead
    obtain ⟨log', visits', tail⟩ := ihTail
    exact ⟨_, _, head.element tail⟩

/-- A goal has at most one derivation at an offset. -/
theorem Derives.unique {trees trees' : List Derivation} {stop stop' : Nat}
    (h : Derives rules text goal offset trees stop)
    (h' : Derives rules text goal offset trees' stop') : trees = trees' ∧ stop = stop' := by
  obtain ⟨_, _, hsuccess⟩ := h.evaluates
  obtain ⟨_, _, hsuccess'⟩ := h'.evaluates
  cases (hsuccess.deterministic hsuccess').1
  exact ⟨rfl, rfl⟩

end Agreement

/-! ## Reading a derivation off its frames -/

namespace Frame

/-- What callers see of a frame. -/
def shown (frame : Frame) : Item × Nat × Option (List Char) × Nat :=
  (frame.item, frame.offset, frame.value, frame.place)

end Frame

/-- Rows that begin with one derivation each begin with its root, and go on with what stands under
it. -/
theorem Derivation.shown_node {frame frame' : Frame} {children children' : List Derivation}
    {behind behind' : List (Item × Nat × Option (List Char) × Nat)}
    (h : (listingAll [.node frame children]).map Frame.shown ++ behind =
      (listingAll [.node frame' children']).map Frame.shown ++ behind') :
    frame.shown = frame'.shown ∧
      (listingAll children).map Frame.shown ++ behind =
        (listingAll children').map Frame.shown ++ behind' := by
  rw [listingAll_node, listingAll_node] at h
  exact List.cons.inj h

/-- Goals with as many derivations: two items, or elements in the same number. -/
def Goal.Like : Goal → Goal → Prop
  | .item _, .item _ => True
  | .elements parts, .elements others => parts.length = others.length
  | _, _ => False

theorem Goal.Like.eq_item {item : Item} {goal : Goal} (h : (Goal.item item).Like goal) :
    ∃ item', goal = .item item' := by
  cases goal with
  | item item' => exact ⟨item', rfl⟩
  | elements => exact h.elim
  | branches => exact h.elim

namespace Derives

section Reading

variable {rules rules' : RuleMap} {text text' : List Char} {item item' : Item} {goal goal' : Goal}
  {offset offset' stop stop' : Nat} {trees trees' : List Derivation}
  {behind behind' : List (Item × Nat × Option (List Char) × Nat)}

/-- The first frame of a derivation is that of its item at its offset. -/
theorem listing_of_item (h : Derives rules text (.item item) offset trees stop) :
    ∃ frame below, Derivation.listingAll trees = frame :: below ∧ frame.item = item ∧
      frame.offset = offset := by
  cases h with
  | reference => exact ⟨_, _, Derivation.listingAll_node _ _, rfl, rfl⟩
  | terminal => exact ⟨_, _, Derivation.listingAll_node _ _, rfl, rfl⟩
  | sequence => exact ⟨_, _, Derivation.listingAll_node _ _, rfl, rfl⟩
  | choice => exact ⟨_, _, Derivation.listingAll_node _ _, rfl, rfl⟩

/-- Derivations of items that begin the same row are of the same item at the same offset. -/
theorem item_eq_of_shown (h : Derives rules text (.item item) offset trees stop)
    (h' : Derives rules' text' (.item item') offset' trees' stop')
    (hshown : (Derivation.listingAll trees).map Frame.shown ++ behind =
      (Derivation.listingAll trees').map Frame.shown ++ behind') :
    item = item' ∧ offset = offset' := by
  obtain ⟨frame, below, hlisting, rfl, rfl⟩ := h.listing_of_item
  obtain ⟨frame', below', hlisting', rfl, rfl⟩ := h'.listing_of_item
  rw [hlisting, hlisting'] at hshown
  have hframe : frame.shown = frame'.shown := (List.cons.inj hshown).1
  exact ⟨congrArg Prod.fst hframe, congrArg (fun seen => seen.2.1) hframe⟩

/-- The frames of derivations, as callers see them, end where the derivations do: if they begin the
same row as those of other derivations in the same number, the derivations are the same. -/
theorem eq_of_shown_append (h : Derives rules text goal offset trees stop)
    (h' : Derives rules' text' goal' offset' trees' stop') (hlike : goal.Like goal')
    (hshown : (Derivation.listingAll trees).map Frame.shown ++ behind =
      (Derivation.listingAll trees').map Frame.shown ++ behind') :
    trees = trees' ∧ behind = behind' := by
  -- what stands behind is general, since an element has the frames of the later ones behind it
  induction h generalizing goal' offset' trees' stop' behind behind' with
  | reference found body ih =>
    obtain ⟨item', rfl⟩ := hlike.eq_item
    obtain ⟨rfl, rfl⟩ := (Derives.reference found body).item_eq_of_shown h' hshown
    cases h' with
    | reference _ body' =>
      obtain ⟨-, hunder⟩ := Derivation.shown_node hshown
      obtain ⟨htree, hbehind⟩ := ih body' trivial hunder
      rw [htree]
      exact ⟨rfl, hbehind⟩
  | terminal ends =>
    obtain ⟨item', rfl⟩ := hlike.eq_item
    have hterminal : Derives rules text _ _ _ _ := .terminal ends
    obtain ⟨rfl, rfl⟩ := hterminal.item_eq_of_shown h' hshown
    cases h' with
    | terminal =>
      obtain ⟨hframe, hbehind⟩ := Derivation.shown_node hshown
      have hvalue : some _ = some _ := congrArg (fun seen => seen.2.2.1) hframe
      rw [Option.some.inj hvalue]
      exact ⟨rfl, hbehind⟩
  | sequence body ih =>
    obtain ⟨item', rfl⟩ := hlike.eq_item
    obtain ⟨rfl, rfl⟩ := (Derives.sequence body).item_eq_of_shown h' hshown
    cases h' with
    | sequence body' =>
      obtain ⟨-, hunder⟩ := Derivation.shown_node hshown
      obtain ⟨htrees, hbehind⟩ := ih body' rfl hunder
      rw [htrees]
      exact ⟨rfl, hbehind⟩
  | @choice _ _ _ _ branch _ _ _ _ _ failed here body ih =>
    obtain ⟨item', rfl⟩ := hlike.eq_item
    obtain ⟨rfl, rfl⟩ := (Derives.choice failed here body).item_eq_of_shown h' hshown
    cases h' with
    | @choice _ _ _ _ branch' _ _ _ _ _ _ _ body' =>
      obtain ⟨hframe, hunder⟩ := Derivation.shown_node hshown
      obtain ⟨htree, hbehind⟩ := ih body' trivial hunder
      have hplace : 2 * branch = 2 * branch' := congrArg (fun seen => seen.2.2.2) hframe
      rw [Nat.eq_of_mul_eq_mul_left Nat.two_pos hplace, htree]
      exact ⟨rfl, hbehind⟩
  | noElements =>
    cases h' with
    | noElements => exact ⟨rfl, hshown⟩
    | element => cases hlike
    | _ => exact hlike.elim
  | @element _ _ _ tree more _ _ _ _ ihHead ihTail =>
    cases h' with
    | noElements => cases hlike
    | @element _ _ _ tree' more' _ _ head' tail' =>
      rw [Derivation.listingAll_cons tree more, Derivation.listingAll_cons tree' more',
        List.map_append, List.map_append, List.append_assoc, List.append_assoc] at hshown
      obtain ⟨htree, hmore⟩ := ihHead head' trivial hshown
      obtain ⟨rfl, rfl⟩ := ihTail tail' (Nat.succ.inj hlike) hmore
      cases htree
      exact ⟨rfl, rfl⟩
    | _ => exact hlike.elim

/-- A derivation is determined by what callers see of its frames. -/
theorem eq_of_shown {tree tree' : Derivation}
    (h : Derives rules text (.item item) offset [tree] stop)
    (h' : Derives rules' text' (.item item') offset' [tree'] stop')
    (hshown : tree.listing.map Frame.shown = tree'.listing.map Frame.shown) : tree = tree' := by
  have hrow : (Derivation.listingAll [tree]).map Frame.shown ++ [] =
      (Derivation.listingAll [tree']).map Frame.shown ++ [] := by
    simpa [Derivation.listingAll] using hshown
  cases (h.eq_of_shown_append h' trivial hrow).1
  rfl

end Reading

end Derives

namespace Machine

/-- After a successful run the frames are those of the only derivation of the start name, every node
before what stands under it; and derivations that callers see alike are the same, whatever they are
derivations of. -/
theorem frames_of_accepted {rules : RuleMap} {text : List Char} {name : String} {calls : Nat}
    (haccepted : ((start name).after rules text calls).status = .accepted) :
    (∃ tree, Derives rules text (.rule (.ref name)) 0 [tree] text.length ∧
      ((start name).after rules text calls).frames = tree.listing ∧
      ∀ other stop, Derives rules text (.rule (.ref name)) 0 [other] stop → other = tree) ∧
    ∀ (rules rules' : RuleMap) (text text' : List Char) (item item' : Item)
      (offset offset' stop stop' : Nat) (tree tree' : Derivation),
      Derives rules text (.item item) offset [tree] stop →
      Derives rules' text' (.item item') offset' [tree'] stop' →
      tree.listing.map Frame.shown = tree'.listing.map Frame.shown → tree = tree' := by
  refine ⟨?_, fun _ _ _ _ _ _ _ _ _ _ _ _ h h' hshown => h.eq_of_shown h' hshown⟩
  obtain ⟨tree, visits, hsuccess, hmachine⟩ :=
    (stage rules text name calls).of_accepted haccepted
  have hderives : Derives rules text (.rule (.ref name)) 0 [tree] text.length := hsuccess.derives
  refine ⟨tree, hderives, ?_, fun other stop hother => ?_⟩
  · rw [hmachine, frames]
    exact List.reverse_reverse _
  · cases (hother.unique hderives).1
    rfl

end Machine

end AnyLibrary

namespace Machine

theorem frames_of_accepted_sample :
    ((start "S").after RuleMap.sample ['a', 'b'] 9).status = .accepted ∧
      ∃ tree, Derives RuleMap.sample ['a', 'b'] (.rule (.ref "S")) 0 [tree] 2 ∧
        ((start "S").after RuleMap.sample ['a', 'b'] 9).frames = tree.listing :=
  have haccepted : ((start "S").after RuleMap.sample ['a', 'b'] 9).status = .accepted := by decide
  have ⟨⟨tree, hderives, hframes, _⟩, _⟩ := frames_of_accepted haccepted
  ⟨haccepted, tree, hderives, hframes⟩

end Machine

end PegMachine
