import Mathlib.Data.Finset.Card
import Mathlib.Data.Finset.Prod
import PegMachine.Proofs.StackShape
import PegMachine.Semantics.Origins

/-!
# Paths to the frame in hand

The path of an open derivation leads from its root to the frame in hand: the frames whose
evaluation has begun and has not come to a verdict. Its calls are the names on it with their
offsets, those that a reference on the path stands for.

An evaluation contains the evaluations of all frames further up its path, each with fewer visits
(`Underway.path_contains`). So a name that is met again at the same offset on its own path has no
verdict, since there is only one number of visits that it could take (`Underway.nodup_calls`).

Conversely an item comes to a verdict if no path of it meets a call again
(`comesOut_of_nodup_calls`): there are finitely many calls, each reference takes one of those that
are left, and between two references the rule in hand gets smaller.
-/

namespace PegMachine

variable [RegexLibrary]

/-- A frame is of a call if it is of a reference to its name at its offset. -/
theorem Frame.call?_eq_some {frame : Frame} {name : String} {offset : Nat} :
    frame.call? = some (name, offset) ↔
      frame.item = .rule (.ref name) ∧ frame.offset = offset := by
  unfold call?
  split
  · next other hitem => simp [hitem]
  · next hitem =>
    constructor
    · rintro ⟨⟩
    · exact fun h => absurd h.1 (hitem name)

/-- Frames of one call are of the same item at the same offset. -/
theorem Frame.eq_of_call? {a b : Frame} {call : String × Nat} (ha : a.call? = some call)
    (hb : b.call? = some call) : a.item = b.item ∧ a.offset = b.offset := by
  obtain ⟨hitem, hoffset⟩ := call?_eq_some.1 ha
  obtain ⟨hitem', hoffset'⟩ := call?_eq_some.1 hb
  exact ⟨hitem.trans hitem'.symm, hoffset.trans hoffset'.symm⟩

namespace OpenDerivation

/-- The frames on the path from the root to the frame in hand, without the latter. -/
def ancestors : OpenDerivation → List Frame
  | .hand _ => []
  | .node frame _ making => frame :: making.ancestors

/-- The path from the root to the frame in hand. -/
def path (tree : OpenDerivation) : List Frame := tree.ancestors ++ [tree.top]

@[simp] theorem path_hand (frame : Frame) : (hand frame).path = [frame] := rfl

@[simp] theorem path_node (frame : Frame) (done : List Derivation) (making : OpenDerivation) :
    (node frame done making).path = frame :: making.path := rfl

/-- The calls on the path, from the root on. -/
def calls (tree : OpenDerivation) : List (String × Nat) := tree.path.filterMap Frame.call?

/-- The open derivation that has another one in the place of its frame in hand. -/
def plug : OpenDerivation → OpenDerivation → OpenDerivation
  | .hand _, inner => inner
  | .node frame done making, inner => .node frame done (making.plug inner)

theorem ancestors_plug (tree inner : OpenDerivation) :
    (tree.plug inner).ancestors = tree.ancestors ++ inner.ancestors := by
  induction tree with
  | hand frame => rfl
  | node frame done making ih => simp [plug, ancestors, ih]

theorem top_plug (tree inner : OpenDerivation) : (tree.plug inner).top = inner.top := by
  induction tree with
  | hand frame => rfl
  | node frame done making ih => exact ih

end OpenDerivation

/-! ## Evaluations inside one another -/

/-- Every evaluation of the item of the one frame at its offset contains an evaluation of that of
the other, with fewer visits. -/
def Frame.Contains (rules : RuleMap) (text : List Char) (outer inner : Frame) : Prop :=
  ∀ verdict log visits, Evaluates rules text (.item outer.item) outer.offset verdict log visits →
    ∃ verdict' log' visits',
      Evaluates rules text (.item inner.item) inner.offset verdict' log' visits' ∧ visits' < visits

theorem Frame.Contains.trans {rules : RuleMap} {text : List Char} {a b c : Frame}
    (hab : a.Contains rules text b) (hbc : b.Contains rules text c) : a.Contains rules text c := by
  intro verdict log visits h
  obtain ⟨_, _, _, hb, hlt⟩ := hab _ _ _ h
  obtain ⟨_, _, _, hc, hlt'⟩ := hbc _ _ _ hb
  exact ⟨_, _, _, hc, Nat.lt_trans hlt' hlt⟩

instance (rules : RuleMap) (text : List Char) :
    IsTrans Frame (Frame.Contains rules text) where
  trans _ _ _ := Frame.Contains.trans

namespace Underway

variable {rules : RuleMap} {text : List Char} {item : Item} {offset : Nat} {tree : OpenDerivation}
  {log log' : List Mismatch} {visits visits' : Nat}

/-- The path begins with the frame of the item at the offset. -/
theorem path_of_item (h : Underway rules text item offset tree log visits) :
    ∃ frame above, tree.path = frame :: above ∧ frame.item = item ∧ frame.offset = offset := by
  cases h with
  | begun => exact ⟨_, [], rfl, rfl, rfl⟩
  | reference => exact ⟨_, _, rfl, rfl, rfl⟩
  | sequence => exact ⟨_, _, rfl, rfl, rfl⟩
  | choice => exact ⟨_, _, rfl, rfl, rfl⟩

/-- A frame goes in front of a path if it contains the item that the path leads from. -/
theorem isChain_path_cons {frame : Frame} (h : Underway rules text item offset tree log visits)
    (hframe : frame.Contains rules text { item, offset })
    (hchain : tree.path.IsChain (Frame.Contains rules text)) :
    (frame :: tree.path).IsChain (Frame.Contains rules text) := by
  obtain ⟨next, above, hpath, rfl, rfl⟩ := h.path_of_item
  rw [hpath] at hchain ⊢
  exact .cons_cons hframe hchain

/-- The evaluation of a frame on the path contains those of all frames after it. -/
theorem path_contains (h : Underway rules text item offset tree log visits) :
    tree.path.IsChain (Frame.Contains rules text) := by
  induction h with
  | begun => exact .singleton _
  | reference found body ih =>
    refine body.isChain_path_cons (fun verdict log visits h => ?_) ih
    obtain ⟨_, _, inner, -, rfl⟩ := h.of_reference found
    exact ⟨_, _, _, inner, Nat.lt_succ_self _⟩
  | sequence done here body ih =>
    refine body.isChain_path_cons (fun verdict log visits h => ?_) ih
    cases h with
    | sequence elements =>
      rw [take_append_of_getElem? here] at elements
      obtain ⟨_, _, _, others, -, -, rfl⟩ := done.elements_split elements
      cases others with
      | element head => exact ⟨_, _, _, head, by omega⟩
      | elementStops _ head => exact ⟨_, _, _, head, by omega⟩
  | @choice first second rest _ branch part _ _ _ _ _ failed here body ih =>
    refine body.isChain_path_cons (fun verdict log visits h => ?_) ih
    cases h with
    | choice branches =>
      obtain ⟨_, _, others, -, rfl⟩ := failed.split branches
      have hpart : (Rule.choice first second rest).parts[branch]? = some part := here
      rcases others.of_branches hpart with ⟨_, _, head, -⟩ | ⟨_, head, -⟩ |
        ⟨_, _, _, _, head, -, -, rfl⟩
      · exact ⟨_, _, _, head, by omega⟩
      · exact ⟨_, _, _, head, by omega⟩
      · exact ⟨_, _, _, head, by omega⟩

/-- If the whole evaluation comes to a verdict, no call is met again on the path. -/
theorem nodup_calls (h : Underway rules text item offset tree log visits) {verdict : Verdict}
    (h' : Evaluates rules text (.item item) offset verdict log' visits') : tree.calls.Nodup := by
  have hpath := List.isChain_iff_pairwise.1 h.path_contains
  -- every frame on the path comes to a verdict, since the root contains it
  have hcomes : ∀ f ∈ tree.path, ∃ verdict log visits,
      Evaluates rules text (.item f.item) f.offset verdict log visits := by
    obtain ⟨root, above, heq, rfl, rfl⟩ := h.path_of_item
    rw [heq] at hpath ⊢
    intro f hf
    rcases List.mem_cons.1 hf with rfl | hf
    · exact ⟨_, _, _, h'⟩
    · obtain ⟨_, _, _, inner, -⟩ := (List.pairwise_cons.1 hpath).1 f hf _ _ _ h'
      exact ⟨_, _, _, inner⟩
  refine List.pairwise_filterMap.2 (hpath.imp_of_mem ?_)
  intro outer inner houter _ hcontains call hcall call' hcall' heq
  subst heq
  obtain ⟨_, _, _, heval⟩ := hcomes outer houter
  obtain ⟨_, _, _, heval', hlt⟩ := hcontains _ _ _ heval
  obtain ⟨hitem, hoffset⟩ := Frame.eq_of_call? hcall hcall'
  rw [← hitem, ← hoffset] at heval'
  obtain ⟨-, -, rfl⟩ := heval.deterministic heval'
  exact Nat.lt_irrefl _ hlt

/-- An evaluation under way may go on with an evaluation under way of the frame in hand. -/
theorem plug {item' : Item} {offset' : Nat} {inner : OpenDerivation}
    (h : Underway rules text item offset tree log visits)
    (htop : tree.top = { item := item', offset := offset' })
    (h' : Underway rules text item' offset' inner log' visits') :
    Underway rules text item offset (tree.plug inner) (log ++ log') (visits + visits') := by
  induction h with
  | begun =>
    cases htop
    simpa [OpenDerivation.plug] using h'
  | @reference _ _ _ _ _ visits found _ ih =>
    rw [Nat.add_right_comm]
    exact .reference found (ih htop)
  | @sequence _ _ _ _ _ _ _ _ _ _ v₁ v₂ done here _ ih =>
    rw [List.append_assoc, show v₁ + v₂ + 1 + visits' = v₁ + (v₂ + visits') + 1 by omega]
    exact .sequence done here (ih htop)
  | @choice _ _ _ _ _ _ _ _ _ v₁ v₂ failed here _ ih =>
    rw [List.append_assoc, show v₁ + v₂ + 1 + visits' = v₁ + (v₂ + visits') + 1 by omega]
    exact .choice failed here (ih htop)

/-- The frame in hand lies inside the text. -/
theorem top_offset_le (h : Underway rules text item offset tree log visits)
    (hoffset : offset ≤ text.length) : tree.top.offset ≤ text.length := by
  induction h with
  | begun => exact hoffset
  | reference _ _ ih => exact ih hoffset
  | sequence done _ _ ih => exact ih (done.stop_bounds hoffset).2
  | choice _ _ _ ih => exact ih hoffset

end Underway

/-! ## Verdicts from finitely many calls -/

/-- The goal comes to some verdict at the offset. -/
def Goal.ComesOut (rules : RuleMap) (text : List Char) (goal : Goal) (offset : Nat) : Prop :=
  ∃ verdict log visits, Evaluates rules text goal offset verdict log visits

section ComesOut

variable {rules : RuleMap} {text : List Char} {offset : Nat}

theorem Goal.ComesOut.reference {name : String} {item : Item} (found : rules.get? name = some item)
    (h : (Goal.item item).ComesOut rules text offset) :
    (Goal.rule (.ref name)).ComesOut rules text offset := by
  obtain ⟨_, _, _, body⟩ := h
  exact ⟨_, _, _, body.reference found⟩

theorem Goal.comesOut_terminal (matcher : Matcher) :
    (Goal.rule (.terminal matcher)).ComesOut rules text offset := by
  cases ends : matcher.matchEnd? text offset with
  | some stop => exact ⟨_, _, _, .matched ends⟩
  | none =>
    cases described : matcher.failureMessage with
    | ok message => exact ⟨_, _, _, .mismatched ends described⟩
    | error error => exact ⟨_, _, _, .indescribable ends described⟩

/-- Elements come to a verdict if each does that is reached. -/
theorem Goal.comesOut_elements {parts : List Rule}
    (h : ∀ cursor part trees middle log visits, parts[cursor]? = some part →
      Evaluates rules text (.elements (parts.take cursor)) offset (.success trees middle) log
        visits → (Goal.rule part).ComesOut rules text middle) :
    (Goal.elements parts).ComesOut rules text offset := by
  -- from any element on, by the number of those that are left
  have hfrom : ∀ left cursor, cursor + left = parts.length → ∀ trees middle log visits,
      Evaluates rules text (.elements (parts.take cursor)) offset (.success trees middle) log
        visits → (Goal.elements (parts.drop cursor)).ComesOut rules text middle := by
    intro left
    induction left with
    | zero =>
      intro cursor hcursor trees middle log visits done
      rw [List.drop_of_length_le (by omega)]
      exact ⟨_, _, _, .noElements⟩
    | succ left ih =>
      intro cursor hcursor trees middle log visits done
      have hlt : cursor < parts.length := by omega
      have here : parts[cursor]? = some parts[cursor] := List.getElem?_eq_getElem hlt
      obtain ⟨verdict, _, _, head⟩ := h cursor _ _ _ _ _ here done
      rw [List.drop_eq_getElem_cons hlt]
      cases verdict with
      | success more stop =>
        have hnext := done.elements_concat here head
        obtain ⟨_, _, _, tail⟩ := ih (cursor + 1) (by omega) _ _ _ _ hnext
        exact ⟨_, _, _, head.element tail⟩
      | failure => exact ⟨_, _, _, head.elementStops Verdict.not_isSuccess_failure⟩
      | fault f => exact ⟨_, _, _, head.elementStops (Verdict.not_isSuccess_fault f)⟩
  exact hfrom parts.length 0 (Nat.zero_add _) [] offset [] 0 .noElements

/-- A choice comes to a verdict if each branch does that is reached. -/
theorem Goal.comesOut_branches {choice : Rule}
    (h : ∀ branch part log visits, choice.parts[branch]? = some part →
      BranchesFail rules text choice offset branch log visits →
        (Goal.rule part).ComesOut rules text offset) :
    (Goal.branches choice 0).ComesOut rules text offset := by
  have hfrom : ∀ left branch, branch + left = choice.parts.length → ∀ log visits,
      BranchesFail rules text choice offset branch log visits →
        (Goal.branches choice branch).ComesOut rules text offset := by
    intro left
    induction left with
    | zero =>
      intro branch hbranch log visits failed
      exact ⟨_, _, _, .noBranch (List.getElem?_eq_none (by omega))⟩
    | succ left ih =>
      intro branch hbranch log visits failed
      have hlt : branch < choice.parts.length := by omega
      have here : choice.parts[branch]? = some choice.parts[branch] := List.getElem?_eq_getElem hlt
      obtain ⟨verdict, _, _, head⟩ := h branch _ _ _ here failed
      cases verdict with
      | success trees stop => exact ⟨_, _, _, .branch here head⟩
      | fault f => exact ⟨_, _, _, .branchFault here head⟩
      | failure =>
        obtain ⟨_, _, _, tail⟩ := ih (branch + 1) (by omega) _ _ (failed.another here head)
        exact ⟨_, _, _, .branchFails here head tail⟩
  exact hfrom choice.parts.length 0 (Nat.zero_add _) [] 0 .start

end ComesOut

namespace RuleMap

/-- The calls that can be met: of the names of the map, at the offsets of the text. -/
def possibleCalls (rules : RuleMap) (text : List Char) : Finset (String × Nat) :=
  rules.names.toFinset ×ˢ Finset.range (text.length + 1)

theorem mem_possibleCalls {rules : RuleMap} {text : List Char} {name : String} {item : Item}
    {offset : Nat} (found : rules.get? name = some item) (hoffset : offset ≤ text.length) :
    (name, offset) ∈ rules.possibleCalls text := by
  obtain ⟨front, back, hentries, -⟩ := List.lookup_eq_some_iff.1 found
  have hname : name ∈ rules.names := by simp [names, hentries]
  simp only [possibleCalls, Finset.mem_product, List.mem_toFinset, Finset.mem_range]
  exact ⟨hname, Nat.lt_succ_of_le hoffset⟩

end RuleMap

namespace OpenDerivation

/-- The calls that have not been met on the way to the frame in hand. -/
def freeCalls (tree : OpenDerivation) (rules : RuleMap) (text : List Char) :
    Finset (String × Nat) :=
  rules.possibleCalls text \ (tree.ancestors.filterMap Frame.call?).toFinset

/-- A frame that is not of a reference takes no call. -/
theorem freeCalls_plug {tree : OpenDerivation} (frame : Frame) {next : Frame}
    {done : List Derivation} {rules : RuleMap} {text : List Char} (h : frame.call? = none) :
    (tree.plug (.node frame done (.hand next))).freeCalls rules text =
      tree.freeCalls rules text := by
  simp [freeCalls, ancestors_plug, ancestors, h]

/-- A reference takes a call that was free, unless it is met again on its path. -/
theorem card_freeCalls_plug {tree : OpenDerivation} {name : String} {offset : Nat}
    {rules : RuleMap} {text : List Char} (item : Item) (hnodup : tree.calls.Nodup)
    (htop : tree.top = { item := .rule (.ref name), offset })
    (hcall : (name, offset) ∈ rules.possibleCalls text) :
    ((tree.plug (.node (.reference name offset) [] (.hand { item, offset }))).freeCalls rules
      text).card < (tree.freeCalls rules text).card := by
  have hnew : (name, offset) ∉ tree.ancestors.filterMap Frame.call? := by
    rw [calls, path, htop, List.filterMap_append] at hnodup
    intro hmem
    exact (List.nodup_append.1 hnodup).2.2 _ hmem (name, offset)
      (by simp [Frame.call?]) rfl
  apply Finset.card_lt_card
  refine Finset.ssubset_iff.2 ⟨(name, offset), ?_, ?_⟩
  · simp [freeCalls, ancestors_plug, ancestors, Frame.call?, Frame.reference]
  · intro call hmem
    simp only [Finset.mem_insert, freeCalls, ancestors_plug, ancestors, List.filterMap_append,
      Finset.mem_sdiff, List.mem_toFinset, List.mem_append, not_or] at hmem ⊢
    rcases hmem with rfl | ⟨hpossible, hold, -⟩
    · exact ⟨hcall, hnew⟩
    · exact ⟨hpossible, hold⟩

end OpenDerivation

section Pigeonhole

variable {rules : RuleMap} {text : List Char} {item : Item} {offset : Nat}

/-- If no path meets a call again, what is in hand comes to a verdict. -/
theorem Underway.top_comesOut (hoffset : offset ≤ text.length)
    (hnodup : ∀ tree log visits, Underway rules text item offset tree log visits →
      tree.calls.Nodup) (free : Nat) (next : Item) :
    ∀ tree log visits middle, Underway rules text item offset tree log visits →
      tree.top = { item := next, offset := middle } →
      (tree.freeCalls rules text).card ≤ free → (Goal.item next).ComesOut rules text middle := by
  -- lexicographic: a reference takes one of the free calls, all else gets to a part of the rule
  induction free using Nat.strongRecOn generalizing next with
  | ind free ihFree =>
  cases next with
  | separator => exact fun _ _ _ _ _ _ _ => ⟨_, _, _, .separator⟩
  | atom value => exact fun _ _ _ _ _ _ _ => ⟨_, _, _, .atom⟩
  | rule r =>
  induction r using Rule.induct_parts with
  | ref name =>
    intro tree log visits middle h htop hfree
    cases found : rules.get? name with
    | none => exact ⟨_, _, _, .undefined found⟩
    | some body =>
      have hmiddle : middle ≤ text.length := by
        have hle := h.top_offset_le hoffset
        rwa [htop] at hle
      have hcard := OpenDerivation.card_freeCalls_plug body (hnodup _ _ _ h) htop
        (RuleMap.mem_possibleCalls found hmiddle)
      have hplug := h.plug htop (.reference found .begun)
      have hbody := ihFree _ (Nat.lt_of_lt_of_le hcard hfree) body _ _ _ middle hplug
        (OpenDerivation.top_plug _ _) (Nat.le_refl _)
      exact hbody.reference found
  | terminal matcher => exact fun _ _ _ _ _ _ _ => Goal.comesOut_terminal matcher
  | seq first rest ihFirst ihRest =>
    intro tree log visits middle h htop hfree
    have hparts : (Goal.elements (first :: rest)).ComesOut rules text middle := by
      refine Goal.comesOut_elements fun cursor part trees stop log' visits' here done => ?_
      have hplug := h.plug htop (.sequence done here .begun)
      rw [← OpenDerivation.freeCalls_plug (.sequenceAt first rest middle cursor) rfl] at hfree
      rcases List.mem_cons.1 (List.mem_of_getElem? here) with rfl | hpart
      · exact ihFirst _ _ _ stop hplug (OpenDerivation.top_plug _ _) hfree
      · exact ihRest part hpart _ _ _ stop hplug (OpenDerivation.top_plug _ _) hfree
    obtain ⟨_, _, _, hbody⟩ := hparts
    exact ⟨_, _, _, hbody.sequence⟩
  | choice first second rest ihFirst ihSecond ihRest =>
    intro tree log visits middle h htop hfree
    have hparts : (Goal.branches (.choice first second rest) 0).ComesOut rules text middle := by
      refine Goal.comesOut_branches fun branch part log' visits' here failed => ?_
      have hplug := h.plug htop (.choice failed here .begun)
      rw [← OpenDerivation.freeCalls_plug (.choiceAt (.choice first second rest) middle branch)
        rfl] at hfree
      rcases List.mem_cons.1 (List.mem_of_getElem? here) with rfl | hpart
      · exact ihFirst _ _ _ middle hplug (OpenDerivation.top_plug _ _) hfree
      rcases List.mem_cons.1 hpart with rfl | hpart
      · exact ihSecond _ _ _ middle hplug (OpenDerivation.top_plug _ _) hfree
      · exact ihRest part hpart _ _ _ middle hplug (OpenDerivation.top_plug _ _) hfree
    obtain ⟨_, _, _, hbody⟩ := hparts
    exact ⟨_, _, _, hbody.choice⟩

/-- An item comes to a verdict if no path of its evaluation meets a call again. -/
theorem comesOut_of_nodup_calls (hoffset : offset ≤ text.length)
    (hnodup : ∀ tree log visits, Underway rules text item offset tree log visits →
      tree.calls.Nodup) : (Goal.item item).ComesOut rules text offset :=
  Underway.top_comesOut hoffset hnodup _ item _ _ _ offset .begun rfl (Nat.le_refl _)

end Pigeonhole

end PegMachine
