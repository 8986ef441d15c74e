import PegMachine.Proofs.Expressions
import PegMachine.Proofs.References
import PegMachine.Proofs.StackShape
import PegMachine.Regex.Backtracking

/-!
# Checked grammars

A rule is `Sound` over a map if it can be described and every name in it is defined. A grammar that
passes its check and holds rule expressions only is sound throughout (`Grammar.sound_of_check`).
Soundness goes from a rule to its parts and from a name to what stands under it, so whatever comes
to stand on top of a stack is sound (`Underway.top_sound`), and a frame of a sound rule is `Ready`:
its transition finds all that it looks for. A machine that started from a defined name is therefore
never refused while it is running (`Machine.advance_of_checked`).
-/

namespace PegMachine

section AnyLibrary

variable [RegexLibrary]

namespace Rule

theorem mem_referencesAll {name : String} {parts : List Rule} :
    name ∈ referencesAll parts ↔ ∃ part ∈ parts, name ∈ part.references := by
  induction parts with
  | nil => simp [referencesAll]
  | cons part rest ih => simp [referencesAll, ih]

/-- A rule refers to what its parts refer to. -/
theorem mem_references_of_part {rule part : Rule} {name : String} (hpart : part ∈ rule.parts)
    (hname : name ∈ part.references) : name ∈ rule.references := by
  cases rule with
  | ref => cases hpart
  | terminal => cases hpart
  | seq first rest =>
    have hall : name ∈ referencesAll (first :: rest) := mem_referencesAll.2 ⟨part, hpart, hname⟩
    simpa [references, referencesAll] using hall
  | choice first second rest =>
    have hall : name ∈ referencesAll (first :: second :: rest) :=
      mem_referencesAll.2 ⟨part, hpart, hname⟩
    simpa [references, referencesAll] using hall

/-- A rule that can be described and whose names are defined. -/
structure Sound (rules : RuleMap) (rule : Rule) : Prop where
  describable : rule.Describable
  defined : ∀ name ∈ rule.references, ∃ item, rules.get? name = some item

/-- The parts of a sound rule are sound. -/
theorem Sound.part {rules : RuleMap} {rule part : Rule} (h : rule.Sound rules)
    (hpart : part ∈ rule.parts) : part.Sound rules where
  describable := h.describable.part hpart
  defined := fun name hname => h.defined name (mem_references_of_part hpart hname)

end Rule

/-- A sound rule, and nothing that is no rule. -/
def Item.Sound (rules : RuleMap) : Item → Prop
  | .rule r => r.Sound rules
  | _ => False

/-- All items of the map are sound rules. -/
def RuleMap.Sound (rules : RuleMap) : Prop := ∀ item ∈ rules.items, item.Sound rules

namespace Grammar

/-- A grammar passes its check if and only if all names are defined that its rules refer to or that
it starts from. -/
theorem check_eq_ok_iff {grammar : Grammar} :
    grammar.check = .ok () ↔
      ∀ name, name ∈ grammar.rules.references ∨ name = grammar.start →
        grammar.rules.contains name = true := by
  rw [check_eq_ok_iff_nil, List.eq_nil_iff_forall_not_mem]
  constructor
  · intro hnone name hname
    by_contra hundefined
    have hmissing := RuleMap.contains_eq_false_iff.1 (Bool.eq_false_iff.2 hundefined)
    exact hnone name (mem_undefinedNames.2 ⟨hname, hmissing⟩)
  · intro hall name hmissing
    obtain ⟨hname, hundefined⟩ := mem_undefinedNames.1 hmissing
    have hdefined := hall name hname
    rw [RuleMap.contains_eq_false_iff.2 hundefined] at hdefined
    cases hdefined

/-- In a checked grammar of rule expressions all rules are sound. -/
theorem sound_of_check {grammar : Grammar} (hcheck : grammar.check = .ok ())
    (hrules : grammar.rules.Expressions) : grammar.rules.Sound := by
  intro item hitem
  cases item with
  | rule r =>
    refine ⟨hrules _ hitem, fun name hname => ?_⟩
    have hreferred : name ∈ grammar.rules.references := RuleMap.mem_references hitem hname
    exact RuleMap.contains_iff.1 (check_eq_ok_iff.1 hcheck name (Or.inl hreferred))
  | separator => exact hrules _ hitem
  | atom value => exact hrules _ hitem

end Grammar

/-! ## Frames in hand -/

/-- A frame that has all that its transition looks for: it lies inside the text and is of a rule; if
of a reference, of a defined name; if of a sequence or choice, with its place in the listing, where a
part stands and no separator; if of a terminal, of one that has a failure message. -/
structure Frame.Ready (rules : RuleMap) (text : List Char) (frame : Frame) : Prop where
  inside : frame.offset ≤ text.length
  isRule : ∃ rule, frame.item = .rule rule
  named : ∀ name, frame.item = .rule (.ref name) → ∃ item, rules.get? name = some item
  hand : ∀ rule, frame.item = .rule rule → rule.isComposite = true →
    frame.place < rule.listing.length ∧
      ∃ part ∈ rule.parts, rule.listing[frame.place]? = some (.rule part)
  message : ∀ matcher, frame.item = .rule (.terminal matcher) →
    ∃ message, matcher.failureMessage = .ok message

/-- A new frame of a sound rule is ready. -/
theorem Frame.ready_of_sound {rules : RuleMap} {text : List Char} {rule : Rule} {offset : Nat}
    (h : rule.Sound rules) (hoffset : offset ≤ text.length) :
    Frame.Ready rules text { item := .rule rule, offset } where
  inside := hoffset
  isRule := ⟨rule, rfl⟩
  named := by
    rintro name ⟨⟩
    exact h.defined name (by simp [Rule.references])
  hand := by
    rintro rule ⟨⟩ hcomposite
    cases rule with
    | ref => cases hcomposite
    | terminal => cases hcomposite
    | seq first rest => exact ⟨Nat.zero_lt_succ _, first, List.mem_cons_self, rfl⟩
    | choice first second rest =>
      exact ⟨Nat.zero_lt_succ _, first, List.mem_cons_self, rfl⟩
  message := by
    rintro matcher ⟨⟩
    have hdescribable : matcher.Describable := h.describable matcher (by simp [Rule.matchers])
    exact Matcher.failureMessage_eq_ok hdescribable

/-- Over sound rules the frame in hand is of a sound rule and lies inside the text. -/
theorem Underway.top_sound {rules : RuleMap} (hrules : rules.Sound) {text : List Char} {item : Item}
    {offset : Nat} {tree : OpenDerivation} {log : List Mismatch} {visits : Nat}
    (h : Underway rules text item offset tree log visits) (hitem : item.Sound rules)
    (hoffset : offset ≤ text.length) :
    ∃ rule at', tree.top = { item := .rule rule, offset := at' } ∧ rule.Sound rules ∧
      at' ≤ text.length := by
  induction h with
  | @begun item offset =>
    cases item with
    | rule r => exact ⟨r, offset, rfl, hitem, hoffset⟩
    | separator => exact hitem.elim
    | atom => exact hitem.elim
  | reference found _ ih => exact ih (hrules _ (RuleMap.mem_items_of_get? found)) hoffset
  | sequence done here _ ih =>
    have hstop := (done.stop_bounds hoffset).2
    exact ih (Rule.Sound.part hitem (List.mem_of_getElem? here)) hstop
  | choice _ here _ ih => exact ih (Rule.Sound.part hitem (List.mem_of_getElem? here)) hoffset

namespace Machine

section Transition

variable {rules : RuleMap} {text : List Char}

/-- The transition of a ready frame is not refused. -/
theorem transition_of_ready {machine : Machine} {top : Frame} {below : List Frame}
    (hstack : machine.stack = top :: below) (h : top.Ready rules text) :
    (machine.transition rules text).fault? = none := by
  obtain ⟨rule, hitem⟩ := h.isRule
  have hcomposite : rule.isComposite = true →
      (machine.transition rules text).fault? = none := by
    intro hcomposite
    obtain ⟨-, part, -, hpart⟩ := h.hand rule hitem hcomposite
    have hcurrent : top.current? = some (.rule part) := by
      rw [Frame.current?, Frame.listed?, hitem]
      exact hpart
    rw [transition_of_hand hstack hitem hcomposite hcurrent]
    rfl
  cases rule with
  | ref name =>
    obtain ⟨item, hfound⟩ := h.named name hitem
    rw [transition_of_defined hstack hitem hfound]
    rfl
  | terminal matcher =>
    cases hend : matcher.matchEnd? text top.offset with
    | some stop =>
      rw [transition_of_match hstack hitem hend]
      exact succeed_fault? _ _ _ _ _
    | none =>
      obtain ⟨message, hmessage⟩ := h.message matcher hitem
      rw [transition_of_mismatch hstack hitem hend hmessage]
      exact fail_fault? _ _ _
  | seq first rest => exact hcomposite rfl
  | choice first second rest => exact hcomposite rfl

/-- A call on a machine with a ready frame on top is not refused while it is running. -/
theorem fault?_of_ready {machine : Machine} {top : Frame} {below : List Frame}
    (hrunning : machine.status = .running) (hstack : machine.stack = top :: below)
    (h : top.Ready rules text) : (machine.advance rules text).fault? = none := by
  have hcounted : { machine with steps := machine.steps + 1 }.stack = top :: below := hstack
  rw [advance_of_running rules text hrunning]
  exact transition_of_ready hcounted h

/-- Over sound rules a running machine that started from a defined name has a ready frame on top. -/
theorem ready_of_running (hrules : rules.Sound) {name : String} {calls : Nat}
    (hname : rules.contains name = true)
    (hrunning : ((start name).after rules text calls).status = .running) :
    ∃ top below, ((start name).after rules text calls).stack = top :: below ∧
      top.Ready rules text := by
  obtain ⟨tree, visits, hunderway, -, hmachine⟩ :=
    (stage rules text name calls).of_running hrunning
  have hsound : (Item.rule (.ref name)).Sound rules := by
    refine ⟨by simp [Rule.Describable, Rule.matchers], fun other hother => ?_⟩
    rw [List.mem_singleton.1 hother]
    exact RuleMap.contains_iff.1 hname
  obtain ⟨rule, offset, htop, hrule, hoffset⟩ := hunderway.top_sound hrules hsound (Nat.zero_le _)
  refine ⟨tree.top, (tree.marked.map Prod.fst).reverse, ?_, ?_⟩
  · rw [hmachine, tree.listing_eq]
    simp
  · rw [htop]
    exact Frame.ready_of_sound hrule hoffset

/-- Over sound rules no call is refused while the machine is running. -/
theorem fault?_of_sound (hrules : rules.Sound) {name : String} {calls : Nat}
    (hname : rules.contains name = true)
    (hrunning : ((start name).after rules text calls).status = .running) :
    (((start name).after rules text calls).advance rules text).fault? = none := by
  obtain ⟨top, below, hstack, hready⟩ := ready_of_running hrules hname hrunning
  exact fault?_of_ready hrunning hstack hready

end Transition

end Machine

/-- Any number of a's before one b or c; and the same from its end on, which is left recursive. -/
def Grammar.sample : Grammar where
  rules := .ofList [
    ("S", .rule (.choice (.seq (.terminal (.literal "a")) [.ref "S"])
      (.terminal (.charClass ⟨false, [(98, 99)], []⟩)) [])),
    ("L", .rule (.choice (.seq (.terminal (.literal "")) [.ref "L", .terminal (.literal "a")])
      (.ref "S") []))]
  start := "S"

namespace Machine

/-- A machine over a checked grammar of rule expressions that started from a defined name has, while
it is running, a frame on top with all that its transition looks for, and the next call is not
refused. -/
theorem advance_of_checked {grammar : Grammar} (hcheck : grammar.check = .ok ())
    (hrules : grammar.rules.Expressions) (text : List Char) {name : String}
    (hname : grammar.rules.contains name = true) {calls : Nat}
    (hrunning : ((start name).after grammar.rules text calls).status = .running) :
    (∃ top below, ((start name).after grammar.rules text calls).stack = top :: below ∧
      top.Ready grammar.rules text) ∧
    (((start name).after grammar.rules text calls).advance grammar.rules text).fault? = none := by
  have hsound := Grammar.sound_of_check hcheck hrules
  exact ⟨ready_of_running hsound hname hrunning, fault?_of_sound hsound hname hrunning⟩

end Machine

end AnyLibrary

namespace Machine

theorem advance_of_checked_sample :
    Grammar.sample.check = .ok () ∧ Grammar.sample.rules.Expressions ∧
      Grammar.sample.rules.contains "S" = true ∧
      ((start "S").after Grammar.sample.rules ['a', 'd'] 6).status = .running ∧
      (∃ top below, ((start "S").after Grammar.sample.rules ['a', 'd'] 6).stack = top :: below ∧
        top.Ready Grammar.sample.rules ['a', 'd']) ∧
      (((start "S").after Grammar.sample.rules ['a', 'd'] 6).advance Grammar.sample.rules
        ['a', 'd']).fault? = none :=
  have hcheck : Grammar.sample.check = .ok () := by decide
  have hrules : Grammar.sample.rules.Expressions := by decide
  have hname : Grammar.sample.rules.contains "S" = true := by decide
  have hrunning : ((start "S").after Grammar.sample.rules ['a', 'd'] 6).status = .running := by
    decide
  ⟨hcheck, hrules, hname, hrunning,
    advance_of_checked hcheck hrules ['a', 'd'] hname hrunning⟩

end Machine

end PegMachine
