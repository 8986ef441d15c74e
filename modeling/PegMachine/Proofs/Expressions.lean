import PegMachine.Grammar.Basic
import PegMachine.Semantics.Evaluation

/-!
# Maps of rule expressions

A rule is `Describable` if every character class in it has code points for bounds, and a map is one
of `Expressions` if it holds nothing but describable rules. Over such a map an undefined name is the
only fault that an evaluation can come to (`Evaluates.undefined_of_fault`).
-/

namespace PegMachine

/-! ## Matchers that can be described -/

namespace CharClass

instance (cls : CharClass) : Decidable cls.Describable :=
  inferInstanceAs (Decidable (∀ r ∈ cls.ranges, _))

/-- A range between two code points has a description. -/
theorem describeRange_eq_ok {r : Int × Int}
    (h : (0 ≤ r.1 ∧ r.1 < 0x110000) ∧ (0 ≤ r.2 ∧ r.2 < 0x110000)) :
    ∃ text, describeRange r = .ok text := by
  have hbound : ∀ n : Int, 0 ≤ n ∧ n < 0x110000 → ∃ text, boundText n = .ok text := by
    intro n hn
    exact ⟨_, if_pos hn⟩
  obtain ⟨low, hlow⟩ := hbound r.1 h.1
  obtain ⟨high, hhigh⟩ := hbound r.2 h.2
  rw [describeRange, hlow, hhigh]
  exact ⟨_, rfl⟩

/-- A class whose bounds are code points has a description. -/
theorem describe_eq_ok {cls : CharClass} (h : cls.Describable) :
    ∃ description, cls.describe = .ok description := by
  have hranges : ∀ ranges : List (Int × Int),
      (∀ r ∈ ranges, (0 ≤ r.1 ∧ r.1 < 0x110000) ∧ (0 ≤ r.2 ∧ r.2 < 0x110000)) →
        ∃ texts, ranges.mapM describeRange = .ok texts := by
    intro ranges
    induction ranges with
    | nil => exact fun _ => ⟨[], rfl⟩
    | cons r rest ih =>
      intro hall
      obtain ⟨texts, htexts⟩ := ih fun s hs => hall s (List.mem_cons_of_mem _ hs)
      obtain ⟨shown, hshown⟩ := describeRange_eq_ok (hall r List.mem_cons_self)
      rw [List.mapM_cons, hshown, htexts]
      exact ⟨shown :: texts, rfl⟩
  obtain ⟨texts, htexts⟩ := hranges cls.ranges h
  rw [describe, htexts]
  exact ⟨_, rfl⟩

end CharClass

variable [RegexLibrary]

namespace Matcher

/-- A class among the matchers has code points for bounds. -/
def Describable : Matcher → Prop
  | .charClass cls => cls.Describable
  | _ => True

instance : (matcher : Matcher) → Decidable matcher.Describable
  | .charClass cls => inferInstanceAs (Decidable cls.Describable)
  | .literal _ | .regex _ | .anyChar => .isTrue trivial

/-- A describable matcher has a failure message. -/
theorem failureMessage_eq_ok {matcher : Matcher} (h : matcher.Describable) :
    ∃ message, matcher.failureMessage = .ok message := by
  obtain ⟨description, hdescription⟩ : ∃ description, matcher.describe = .ok description := by
    cases matcher with
    | charClass cls => exact CharClass.describe_eq_ok h
    | literal => exact ⟨_, rfl⟩
    | regex => exact ⟨_, rfl⟩
    | anyChar => exact ⟨_, rfl⟩
  rw [failureMessage, hdescription]
  exact ⟨_, rfl⟩

end Matcher

/-! ## Rules and maps -/

namespace Rule

mutual
/-- The matchers in a rule, from left to right. -/
def matchers : Rule → List Matcher
  | .ref _ => []
  | .terminal matcher => [matcher]
  | .seq first rest => first.matchers ++ matchersAll rest
  | .choice first second rest => first.matchers ++ second.matchers ++ matchersAll rest
/-- The matchers in the rules of a list. -/
def matchersAll : List Rule → List Matcher
  | [] => []
  | rule :: rest => rule.matchers ++ matchersAll rest
end

theorem mem_matchersAll {matcher : Matcher} {parts : List Rule} :
    matcher ∈ matchersAll parts ↔ ∃ part ∈ parts, matcher ∈ part.matchers := by
  induction parts with
  | nil => simp [matchersAll]
  | cons part rest ih => simp [matchersAll, ih]

/-- A rule has the matchers of its parts. -/
theorem mem_matchers_of_part {rule part : Rule} {matcher : Matcher} (hpart : part ∈ rule.parts)
    (hmatcher : matcher ∈ part.matchers) : matcher ∈ rule.matchers := by
  cases rule with
  | ref => cases hpart
  | terminal => cases hpart
  | seq first rest =>
    have hall : matcher ∈ matchersAll (first :: rest) := mem_matchersAll.2 ⟨part, hpart, hmatcher⟩
    simpa [matchers, matchersAll] using hall
  | choice first second rest =>
    have hall : matcher ∈ matchersAll (first :: second :: rest) :=
      mem_matchersAll.2 ⟨part, hpart, hmatcher⟩
    simpa [matchers, matchersAll] using hall

/-- Every matcher in the rule can be described. -/
def Describable (rule : Rule) : Prop := ∀ matcher ∈ rule.matchers, matcher.Describable

instance (rule : Rule) : Decidable rule.Describable :=
  inferInstanceAs (Decidable (∀ matcher ∈ rule.matchers, matcher.Describable))

/-- The parts of a describable rule are describable. -/
theorem Describable.part {rule part : Rule} (h : rule.Describable) (hpart : part ∈ rule.parts) :
    part.Describable :=
  fun matcher hmatcher => h matcher (mem_matchers_of_part hpart hmatcher)

end Rule

/-- The item is a describable rule. -/
def Item.IsExpression : Item → Prop
  | .rule r => r.Describable
  | _ => False

instance : (item : Item) → Decidable item.IsExpression
  | .rule r => inferInstanceAs (Decidable r.Describable)
  | .separator => .isFalse id
  | .atom _ => .isFalse id

namespace RuleMap

/-- The map holds describable rules only. -/
def Expressions (rules : RuleMap) : Prop := ∀ item ∈ rules.items, item.IsExpression

instance (rules : RuleMap) : Decidable rules.Expressions :=
  inferInstanceAs (Decidable (∀ item ∈ rules.items, item.IsExpression))

/-- Any number of a's before one b or c, and a name that stands for one that is not defined. -/
def sample : RuleMap :=
  ofList [("S", .rule (.choice (.seq (.terminal (.literal "a")) [.ref "S"])
      (.terminal (.charClass ⟨false, [(98, 99)], []⟩)) [])),
    ("Gap", .rule (.ref "Missing"))]

/-- What stands under a name is an item of the map. -/
theorem mem_items_of_get? {rules : RuleMap} {name : String} {item : Item}
    (h : rules.get? name = some item) : item ∈ rules.items := by
  obtain ⟨front, back, hentries, -⟩ := List.lookup_eq_some_iff.1 h
  rw [items, hentries]
  simp

end RuleMap

/-! ## Faults -/

namespace Verdict

theorem under_eq_fault {verdict : Verdict} {frame : Frame} {f : Fault} :
    verdict.under frame = .fault f ↔ verdict = .fault f := by
  cases verdict <;> simp [under]

theorem after_eq_fault {verdict : Verdict} {trees : List Derivation} {f : Fault} :
    verdict.after trees = .fault f ↔ verdict = .fault f := by
  cases verdict <;> simp [after]

end Verdict

/-- All rules of the goal are describable. -/
def Goal.IsExpression : Goal → Prop
  | .item i => i.IsExpression
  | .elements parts => ∀ part ∈ parts, part.Describable
  | .branches choice _ => choice.Describable

/-- Over a map of rule expressions an evaluation is at fault for an undefined name only. -/
theorem Evaluates.undefined_of_fault {rules : RuleMap} (hrules : rules.Expressions)
    {text : List Char} {goal : Goal} {offset : Nat} {verdict : Verdict} {log : List Mismatch}
    {visits : Nat} (h : Evaluates rules text goal offset verdict log visits)
    (hgoal : goal.IsExpression) {fault : Fault} (hfault : verdict = .fault fault) :
    ∃ name, fault = .undefined ⟨name⟩ := by
  induction h with
  | @undefined name =>
    cases hfault
    exact ⟨name, rfl⟩
  | reference found _ ih =>
    exact ih (hrules _ (RuleMap.mem_items_of_get? found)) (Verdict.under_eq_fault.1 hfault)
  | @indescribable matcher _ _ _ undescribed =>
    obtain ⟨message, hmessage⟩ :=
      Matcher.failureMessage_eq_ok (hgoal matcher (by simp [Rule.matchers]))
    rw [undescribed] at hmessage
    cases hmessage
  | @sequence first rest _ _ _ _ _ ih =>
    have hsequence : (Rule.seq first rest).Describable := hgoal
    exact ih (fun _ hpart => hsequence.part hpart) (Verdict.under_eq_fault.1 hfault)
  | choice _ ih => exact ih hgoal hfault
  | separator => exact hgoal.elim
  | atom => exact hgoal.elim
  | element _ _ _ ihTail =>
    exact ihTail (fun part hpart => hgoal part (List.mem_cons_of_mem _ hpart))
      (Verdict.after_eq_fault.1 hfault)
  | elementStops _ _ ih => exact ih (hgoal _ List.mem_cons_self) hfault
  | branchFault here _ ih =>
    exact ih (Rule.Describable.part hgoal (List.mem_of_getElem? here)) hfault
  | branchFails _ _ _ _ ihTail => exact ihTail hgoal hfault
  | matched | mismatched | noElements | noBranch | branch => cases hfault

end PegMachine
