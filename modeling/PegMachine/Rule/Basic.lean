import PegMachine.Matcher

/-!
# Rules

A rule is a reference to a named rule, a terminal that consumes text, a sequence of rules or an
ordered choice between rules. A sequence has at least one element and a choice at least two
branches, which the constructors make so.

The parts of a sequence or choice are also listed with a separator between the branches of a choice.
`parts` is the list without separators, and `listing` the one with them; the part number `i` of a
choice stands at place `2 * i` of its listing.
-/

namespace PegMachine

variable [RegexLibrary]

/-- A parsing rule. -/
inductive Rule where
  | ref (name : String)
  | terminal (matcher : Matcher)
  | seq (first : Rule) (rest : List Rule)
  | choice (first second : Rule) (rest : List Rule)

namespace Rule

/-- Induction over the rules inside a rule. -/
theorem induct_parts {motive : Rule → Prop} (ref : ∀ name, motive (.ref name))
    (terminal : ∀ matcher, motive (.terminal matcher))
    (seq : ∀ first rest, motive first → (∀ r ∈ rest, motive r) → motive (.seq first rest))
    (choice : ∀ first second rest, motive first → motive second → (∀ r ∈ rest, motive r) →
      motive (.choice first second rest)) : ∀ rule, motive rule
  | .ref name => ref name
  | .terminal matcher => terminal matcher
  | .seq first rest =>
    seq first rest (induct_parts ref terminal seq choice first)
      fun r _ => induct_parts ref terminal seq choice r
  | .choice first second rest =>
    choice first second rest (induct_parts ref terminal seq choice first)
      (induct_parts ref terminal seq choice second)
      fun r _ => induct_parts ref terminal seq choice r

mutual
/-- Decides equality of two rules. -/
def decEq : (a b : Rule) → Decidable (a = b)
  | .ref m, .ref n => decidable_of_iff (m = n) (by simp)
  | .terminal m, .terminal n => decidable_of_iff (m = n) (by simp)
  | .seq a as, .seq b bs =>
    match decEq a b, decEqList as bs with
    | isTrue ha, isTrue has => isTrue (by rw [ha, has])
    | isFalse ha, _ => isFalse (by simp [ha])
    | _, isFalse has => isFalse (by simp [has])
  | .choice a a' as, .choice b b' bs =>
    match decEq a b, decEq a' b', decEqList as bs with
    | isTrue ha, isTrue ha', isTrue has => isTrue (by rw [ha, ha', has])
    | isFalse ha, _, _ => isFalse (by simp [ha])
    | _, isFalse ha', _ => isFalse (by simp [ha'])
    | _, _, isFalse has => isFalse (by simp [has])
  | .ref _, .terminal _ | .ref _, .seq .. | .ref _, .choice .. => isFalse nofun
  | .terminal _, .ref _ | .terminal _, .seq .. | .terminal _, .choice .. => isFalse nofun
  | .seq .., .ref _ | .seq .., .terminal _ | .seq .., .choice .. => isFalse nofun
  | .choice .., .ref _ | .choice .., .terminal _ | .choice .., .seq .. => isFalse nofun
/-- Decides equality of two lists of rules. -/
def decEqList : (as bs : List Rule) → Decidable (as = bs)
  | [], [] => isTrue rfl
  | a :: as, b :: bs =>
    match decEq a b, decEqList as bs with
    | isTrue ha, isTrue has => isTrue (by rw [ha, has])
    | isFalse ha, _ => isFalse (by simp [ha])
    | _, isFalse has => isFalse (by simp [has])
  | [], _ :: _ | _ :: _, [] => isFalse nofun
end

instance : DecidableEq Rule := decEq

/-- The elements of a sequence or the branches of a choice. -/
def parts : Rule → List Rule
  | .ref _ => []
  | .terminal _ => []
  | .seq first rest => first :: rest
  | .choice first second rest => first :: second :: rest

/-- Is the rule a choice? -/
def isChoice : Rule → Bool
  | .choice .. => true
  | _ => false

/-- Is the rule a sequence or a choice? -/
def isComposite : Rule → Bool
  | .seq .. => true
  | .choice .. => true
  | _ => false

end Rule

end PegMachine
