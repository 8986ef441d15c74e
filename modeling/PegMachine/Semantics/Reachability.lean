import PegMachine.Grammar.Basic

/-!
# What can be reached from a name

From a name one reaches the names that its rule refers to, those that their rules refer to, and so on.
Reaching a name does not take that it is defined. Two maps agree from a name if they have the same under
every name that is reached from it, and under the others anything or nothing, in any order.
-/

namespace PegMachine.RuleMap

variable [RegexLibrary]

/-- The names that are reached from a name, the name itself among them. -/
inductive Reachable (rules : RuleMap) (start : String) : String → Prop where
  | start : Reachable rules start start
  | refers {name referred item} (reached : Reachable rules start name)
    (found : rules.get? name = some item) (occurs : referred ∈ item.references) :
    Reachable rules start referred

/-- Another map has the same under the names that are reached from the start, and nothing if there is
nothing. -/
def AgreesFrom (other rules : RuleMap) (start : String) : Prop :=
  ∀ name, rules.Reachable start name → other.get? name = rules.get? name

end PegMachine.RuleMap
