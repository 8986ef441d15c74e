import PegMachine.Grammar.References
import PegMachine.Grammar.RuleMap
import PegMachine.StringSet

/-!
# Grammars

A grammar is a rule map with a start name. It is checked before use: every name that a rule refers
to and the start name have to be defined, and of those that are not the least one is reported.
-/

namespace PegMachine

variable [RegexLibrary]

/-- Named rules with a name to start from. -/
structure Grammar where
  rules : RuleMap
  start : String
  deriving DecidableEq

/-- A name that is not defined. -/
structure UndefinedRule where
  name : String
  deriving DecidableEq

/-- The message for a name that is not defined. -/
def UndefinedRule.message (error : UndefinedRule) : String :=
  "PEG: undefined rule '" ++ error.name ++ "'"

namespace RuleMap

/-- The item under a name that has to be defined. -/
def require (rules : RuleMap) (name : String) : Except UndefinedRule Item :=
  match rules.get? name with
  | some item => .ok item
  | none => .error ⟨name⟩

/-- The names that the items of a map refer to, in order of definition. -/
def references (rules : RuleMap) : List String :=
  rules.items.flatMap fun item => Item.gather [item]

/-- What is found in a map is what its items refer to, one after the other. -/
theorem references_eq (rules : RuleMap) :
    rules.references = rules.items.flatMap Item.references := by
  have hone : ∀ item : Item, Item.gather [item] = item.references := by
    intro item
    rw [Item.gather_eq, List.flatMap_singleton]
  exact congrArg rules.items.flatMap (funext hone)

/-- What an item of the map refers to is found. -/
theorem mem_references {rules : RuleMap} {item : Item} {name : String} (hitem : item ∈ rules.items)
    (hname : name ∈ item.references) : name ∈ rules.references := by
  rw [references_eq]
  exact List.mem_flatMap.2 ⟨item, hitem, hname⟩

end RuleMap

namespace Grammar

/-- The names that are used and not defined, each once and in ascending order. -/
def undefinedNames (grammar : Grammar) : List String :=
  (StringSet.ofList
    ((grammar.rules.references ++ [grammar.start]).filter (!grammar.rules.contains ·))).toList

/-- The least name that is used and not defined, as an error. -/
def check (grammar : Grammar) : Except UndefinedRule Unit :=
  match grammar.undefinedNames with
  | [] => .ok ()
  | name :: _ => .error ⟨name⟩

end Grammar

end PegMachine
