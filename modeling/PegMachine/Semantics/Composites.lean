import PegMachine.Rule.Builder

/-!
# Which items make a composite

A list of items makes a composite if it holds rules, and separators at all odd places or nowhere
(`Item.Composes`). If it makes none there is a first reason for that, and `Item.Offends` says for each
error what that reason is. Both look at items and places only, and not at how a builder goes about it.
-/

namespace PegMachine.Item

variable [RegexLibrary]

/-- The item may stand at the place in a choice: separators have the odd places, all else the even. -/
def Fits (item : Item) (place : Nat) : Prop := item = .separator ↔ place % 2 = 1

/-- All items before the place fit where they stand. -/
def FitBefore (items : List Item) (place : Nat) : Prop :=
  ∀ earlier < place, ∀ item, items[earlier]? = some item → item.Fits earlier

/-- The items make a sequence or a choice. -/
structure Composes (items : List Item) : Prop where
  nonempty : items ≠ []
  noValue : ∀ value, Item.atom value ∉ items
  turns : Item.separator ∉ items ∨ items.length % 2 = 1 ∧ FitBefore items items.length

/-- The first reason for which the items make neither a sequence nor a choice. -/
inductive Offends (items : List Item) : DefinitionError → Prop where
  | empty (none : items = []) : Offends items .emptyComposite
  | notARule {place : Nat} {value : Atom} (here : items[place]? = some (.atom value))
    (leftmost : ∀ earlier < place, ∀ other, items[earlier]? ≠ some (.atom other)) :
    Offends items (.notARule value)
  | misplaced {place : Nat} {item : Item} (noValue : ∀ value, Item.atom value ∉ items)
    (choice : Item.separator ∈ items)
    (here : items[place]? = some item) (misfit : ¬ item.Fits place) (least : FitBefore items place) :
    Offends items (.misplaced items place)
  | endsWithSeparator (noValue : ∀ value, Item.atom value ∉ items)
    (choice : Item.separator ∈ items)
    (turns : FitBefore items items.length) (even : items.length % 2 = 0) :
    Offends items (.endsWithSeparator items)

/-- What the message says of the items that were refused for the error: the reason, and the value that
is no rule, or the items as they are written and the place that offends. -/
def Explains (items : List Item) (message : String) : DefinitionError → Prop
  | .emptyComposite => message = "PEG: empty composite"
  | .notARule value => message = "PEG: not a rule expression: " ++ value.render
  | .misplaced _ place => message = "PEG: malformed choice " ++ renderAll items ++
      ": branches must be single elements separated by ALT (offending element #" ++
      toString place ++ ")"
  | .endsWithSeparator _ => message = "PEG: choice " ++ renderAll items ++ " ends with ALT"
  | .regex _ => False

/-- What the items call for: the rule that lists them if they make a composite, and else the error of
their first offence. -/
def CallFor (items : List Item) : Except DefinitionError Rule → Prop
  | .ok built => Composes items ∧ built.listing = items ∧
      (built.isChoice = true ↔ Item.separator ∈ items)
  | .error error => Offends items error

end PegMachine.Item
