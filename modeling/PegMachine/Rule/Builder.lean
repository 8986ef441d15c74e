import PegMachine.Rule.Printer

/-!
# Building rules

`Item.composite` makes a rule of a list of items. It accepts a non-empty list of rules, which is a
sequence, and a list of odd length in which rules and separators take turns, which is a choice. All
else is refused for the first reason that applies, in this order: the list is empty; its leftmost
plain value; the least place where a separator stands for a rule or a rule for a separator; a
separator at the end.

`Item.sequence` and `Item.choice` hand a single argument back unchanged, whatever it is.
-/

namespace PegMachine

variable [RegexLibrary]

/-- Why a rule cannot be built. -/
inductive DefinitionError where
  | regex (error : RegexError)
  | emptyComposite
  | notARule (value : Atom)
  | misplaced (items : List Item) (place : Nat)
  | endsWithSeparator (items : List Item)
  deriving DecidableEq

/-- The message of a definition error. -/
def DefinitionError.message : DefinitionError → String
  | .regex error => error.message
  | .emptyComposite => "PEG: empty composite"
  | .notARule value => "PEG: not a rule expression: " ++ value.render
  | .misplaced items place =>
    "PEG: malformed choice " ++ Item.renderAll items ++
      ": branches must be single elements separated by ALT (offending element #" ++
      toString place ++ ")"
  | .endsWithSeparator items =>
    "PEG: choice " ++ Item.renderAll items ++ " ends with ALT"

namespace Item

/-- The leftmost plain value of a list of items. -/
def firstAtom? : List Item → Option Atom
  | [] => none
  | .atom value :: _ => some value
  | _ :: rest => firstAtom? rest

/-- The least place from `place` on where the item is a separator at an even place or a rule at an
odd one. -/
def firstMisplaced? : (place : Nat) → List Item → Option Nat
  | _, [] => none
  | place, item :: rest =>
    if item.isSeparator = (place % 2 == 1) then firstMisplaced? (place + 1) rest else some place

/-- Makes a sequence or a choice of a list of items. -/
def composite (items : List Item) : Except DefinitionError Rule :=
  if items.isEmpty then .error .emptyComposite
  else match firstAtom? items with
    | some value => .error (.notARule value)
    | none =>
      if items.any isSeparator then
        match firstMisplaced? 0 items with
        | some place => .error (.misplaced items place)
        | none =>
          match items.filterMap rule?, items.length % 2 with
          | first :: second :: rest, 1 => .ok (.choice first second rest)
          | _, _ => .error (.endsWithSeparator items)
      else
        match items.filterMap rule? with
        | first :: rest => .ok (.seq first rest)
        | [] => .error .emptyComposite

/-- The given items one after the other. -/
def sequence : List Item → Except DefinitionError Item
  | [item] => .ok item
  | items => (composite items).map .rule

/-- An ordered choice between the given items. -/
def choice : List Item → Except DefinitionError Item
  | [item] => .ok item
  | items => (composite (separated items)).map .rule

end Item

/-- The terminal that matches a regular expression. -/
def Matcher.ofRegex (pattern flags : String) : Except DefinitionError Matcher :=
  match Regex.make pattern flags with
  | .ok r => .ok (.regex r)
  | .error error => .error (.regex error)

end PegMachine
