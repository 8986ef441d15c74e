import Mathlib.Logic.Relation
import PegMachine.Grammar.Basic

/-!
# Left recursion

What a map of rules says about where its names may be called again without any text in between. A
rule is `PossiblyEmpty` if its form lets it succeed without text: every regular expression counts as
such a form, and a sequence is one if all its elements are. A name left-calls another if a reference
to the other occurs in its rule behind nothing but possibly empty elements of each sequence on the
way down. A map is left recursive if some name left-calls itself, directly or through others.

All of this is read off the rules. It says nothing of a text, and the forms are taken for what they
might do: not every possibly empty rule succeeds without text.
-/

namespace PegMachine

variable [RegexLibrary]

namespace Rule

/-- The rule may succeed without text, as far as its form tells. -/
inductive PossiblyEmpty (rules : RuleMap) : Rule → Prop where
  | regex {regex} : PossiblyEmpty rules (.terminal (.regex regex))
  | emptyLiteral : PossiblyEmpty rules (.terminal (.literal ""))
  | reference {name rule} (found : rules.get? name = some (.rule rule))
    (h : PossiblyEmpty rules rule) : PossiblyEmpty rules (.ref name)
  | sequence {first rest} (h : ∀ part ∈ first :: rest, PossiblyEmpty rules part) :
    PossiblyEmpty rules (.seq first rest)
  | choice {first second rest part} (branch : part ∈ first :: second :: rest)
    (h : PossiblyEmpty rules part) : PossiblyEmpty rules (.choice first second rest)

/-- A rule occurs in another where all elements are possibly empty that come before it in a sequence
on the way down. -/
inductive LeftOccurs (rules : RuleMap) (inner : Rule) : Rule → Prop where
  | here : LeftOccurs rules inner inner
  | sequence {first rest cursor part} (element : (first :: rest)[cursor]? = some part)
    (before : ∀ r ∈ (first :: rest).take cursor, r.PossiblyEmpty rules)
    (h : LeftOccurs rules inner part) : LeftOccurs rules inner (.seq first rest)
  | choice {first second rest part} (branch : part ∈ first :: second :: rest)
    (h : LeftOccurs rules inner part) : LeftOccurs rules inner (.choice first second rest)

end Rule

namespace RuleMap

/-- A reference to the other name occurs on the left in the rule of the one. -/
def LeftCalls (rules : RuleMap) (name other : String) : Prop :=
  ∃ rule, rules.get? name = some (.rule rule) ∧ Rule.LeftOccurs rules (.ref other) rule

/-- Some name left-calls itself, directly or through others. -/
def LeftRecursive (rules : RuleMap) : Prop :=
  ∃ name, Relation.TransGen rules.LeftCalls name name

end RuleMap

end PegMachine
