import PegMachine.Semantics.Meaning

/-!
# Rewriting rules

Rules are rewritten at one place: `Rule.Replaced` says that a rule in a rule, however deep, has given
way to another. What a place may be rewritten to is said apart. `Rule.Regroups` takes the parts of a
part into the row that it stands in, or a sequence of one element for that element;
`Rule.DropsBranch` leaves out a branch of a choice that is a literal, behind another that is one. A
rule with a literal in front of a name is `Rule.literalThen`.

A rule with parts is given here by its kind and the row of its parts, so that what is said of sequences
and choices alike is said once.
-/

namespace PegMachine.Rule

variable [RegexLibrary]

/-- At one place in a rule the rule `old` has given way to `new`. -/
inductive Replaced (old new : Rule) : (rule edited : Rule) → Prop where
  | here : Replaced old new old new
  | inside {rule edited part part' before after kind} (whole : rule.kind? = some kind)
    (whole' : edited.kind? = some kind) (parts : rule.parts = before ++ part :: after)
    (parts' : edited.parts = before ++ part' :: after) (h : Replaced old new part part') :
    Replaced old new rule edited

/-- A rule is grouped in another way: an element that is a sequence itself, or a branch that is a choice
itself, is replaced by its parts, or a sequence of one element by that element. -/
inductive Regroups : (rule regrouped : Rule) → Prop where
  | splice {rule inner regrouped before after kind} (whole : rule.kind? = some kind)
    (nested : inner.kind? = some kind) (whole' : regrouped.kind? = some kind)
    (parts : rule.parts = before ++ inner :: after)
    (parts' : regrouped.parts = before ++ (inner.parts ++ after)) : Regroups rule regrouped
  | single {rule} : Regroups (.seq rule []) rule

/-- A choice loses the branch that is the literal `later`, behind a branch that is the literal
`earlier`. A choice of which one branch is left is that branch. -/
inductive DropsBranch (earlier later : String) : (choice fewer : Rule) → Prop where
  | choice {choice fewer before between after} (whole : choice.kind? = some .choice)
    (whole' : fewer.kind? = some .choice)
    (parts : choice.parts = before ++ .terminal (.literal earlier) ::
      (between ++ .terminal (.literal later) :: after))
    (parts' : fewer.parts = before ++ .terminal (.literal earlier) :: (between ++ after)) :
    DropsBranch earlier later choice fewer
  | last : DropsBranch earlier later
    (.choice (.terminal (.literal earlier)) (.terminal (.literal later)) [])
    (.terminal (.literal earlier))

/-- A literal, and then what stands under a name. -/
def literalThen (before name : String) : Rule := .seq (.terminal (.literal before)) [.ref name]

end PegMachine.Rule
