import PegMachine.Machine.Run

/-!
# When an evaluation is resolved

The evaluation of a frame goes on while the machine deals with that frame and those above it. It is
resolved by the call whose walk leaves them: a walk after a success that passes the frame, or a walk
after a failure that drops it. Which of the two it is, and where a success ends, can be read off the
frames from the top of the stack down to the frame (`Machine.resolution?`).

Heights are counted from the bottom of the stack, so that of a frame does not change while its
evaluation goes on.
-/

namespace PegMachine

variable [RegexLibrary]

/-- How an evaluation is resolved. A success has the offset where it ends. -/
inductive Resolution where
  | success (stop : Nat)
  | failure
  deriving DecidableEq

namespace Machine

/-- How the next transition resolves an evaluation, if it does, given the frames from the top of the
stack down to the one that is evaluated. -/
def resolution? (text : List Char) : List Frame → Option Resolution
  | [] => none
  | top :: rest =>
    match top.item with
    | .rule (.terminal matcher) =>
      match matcher.matchEnd? text top.offset with
      | some stop =>
        let value := (text.drop top.offset).take (stop - top.offset)
        match (settle ({ top with value := some value } :: rest)).1 with
        | some _ => none
        | none => some (.success (top.offset + value.length))
      | none =>
        match matcher.failureMessage, retreat (top :: rest) with
        | .ok _, none => some .failure
        | _, _ => none
    | _ => none

/-- How the next call resolves the evaluation of the frame at a height. -/
def resolves? (text : List Char) (height : Nat) (machine : Machine) : Option Resolution :=
  resolution? text (machine.frames.drop height).reverse

section Evaluation

variable (rules : RuleMap) (text : List Char) (height calls : Nat)

/-- The given number of calls is made, and none of them resolves the evaluation of the frame at the
height. -/
def Unresolved (machine : Machine) : Prop :=
  ∀ made < calls, (machine.after rules text made).resolves? text height = none ∧
    ((machine.after rules text made).advance rules text).fault? = none

instance (machine : Machine) : Decidable (machine.Unresolved rules text height calls) :=
  inferInstanceAs (Decidable (∀ made < calls, _))

/-- The call after the given number of calls resolves the evaluation of the frame at the height. -/
def ResolvesAfter (resolution : Resolution) (machine : Machine) : Prop :=
  machine.Unresolved rules text height calls ∧
    (machine.after rules text calls).resolves? text height = some resolution

instance (resolution : Resolution) (machine : Machine) :
    Decidable (machine.ResolvesAfter rules text height calls resolution) :=
  inferInstanceAs (Decidable (_ ∧ _))

/-- The call after the given number of calls is refused, and the evaluation of the frame at the
height is not resolved before. -/
def FaultsAfter (fault : Fault) (machine : Machine) : Prop :=
  machine.Unresolved rules text height calls ∧
    ((machine.after rules text calls).advance rules text).fault? = some fault

end Evaluation

end Machine

end PegMachine
