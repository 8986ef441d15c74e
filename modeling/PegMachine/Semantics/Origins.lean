import PegMachine.Machine.Run

/-!
# Where the frames of a run come from

Frames do not record who pushed them, or when. `Machine.origins` tells it of all frames on the stack
after a number of calls: after which call a frame was pushed, and at which height the frame stands
that caused the push. That is the frame whose place has moved for it, and else the one that was on
top. Heights are counted from the bottom of the stack, where the first frame stands at 0; the frames
of a machine that a call leaves on the stack keep their heights, and so the causes of frames do.

The frames in flight are the one on top, the one that caused it, the one that caused that, and so on
(`InFlight`).
-/

namespace PegMachine

variable [RegexLibrary]

/-- Does the event tell of a new frame? -/
def Event.isPush : Event → Bool
  | .pushed .. => true
  | _ => false

/-- Where a frame comes from: after which call it was pushed, and the height of the frame that
caused that. The first frame of a run is there before all calls and has no cause. -/
structure Origin where
  born : Nat
  cause? : Option Nat
  deriving DecidableEq

/-- The height of the frame that causes a push, given all frames before and after it, from bottom to
top: where a place has moved, and else at the top. -/
def causeOf (before after : List Frame) : Nat :=
  ((before.zip after).findIdx? fun pair => pair.1.place != pair.2.place).getD (before.length - 1)

namespace Machine

/-- Does the call push a frame? -/
def Outcome.pushes (outcome : Outcome) : Bool := outcome.events.any Event.isPush

/-- The number of frames that the call leaves on the stack of those that were there before. -/
def Outcome.kept (outcome : Outcome) : Nat :=
  outcome.machine.frames.length - if outcome.pushes then 1 else 0

/-- The origins of all frames after the given number of calls in a run from a name, from the bottom
of the stack to its top. -/
def origins (rules : RuleMap) (text : List Char) (name : String) : (calls : Nat) → List Origin
  | 0 => [{ born := 0, cause? := none }]
  | calls + 1 =>
    let before := (start name).after rules text calls
    let outcome := before.advance rules text
    (origins rules text name calls).take outcome.kept ++
      if outcome.pushes then
        [{ born := calls + 1, cause? := some (causeOf before.frames outcome.machine.frames) }]
      else []

end Machine

/-- The frame at the height is the one on top, or caused, directly or not, the push of that. -/
inductive InFlight (origins : List Origin) : Nat → Prop where
  | top {height} (h : height + 1 = origins.length) : InFlight origins height
  | cause {height origin lower} (above : InFlight origins height)
    (here : origins[height]? = some origin) (caused : origin.cause? = some lower) :
    InFlight origins lower

/-- The name that a reference stands for, with its offset. -/
def Frame.call? (frame : Frame) : Option (String × Nat) :=
  match frame.item with
  | .rule (.ref name) => some (name, frame.offset)
  | _ => none

/-- Two frames in flight are references to the same name at the same offset. -/
def Machine.RepeatsInFlight (rules : RuleMap) (text : List Char) (name : String) (calls : Nat) :
    Prop :=
  ∃ lower upper call, lower ≠ upper ∧ InFlight (origins rules text name calls) lower ∧
    InFlight (origins rules text name calls) upper ∧
    (((start name).after rules text calls).frames[lower]?.bind Frame.call?) = some call ∧
    (((start name).after rules text calls).frames[upper]?.bind Frame.call?) = some call

end PegMachine
