import PegMachine.FurthestFailures
import PegMachine.Machine.Frame

/-!
# What a machine tells of its transitions

Each transition is a short row of events. An event is data; `Event.text` is what is printed of it if
the machine is traced.
-/

namespace PegMachine

variable [RegexLibrary]

/-- Something that happened in a transition. A choice is resumed at the separator after the branch
that failed; a `matched` event without a value is the hand-over to the branch behind it. -/
inductive Event where
  | pushed (item : Item) (offset depth : Nat)
  | matched (value : Option (List Char)) (start stop : Nat)
  | failed (offset : Nat) (message : String)
  | resumed (choice : Frame)
  | accepted (steps : Nat)
  | rejected (steps : Nat) (failures : FurthestFailures)
  deriving DecidableEq

/-- The event in words. -/
def Event.text : Event → String
  | .pushed item offset depth =>
    "[TRACE] push " ++ item.render ++ " @" ++ toString offset ++
      " (depth=" ++ toString depth ++ ")"
  | .matched value start stop =>
    "[TRACE] match " ++ (match value with
      | some text => Text.quote text
      | none => "None") ++ " @" ++ toString start ++ " -> " ++ toString stop
  | .failed offset message => "[TRACE] fail @" ++ toString offset ++ ": " ++ message
  | .resumed choice => "[TRACE] resume choice " ++ choice.render
  | .accepted steps => "[TRACE] finish ok after " ++ toString steps ++ " steps"
  | .rejected steps failures =>
    "[TRACE] finish failed after " ++ toString steps ++ " steps " ++ failures.summary

end PegMachine
