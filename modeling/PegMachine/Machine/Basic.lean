import PegMachine.Machine.Event

/-!
# The machine and its transition

A machine evaluates a start name against a text on an explicit stack of frames, top first. One
transition does one of four things to a running machine:

* a sequence or choice on top hands over to what stands at its place, a reference to the item under
  its name: one frame is pushed at the same offset;
* a terminal that matches takes its value. The frames stay on the stack, and the nearest one below
  that is followed by an element goes on with it at the new offset; every frame passed on the way
  that is followed by a separator is a choice whose branch has succeeded, and is settled. If no
  element is left, the text must have come to its end;
* a terminal that fails is recorded, and frames are popped down to the nearest one that is not
  settled and has a separator left. It is resumed there, and goes on with the branch behind the
  separator at its own offset;
* if none is left, the machine rejects with an empty stack.

A transition that meets a name without item, an item that is no rule, or a class that cannot be
described is refused. The fault stands beside the machine that it leaves.

A machine may be traced. Then the text of each event is printed as the event happens.
-/

namespace PegMachine

variable [RegexLibrary]

/-- How far a machine is. -/
inductive Status where
  | running
  | accepted
  | rejected
  deriving DecidableEq, Repr

/-- Why a transition is refused. No machine that started from a name is ever `stuck`. -/
inductive Fault where
  | undefined (error : UndefinedRule)
  | notARule (item : Item)
  | indescribable (error : BoundError)
  | finished
  | stuck
  deriving DecidableEq

/-- The message of a fault. -/
def Fault.message : Fault → String
  | .undefined error => error.message
  | .notARule item => "unknown rule: " ++ item.render
  | .indescribable error => error.message
  | .finished => "PEG: advance() called on a finished engine"
  | .stuck => "PEG: no rule to evaluate"

/-- The state of an evaluation. The stack has its top first. -/
structure Machine where
  stack : List Frame
  failures : FurthestFailures := .empty
  status : Status := .running
  steps : Nat := 0
  traced : Bool := false
  deriving DecidableEq

/-- The message for text that is left over. -/
def endOfInputMessage : String := "expected end of input"

namespace Machine

/-- The machine that is about to evaluate a name at the start of a text. -/
def start (name : String) (traced : Bool := false) : Machine where
  stack := [{ item := .rule (.ref name), offset := 0 }]
  traced

/-- The frames from the bottom of the stack to its top. -/
def frames (machine : Machine) : List Frame := machine.stack.reverse

/-- What a transition gives: the machine after it, what happened, and the fault that ended it, if one
did. -/
structure Outcome where
  machine : Machine
  events : List Event := []
  fault? : Option Fault := none
  deriving DecidableEq

/-- What is printed on the way, text by text: that of each event if the machine is traced, and
nothing if it is not. -/
def Outcome.printed (outcome : Outcome) : List String :=
  if outcome.machine.traced then outcome.events.map Event.text else []

/-- Puts an event in front of what happened. -/
def Outcome.tell (event : Event) (outcome : Outcome) : Outcome :=
  { outcome with events := event :: outcome.events }

/-- Refuses to go on. -/
def refuse (machine : Machine) (fault : Fault) : Outcome := { machine, fault? := some fault }

/-- Pushes an item. -/
def push (machine : Machine) (item : Item) (offset : Nat) : Outcome where
  machine := { machine with stack := { item, offset } :: machine.stack }
  events := [.pushed item offset machine.stack.length]

/-- What success does to the frames below it, from the top down: those that a separator follows are
settled, up to the first one that an element follows, which goes on to that element. -/
def settle : List Frame → Option Item × List Frame
  | [] => (none, [])
  | frame :: below =>
    match frame.following? with
    | none =>
      let (next, below) := settle below
      (next, frame :: below)
    | some .separator =>
      let (next, below) := settle below
      (next, { frame with settled := true } :: below)
    | some next => (some next, { frame with place := frame.place + 1 } :: below)

/-- What failure does to the frames, from the top down: they are dropped down to the first one that
is not settled and has a separator left, which comes to that separator. -/
def retreat : List Frame → Option (Frame × List Frame)
  | [] => none
  | frame :: below =>
    match frame.settled, frame.nextMarker? with
    | false, some marker => some ({ frame with place := marker }, below)
    | _, _ => retreat below

/-- Resumes the nearest choice that has a separator left, and hands over to the branch behind it at
the offset of the choice; rejects if there is none. -/
def backtrack (machine : Machine) : Outcome :=
  match retreat machine.stack with
  | some (choice, below) =>
    .tell (.resumed choice) <| .tell (.matched none choice.offset choice.offset) <|
      match settle (choice :: below) with
      | (some next, stack) => { machine with stack }.push next choice.offset
      | (none, stack) => { machine with stack }.refuse .stuck
  | none =>
    { machine := { machine with stack := [], status := .rejected }
      events := [.rejected machine.steps machine.failures] }

/-- Records a failure and goes back. -/
def fail (machine : Machine) (offset : Nat) (message : String) : Outcome :=
  .tell (.failed offset message)
    { machine with failures := machine.failures.record offset message }.backtrack

/-- Goes on at an offset with the element that the nearest frame has left; finishes if there is
none. -/
def goOn (text : List Char) (machine : Machine) (offset : Nat) : Outcome :=
  match settle machine.stack with
  | (some next, stack) => { machine with stack }.push next offset
  | (none, stack) =>
    if offset = text.length then
      { machine := { machine with stack, failures := .empty, status := .accepted }
        events := [.accepted machine.steps] }
    else { machine with stack }.fail offset endOfInputMessage

/-- Gives the terminal on top its value and goes on after it. -/
def succeed (text : List Char) (machine : Machine) (top : Frame) (below : List Frame)
    (value : List Char) : Outcome :=
  let stop := top.offset + value.length
  .tell (.matched (some value) top.offset stop)
    ({ machine with stack := { top with value := some value } :: below }.goOn text stop)

/-- One transition of a running machine. -/
def transition (rules : RuleMap) (text : List Char) (machine : Machine) : Outcome :=
  match machine.stack with
  | [] => machine.refuse .stuck
  | top :: below =>
    match top.item with
    | .rule (.ref name) =>
      match rules.require name with
      | .ok item => machine.push item top.offset
      | .error error => machine.refuse (.undefined error)
    | .rule (.terminal matcher) =>
      match matcher.matchEnd? text top.offset with
      | some stop =>
        machine.succeed text top below ((text.drop top.offset).take (stop - top.offset))
      | none =>
        match matcher.failureMessage with
        | .ok message => machine.fail top.offset message
        | .error error => machine.refuse (.indescribable error)
    | .rule _ =>
      match top.current? with
      | some item => machine.push item top.offset
      | none => machine.refuse .stuck
    | item => machine.refuse (.notARule item)

/-- Advances a machine by one transition. The call counts as a step, also when it is refused, but
not on a machine that has finished. -/
def advance (rules : RuleMap) (text : List Char) (machine : Machine) : Outcome :=
  match machine.status with
  | .running => { machine with steps := machine.steps + 1 }.transition rules text
  | _ => machine.refuse .finished

end Machine

end PegMachine
