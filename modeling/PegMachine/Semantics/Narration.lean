import PegMachine.Semantics.Evaluation

/-!
# What is printed of a call

A call on a traced machine that is taken prints one of six rows (`Machine.Prints`): a push; a match
and a push; a match and the end of the run, at the end of the text or before it; a mismatch, a choice
that is resumed, the hand-over to the branch behind its separator and the push of that; or a mismatch
and the end of the run. Each row says word for word what is printed, and what the call has done to
stack, failures and status when it prints that. A mismatch is printed with its message as it is, so
the print has more lines than one if the message does.
-/

namespace PegMachine.Machine

variable [RegexLibrary]

/-! ## The kinds of prints -/

/-- A frame is pushed onto the given number of others. -/
def pushPrint (item : Item) (offset depth : Nat) : String :=
  "[TRACE] push " ++ item.render ++ " @" ++ toString offset ++
    " (depth=" ++ toString depth ++ ")"

/-- A terminal has matched its value. -/
def matchPrint (value : List Char) (start stop : Nat) : String :=
  "[TRACE] match " ++ Text.quote value ++ " @" ++ toString start ++ " -> " ++ toString stop

/-- A choice hands over at its offset. -/
def handOverPrint (offset : Nat) : String :=
  "[TRACE] match None @" ++ toString offset ++ " -> " ++ toString offset

/-- A failure is recorded. -/
def failPrint (offset : Nat) (message : String) : String :=
  "[TRACE] fail @" ++ toString offset ++ ": " ++ message

/-- A choice is resumed at a separator. -/
def resumePrint (choice : Frame) : String := "[TRACE] resume choice " ++ choice.render

/-- The text is accepted. -/
def acceptPrint (steps : Nat) : String :=
  "[TRACE] finish ok after " ++ toString steps ++ " steps"

/-- The text is rejected. -/
def rejectPrint (steps : Nat) (failures : FurthestFailures) : String :=
  "[TRACE] finish failed after " ++ toString steps ++ " steps " ++
    (Text.quoteList failures.messages.toList ++ "@" ++ toString failures.offset)

/-! ## Rows -/

/-- The frame is of a terminal that matches the value. -/
def Takes (text : List Char) (frame : Frame) (value : List Char) : Prop :=
  ∃ matcher, frame.item = .rule (.terminal matcher) ∧
    matcher.matchEnd? text frame.offset = some (frame.offset + value.length) ∧
    value = (text.drop frame.offset).take value.length

/-- The frame is of a terminal that does not match, with the message that says so. -/
def Misses (text : List Char) (frame : Frame) (message : String) : Prop :=
  ∃ matcher, frame.item = .rule (.terminal matcher) ∧
    matcher.matchEnd? text frame.offset = none ∧ matcher.failureMessage = .ok message

/-- What a call prints that leads from the one machine to the other. -/
inductive Prints (text : List Char) (before after : Machine) : List String → Prop where
  | handsOver {top below rule item} (stack : before.stack = top :: below)
    (here : top.item = .rule rule) (nonterminal : ∀ matcher, rule ≠ .terminal matcher)
    (running : after.status = .running) (kept : after.failures = before.failures)
    (pushed : after.stack = { item, offset := top.offset } :: before.stack) :
    Prints text before after [pushPrint item top.offset before.stack.length]
  | goesOn {top below value stop item frames} (stack : before.stack = top :: below)
    (takes : Takes text top value) (ends : stop = top.offset + value.length)
    (running : after.status = .running) (kept : after.failures = before.failures)
    (pushed : after.stack = { item, offset := stop } :: frames)
    (same : frames.length = before.stack.length) :
    Prints text before after
      [matchPrint value top.offset stop, pushPrint item stop frames.length]
  | accepts {top below value} (stack : before.stack = top :: below) (takes : Takes text top value)
    (atEnd : top.offset + value.length = text.length) (accepted : after.status = .accepted)
    (cleared : after.failures = .empty) :
    Prints text before after [matchPrint value top.offset text.length, acceptPrint after.steps]
  | leavesOver {top below value stop} (stack : before.stack = top :: below)
    (takes : Takes text top value) (ends : stop = top.offset + value.length)
    (left : stop < text.length) (rejected : after.status = .rejected)
    (recorded : after.failures = before.failures.record stop endOfInputMessage) :
    Prints text before after
      [matchPrint value top.offset stop, failPrint stop endOfInputMessage,
        rejectPrint after.steps after.failures]
  | resumes {top below message above choice marker rest branch}
    (stack : before.stack = top :: below) (misses : Misses text top message)
    (found : before.stack = above ++ choice :: rest) (unsettled : choice.settled = false)
    (separator : choice.nextMarker? = some marker) (back : choice.offset ≤ top.offset)
    (behind : choice.listed? (marker + 1) = some (.rule branch))
    (running : after.status = .running)
    (recorded : after.failures = before.failures.record top.offset message)
    (pushed : after.stack = { item := .rule branch, offset := choice.offset } ::
      { choice with place := marker + 1 } :: rest) :
    Prints text before after
      [failPrint top.offset message, resumePrint { choice with place := marker },
        handOverPrint choice.offset, pushPrint (.rule branch) choice.offset (rest.length + 1)]
  | givesUp {top below message} (stack : before.stack = top :: below)
    (misses : Misses text top message) (rejected : after.status = .rejected)
    (recorded : after.failures = before.failures.record top.offset message) :
    Prints text before after
      [failPrint top.offset message, rejectPrint after.steps after.failures]

end PegMachine.Machine
