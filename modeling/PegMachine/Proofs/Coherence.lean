import PegMachine.Proofs.Diagnostics
import PegMachine.Proofs.Tiling
import PegMachine.Regex.Backtracking

/-!
# Status, stack and failures agree

`Machine.Coherent` says what the parts of a machine say of each other: a running machine has a frame
in hand and began with its start name, an accepting one ends with a terminal that has matched the
rest of the text, a rejecting one has nothing left but failures. No edit of the rules can disturb
that, and once a machine has finished nothing that happens changes it any more
(`Machine.coherent_of_reached`).

What has to be carried along is that the bottom frame is never touched, since neither walk stops at
a reference, and that all failures are recorded inside the text, since all frames stand there.
-/

namespace PegMachine

namespace FurthestFailures

/-- The record of failures that all lie inside a text of the given length. -/
def Within (length : Nat) (failures : FurthestFailures) : Prop :=
  ∃ history, failures.Keeps history ∧ ∀ entry ∈ history, 0 ≤ entry.1 ∧ entry.1 ≤ length

namespace Within

variable {length offset : Nat} {failures : FurthestFailures}

theorem empty : FurthestFailures.empty.Within length := ⟨[], Keeps.empty, nofun⟩

/-- With one more failure inside the text the record holds a message, at an offset inside it. -/
theorem record (h : failures.Within length) (hoffset : offset ≤ length) (message : String) :
    (failures.record offset message).Within length ∧
      (failures.record offset message).messages ≠ .empty ∧
      0 ≤ (failures.record offset message).offset ∧
      (failures.record offset message).offset ≤ length := by
  obtain ⟨history, hkeeps, hinside⟩ := h
  have hnew : (0 : Int) ≤ offset ∧ (offset : Int) ≤ length :=
    ⟨Int.natCast_nonneg _, Int.ofNat_le.2 hoffset⟩
  have hrecord := hkeeps.record offset message
  have hall : ∀ entry ∈ history ++ [((offset : Int), message)],
      0 ≤ entry.1 ∧ entry.1 ≤ length := by
    intro entry hentry
    rcases List.mem_append.1 hentry with hentry | hentry
    · exact hinside entry hentry
    · rw [List.mem_singleton.1 hentry]
      exact hnew
  have hlast : ((offset : Int), message) ∈ history ++ [((offset : Int), message)] := by simp
  obtain ⟨hnonneg, hmessages⟩ := hrecord.messages_ne_empty hlast hnew.1
  have hbound := hrecord.offset_le_bound (by omega) fun entry hentry => (hall entry hentry).2
  exact ⟨⟨_, hrecord, hall⟩, hmessages, hnonneg, hbound⟩

end Within

end FurthestFailures

section AnyLibrary

variable [RegexLibrary]

namespace Machine

/-- What the status, the stack and the failures of a machine say of each other, if it started from
the name. -/
structure Coherent (text : List Char) (name : String) (machine : Machine) : Prop where
  /-- A running machine has a frame on top that it has not visited, and at the bottom the reference
  to the name it started from. -/
  running : machine.status = .running →
    machine.frames.head? = some (.reference name 0) ∧
      ∃ item offset below, machine.stack = { item, offset } :: below
  /-- A machine accepts when a terminal has matched the rest of the text, and keeps no failure. -/
  accepted : machine.status = .accepted →
    (∃ matcher offset below,
      machine.stack = .terminal matcher offset (text.drop offset) :: below ∧
        matcher.matchEnd? text offset = some text.length) ∧
      machine.failures.offset = -1 ∧ machine.failures.messages = .empty
  /-- A machine that rejects has no frame left, and keeps failures inside the text. -/
  rejected : machine.status = .rejected →
    machine.stack = [] ∧ machine.failures.messages ≠ .empty ∧ 0 ≤ machine.failures.offset ∧
      machine.failures.offset ≤ text.length

section Bottom

variable {stack : List Frame} {frame : Frame}

/-- The walk after a success leaves a frame at the bottom as it is that has no part left. -/
theorem getLast?_settle (h : stack.getLast? = some frame) (hnone : frame.following? = none) :
    (settle stack).2.getLast? = some frame := by
  obtain ⟨above, rfl⟩ := List.getLast?_eq_some_iff.1 h
  have hbottom : settle [frame] = (none, [frame]) := by
    rw [settle_cons, hnone]
    rfl
  cases hwalk : (settle above).1 with
  | some next =>
    rw [settle_append_of_stops hwalk]
    exact List.getLast?_concat
  | none =>
    rw [settle_append_of_passes hwalk, hbottom]
    exact List.getLast?_concat

/-- Below a choice at which the walk after a failure stops the bottom is as it was, unless the
choice is the bottom. -/
theorem getLast?_retreat {choice : Frame} {below : List Frame}
    (h : stack.getLast? = some frame) (hnone : frame.following? = none)
    (walk : retreat stack = some (choice, below)) : below.getLast? = some frame := by
  obtain ⟨above, found, marker, rfl, -, -, hmarker, -⟩ := retreat_eq_some walk
  cases below with
  | nil =>
    rw [List.getLast?_concat] at h
    cases h
    rw [Frame.nextMarker?_of_following_none hnone] at hmarker
    cases hmarker
  | cons next rest =>
    rw [List.getLast?_append, List.getLast?_cons_cons, List.getLast?_cons, Option.some_or] at h
    rw [List.getLast?_cons]
    exact h

end Bottom

/-! ## Moves -/

/-- A machine on its way: its stack is tiled and leads from the start name to a frame that it has not
visited, and its failures lie inside the text. -/
structure OnItsWay (text : List Char) (name : String) (machine : Machine) : Prop where
  tiled : Tiled text machine.stack
  bottom : machine.stack.getLast? = some (.reference name 0)
  unvisited : ∃ item offset below, machine.stack = { item, offset } :: below
  within : machine.failures.Within text.length

section Call

variable {rules : RuleMap} {text : List Char} {name : String} {machine : Machine} {top : Frame}
  {below : List Frame}

/-- A frame that is pushed leaves the bottom of the stack. -/
theorem getLast?_push {stack : List Frame} {bottom : Frame} (h : stack.getLast? = some bottom)
    (new : Frame) : (new :: stack).getLast? = some bottom := by
  rw [List.getLast?_cons, h]
  rfl

/-- A terminal on top is not the bottom frame, which is a reference. -/
theorem getLast?_below {matcher : Matcher}
    (h : (top :: below).getLast? = some (.reference name 0))
    (terminal : top.item = .rule (.terminal matcher)) :
    below.getLast? = some (.reference name 0) := by
  cases below with
  | nil =>
    cases h
    cases terminal
  | cons next rest =>
    rw [List.getLast?_cons_cons] at h
    exact h

/-- A machine that has come to the end of the text accepts after a terminal on top. -/
theorem stack_of_accepts {matcher : Matcher} {item : Item} {offset stop : Nat} {value : List Char}
    {below' frames : List Frame} (stack : { item, offset } :: below' = top :: below)
    (terminal : top.item = .rule (.terminal matcher))
    (taken : value = (text.drop top.offset).take (stop - top.offset)) (hstop : stop = text.length)
    (walk : settle ({ top with value := some value } :: below) = (none, frames)) :
    ∃ below, frames = .terminal matcher top.offset (text.drop top.offset) :: below := by
  cases stack
  cases terminal
  have hvalue : value = text.drop offset := by
    rw [taken, hstop]
    apply List.take_of_length_le
    exact Nat.le_of_eq List.length_drop
  have hframes : .terminal matcher offset value :: (settle below).2 = frames :=
    congrArg Prod.snd walk
  rw [← hframes, hvalue]
  exact ⟨_, rfl⟩

/-- A move keeps the machine on its way, or ends the run coherently. -/
theorem Moves.coherent {outcome : Outcome} (h : Moves rules text machine outcome)
    (hrunning : machine.status = .running) (onItsWay : OnItsWay text name machine) :
    (outcome.machine.status = .running ∧ OnItsWay text name outcome.machine) ∨
      (outcome.machine.status ≠ .running ∧ Coherent text name outcome.machine) := by
  obtain ⟨tiled, bottom, ⟨item, offset, below', unvisited⟩, within⟩ := onItsWay
  have htiled := (h.tiled hrunning tiled).1
  cases h with
  | refers =>
    exact Or.inl ⟨hrunning, htiled, getLast?_push bottom _, ⟨_, _, _, rfl⟩, within⟩
  | takesUp =>
    exact Or.inl ⟨hrunning, htiled, getLast?_push bottom _, ⟨_, _, _, rfl⟩, within⟩
  | @goesOn top below matcher stop value next frames stack terminal ends taken walk =>
    rw [stack] at bottom
    have hframes := getLast?_settle (getLast?_push (getLast?_below bottom terminal)
      { top with value := some value }) rfl
    rw [walk] at hframes
    exact Or.inl ⟨hrunning, htiled, getLast?_push hframes _, ⟨_, _, _, rfl⟩, within⟩
  | @accepts top below matcher stop value frames stack terminal ends taken walk atEnd =>
    rw [stack] at tiled unvisited
    have hstop := (tiled.value terminal ends taken).1.symm.trans atEnd
    obtain ⟨rest, rfl⟩ := stack_of_accepts unvisited.symm terminal taken hstop walk
    rw [hstop] at ends
    exact Or.inr ⟨nofun, nofun, fun _ => ⟨⟨matcher, _, rest, rfl, ends⟩, rfl, rfl⟩, nofun⟩
  | leavesOver stack terminal ends taken walk left recorded =>
    rw [stack] at tiled
    obtain ⟨hstop, hinside, -⟩ := tiled.value terminal ends taken
    rw [← hstop] at hinside
    have hrecord := (within.record hinside endOfInputMessage).2
    rw [← recorded] at hrecord
    exact Or.inr ⟨nofun, nofun, nofun, fun _ => ⟨rfl, hrecord⟩⟩
  | @resumes top below matcher message choice rest branch stack terminal refused described walk =>
    have hbelow := getLast?_retreat bottom rfl walk
    rw [stack] at tiled
    have hrecord := (within.record tiled.inside_top message).1
    exact Or.inl ⟨hrunning, htiled, getLast?_push (getLast?_push hbelow _) _, ⟨_, _, _, rfl⟩,
      hrecord⟩
  | @givesUp top below matcher message failures stack terminal refused described walk recorded =>
    rw [stack] at tiled
    have hrecord := (within.record tiled.inside_top message).2
    rw [← recorded] at hrecord
    exact Or.inr ⟨nofun, nofun, nofun, fun _ => ⟨rfl, hrecord⟩⟩

/-- A machine on its way is coherent. -/
theorem OnItsWay.coherent (h : OnItsWay text name machine) (hrunning : machine.status = .running) :
    Coherent text name machine := by
  refine ⟨fun _ => ⟨?_, h.unvisited⟩, fun haccepted => ?_, fun hrejected => ?_⟩
  · rw [frames, List.head?_reverse]
    exact h.bottom
  · rw [hrunning] at haccepted
    cases haccepted
  · rw [hrunning] at hrejected
    cases hrejected

end Call

/-! ## Histories -/

/-- A machine that is on its way, or has finished coherently. -/
def Consistent (text : List Char) (name : String) (machine : Machine) : Prop :=
  (machine.status = .running ∧ OnItsWay text name machine) ∨
    (machine.status ≠ .running ∧ Coherent text name machine)

section History

variable {text : List Char} {name : String} {machine : Machine} {use : InUse}

theorem Consistent.coherent (h : Consistent text name machine) : Coherent text name machine := by
  rcases h with ⟨hrunning, hway⟩ | ⟨-, hcoherent⟩
  · exact hway.coherent hrunning
  · exact hcoherent

theorem consistent_start (text : List Char) (name : String) (traced : Bool) :
    Consistent text name (start name traced) := by
  refine Or.inl ⟨rfl, ?_, rfl, ⟨_, _, _, rfl⟩, .empty⟩
  apply Tiled.nil.push rfl (Nat.zero_le _)

/-- A move leaves the machine consistent. -/
theorem Consistent.moves {rules : RuleMap} {outcome : Outcome}
    (h : Consistent text name machine) (hrunning : machine.status = .running)
    (hmoves : Moves rules text machine outcome) : Consistent text name outcome.machine := by
  rcases h with ⟨-, hway⟩ | ⟨hfinished, -⟩
  · exact hmoves.coherent hrunning hway
  · exact absurd hrunning hfinished

/-- A machine that started from a name is consistent, whatever has happened to it. -/
theorem InUse.Reached.consistent (h : use.Reached text name) :
    Consistent text name use.machine := by
  apply h.invariant (consistent_start text name)
  intro rules _ hmachine
  apply advance_invariant _ _ rules hmachine
  · rintro machine hrunning (⟨-, hway⟩ | ⟨hfinished, -⟩)
    · exact Or.inl ⟨hrunning, hway.tiled, hway.bottom, hway.unvisited, hway.within⟩
    · exact absurd hrunning hfinished
  · intro rules machine outcome hrunning hconsistent hmoves
    exact hconsistent.moves hrunning hmoves

/-- Nothing that happens changes a machine that has finished. -/
theorem InUse.perform_of_finished (h : use.machine.status ≠ .running) (acts : List Act) :
    (use.perform text acts).machine = use.machine := by
  apply InUse.perform_invariant (motive := fun machine => machine = use.machine) _ acts rfl
  rintro rules _ rfl
  rw [advance_finished rules text h, refuse]

/-- In all states of a machine, whatever calls, runs and edits of its rules have led there, the
status, the stack and the failures agree; and once the machine has finished nothing changes it. -/
theorem coherent_of_reached (h : use.Reached text name) :
    Coherent text name use.machine ∧
      (use.machine.status ≠ .running →
        ∀ acts, (use.perform text acts).machine = use.machine) :=
  ⟨h.consistent.coherent, fun hfinished => InUse.perform_of_finished hfinished⟩

end History

end Machine

end AnyLibrary

namespace Machine

theorem coherent_of_reached_sample :
    ((InUse.start .sample "Gap").perform ['b'] Act.sample).Reached ['b'] "Gap" ∧
      ((InUse.start .sample "Gap").perform ['b'] Act.sample).machine.status = .rejected ∧
      ((InUse.start .sample "Gap").perform ['b'] Act.sample).machine.failures.messages ≠ .empty ∧
      (((InUse.start .sample "Gap").perform ['b'] Act.sample).perform ['b']
        [.edit .empty, .advance]).machine =
        ((InUse.start .sample "Gap").perform ['b'] Act.sample).machine :=
  have hreached : ((InUse.start .sample "Gap").perform ['b'] Act.sample).Reached ['b'] "Gap" :=
    ⟨.sample, false, Act.sample, rfl⟩
  have hrejected : ((InUse.start .sample "Gap").perform ['b'] Act.sample).machine.status =
    .rejected := by decide
  have ⟨hcoherent, hstays⟩ := coherent_of_reached hreached
  have hfinished := by rw [hrejected]; nofun
  ⟨hreached, hrejected, (hcoherent.rejected hrejected).2.1, hstays hfinished _⟩

end Machine

end PegMachine
