import PegMachine.Matcher.Bounds
import PegMachine.Proofs.Expressions
import PegMachine.Proofs.Lifetimes
import PegMachine.Regex.Backtracking
import PegMachine.Semantics.InUse

/-!
# Matched values tile the text

Whatever becomes of the rules on the way, the values of the frames below a frame, put together from
the bottom up, are the text up to the offset of that frame (`Machine.matched_of_reached`). So the
frames of a stack never go back in the text and lie inside it, and the values of an accepting
machine are the whole text.

The walks keep offsets and values, so what counts is the new frame of a move: it stands where the
values below it end. A frame that hands over has no value, since only terminals have one; a choice
that is resumed has none either, and has lost all that stood above it.
-/

namespace PegMachine

section AnyLibrary

variable [RegexLibrary]

namespace Machine

/-- The text that frames have matched, in the order of the frames. -/
def matched (frames : List Frame) : List Char := (frames.filterMap Frame.value).flatten

/-- Of a stack, top first: below each frame that text is matched that comes before its offset, and
only terminals have values. -/
inductive Tiled (text : List Char) : List Frame → Prop where
  | nil : Tiled text []
  | cons {top below} (reached : matched below.reverse = text.take top.offset)
    (inside : top.offset ≤ text.length)
    (valued : top.value ≠ none → ∃ matcher, top.item = .rule (.terminal matcher))
    (rest : Tiled text below) : Tiled text (top :: below)

section Matched

theorem matched_append (a b : List Frame) : matched (a ++ b) = matched a ++ matched b := by
  simp [matched]

/-- What a stack has matched, with the value of its top at the end. -/
theorem matched_reverse_cons (top : Frame) (below : List Frame) :
    matched (top :: below).reverse = matched below.reverse ++ top.value.getD [] := by
  rw [List.reverse_cons, matched_append]
  cases hvalue : top.value with
  | none => simp [matched, hvalue]
  | some value => simp [matched, hvalue]

/-- Stacks with the same values have matched the same text. -/
theorem matched_congr {a b : List Frame} (h : a.map Frame.value = b.map Frame.value) :
    matched a.reverse = matched b.reverse := by
  have hvalues : ∀ stack : List Frame,
      matched stack.reverse = ((stack.map Frame.value).reverse.filterMap id).flatten := by
    intro stack
    rw [← List.map_reverse, List.filterMap_map]
    rfl
  rw [hvalues, hvalues, h]

/-- The walk after a success keeps the text that is matched. -/
theorem matched_settle (stack : List Frame) :
    matched (settle stack).2.reverse = matched stack.reverse :=
  matched_congr (settle_map Frame.value (fun _ _ => rfl) (fun _ => rfl) stack)

end Matched

/-! ## Stacks -/

namespace Tiled

variable {text : List Char} {stack other above below : List Frame} {top : Frame}

/-- A part of a stack from the bottom up is tiled. -/
theorem of_append (h : Tiled text (above ++ below)) : Tiled text below := by
  induction above with
  | nil => exact h
  | cons top above ih =>
    cases h with
    | cons _ _ _ rest => exact ih rest

/-- Stacks with the same items, offsets and values are tiled alike. -/
theorem congr (h : Tiled text stack)
    (hsame : other.map (fun f => (f.item, f.offset, f.value)) =
      stack.map fun f => (f.item, f.offset, f.value)) :
    Tiled text other := by
  induction h generalizing other with
  | nil =>
    obtain rfl := List.map_eq_nil_iff.1 hsame
    exact .nil
  | @cons top below reached inside valued _ ih =>
    obtain ⟨top', below', rfl, htop, hbelow⟩ := List.map_eq_cons_iff.1 hsame
    obtain ⟨hitem, hshape⟩ := Prod.mk.inj htop
    obtain ⟨hoffset, hvalue⟩ := Prod.mk.inj hshape
    have hvalues : below'.map Frame.value = below.map Frame.value := by
      have hmap := congrArg (List.map fun shape => shape.2.2) hbelow
      rwa [List.map_map, List.map_map] at hmap
    rw [← matched_congr hvalues, ← hoffset] at reached
    rw [← hoffset] at inside
    rw [← hvalue, ← hitem] at valued
    exact .cons reached inside valued (ih hbelow)

/-- The walk after a success keeps a stack tiled. -/
theorem settle (h : Tiled text stack) : Tiled text (settle stack).2 :=
  h.congr (settle_map _ (fun _ _ => rfl) (fun _ => rfl) stack)

/-- A new frame stands where the text matched below it ends. -/
theorem push {offset : Nat} (h : Tiled text stack)
    (reached : matched stack.reverse = text.take offset) (inside : offset ≤ text.length)
    (item : Item) : Tiled text ({ item, offset } :: stack) :=
  .cons reached inside (fun hvalue => absurd rfl hvalue) h

/-- A frame that is no terminal has matched nothing: up to it that text is matched that comes before
its offset, and what it hands over to stands there. -/
theorem handsOver (h : Tiled text (top :: below))
    (nonterminal : ∀ matcher, top.item ≠ .rule (.terminal matcher)) (item : Item) :
    Tiled text ({ item, offset := top.offset } :: top :: below) := by
  have htop := h
  cases h with
  | cons reached inside valued _ =>
    apply htop.push _ inside
    rw [matched_reverse_cons]
    cases hvalue : top.value with
    | none => rw [Option.getD_none, List.append_nil, reached]
    | some value =>
      obtain ⟨matcher, hitem⟩ := valued (by rw [hvalue]; exact Option.some_ne_none value)
      exact absurd hitem (nonterminal matcher)

/-- The top of a stack stands inside the text. -/
theorem inside_top (h : Tiled text (top :: below)) : top.offset ≤ text.length := by
  cases h with
  | cons _ inside => exact inside

/-- No frame stands further on in the text than one above it. -/
theorem offset_le (h : Tiled text (top :: below)) : ∀ f ∈ below, f.offset ≤ top.offset := by
  intro f hf
  cases h with
  | cons reached inside _ rest =>
    obtain ⟨above, lower, rfl⟩ := List.append_of_mem hf
    cases rest.of_append with
    | cons reached' inside' =>
      have htop := congrArg List.length reached
      have hlower := congrArg List.length reached'
      rw [List.length_take_of_le inside] at htop
      rw [List.length_take_of_le inside'] at hlower
      simp only [List.reverse_append, List.reverse_cons, matched_append, List.length_append]
        at htop
      omega

/-- From the top down offsets never grow. -/
theorem pairwise_offset (h : Tiled text stack) :
    stack.Pairwise fun upper lower => lower.offset ≤ upper.offset := by
  induction h with
  | nil => exact .nil
  | cons reached inside valued rest ih =>
    exact .cons (Tiled.cons reached inside valued rest).offset_le ih

/-- A terminal that matches goes on with the text where the frames below it have left it. -/
theorem value {matcher : Matcher} {stop : Nat} {value : List Char}
    (h : Tiled text (top :: below)) (terminal : top.item = .rule (.terminal matcher))
    (ends : matcher.matchEnd? text top.offset = some stop)
    (taken : value = (text.drop top.offset).take (stop - top.offset)) :
    top.offset + value.length = stop ∧ stop ≤ text.length ∧
      Tiled text ({ top with value := some value } :: below) ∧
      matched ({ top with value := some value } :: below).reverse = text.take stop := by
  cases h with
  | cons reached inside _ rest =>
    obtain ⟨hstart, hstop⟩ := Matcher.matchEnd?_bounds inside ends
    have hlength : top.offset + value.length = stop := by
      rw [taken, List.length_take, List.length_drop]
      omega
    refine ⟨hlength, hstop, .cons reached inside (fun _ => ⟨matcher, terminal⟩) rest, ?_⟩
    calc matched ({ top with value := some value } :: below).reverse
        = text.take top.offset ++ (text.drop top.offset).take (stop - top.offset) := by
          rw [matched_reverse_cons, reached, taken]
          rfl
      _ = text.take (top.offset + (stop - top.offset)) := List.take_add.symm
      _ = text.take stop := by rw [Nat.add_sub_cancel' hstart]

end Tiled

/-! ## Moves -/

section Call

variable {rules : RuleMap} {text : List Char} {machine : Machine}

/-- A move leaves the stack tiled, and has matched the whole text if it accepts. -/
theorem Moves.tiled {outcome : Outcome} (h : Moves rules text machine outcome)
    (hrunning : machine.status = .running) (tiled : Tiled text machine.stack) :
    Tiled text outcome.machine.stack ∧
      (outcome.machine.status = .accepted → matched outcome.machine.frames = text) := by
  have hgoesOn : machine.status ≠ .accepted := by
    rw [hrunning]
    nofun
  -- the moves that go on push one frame: what counts is that the values below it end where it stands
  cases h with
  | refers stack named =>
    refine ⟨?_, fun haccepted => absurd haccepted hgoesOn⟩
    rw [stack] at tiled
    show Tiled text ({ item := _, offset := _ } :: machine.stack)
    rw [stack]
    apply tiled.handsOver
    intro matcher hterminal
    rw [named] at hterminal
    cases hterminal
  | takesUp stack composite hand =>
    refine ⟨?_, fun haccepted => absurd haccepted hgoesOn⟩
    rw [stack] at tiled
    show Tiled text ({ item := _, offset := _ } :: machine.stack)
    rw [stack]
    apply tiled.handsOver
    intro matcher hterminal
    rw [Frame.current?, Frame.listed?, hterminal] at hand
    cases hand
  | goesOn stack terminal ends taken walk =>
    refine ⟨?_, fun haccepted => absurd haccepted hgoesOn⟩
    rw [stack] at tiled
    obtain ⟨hstop, hinside, htop, hmatched⟩ := tiled.value terminal ends taken
    have hframes := htop.settle
    rw [← matched_settle] at hmatched
    rw [walk] at hframes hmatched
    rw [hstop]
    exact hframes.push hmatched hinside _
  | accepts stack terminal ends taken walk atEnd =>
    rw [stack] at tiled
    obtain ⟨hstop, -, htop, hmatched⟩ := tiled.value terminal ends taken
    have hframes := htop.settle
    rw [← matched_settle] at hmatched
    rw [walk] at hframes hmatched
    refine ⟨hframes, fun _ => ?_⟩
    rw [← hstop, atEnd, List.take_length] at hmatched
    exact hmatched
  | leavesOver =>
    refine ⟨.nil, fun haccepted => ?_⟩
    cases haccepted
  | @resumes top below matcher message choice rest branch stack terminal refused described walk =>
    refine ⟨?_, fun haccepted => absurd haccepted hgoesOn⟩
    obtain ⟨above, found, marker, hsplit, hchoice, -, -, rfl⟩ := retreat_eq_some walk
    rw [hsplit] at tiled
    have hmoved : Tiled text ({ found with place := marker + 1 } :: rest) :=
      tiled.of_append.congr rfl
    apply hmoved.handsOver
    intro matcher hterminal
    rw [Frame.isChoice, hterminal] at hchoice
    cases hchoice
  | givesUp =>
    refine ⟨.nil, fun haccepted => ?_⟩
    cases haccepted

end Call

/-! ## Histories -/

/-- What a machine owes to the text, whatever its rules have been. -/
structure Tiling (text : List Char) (machine : Machine) : Prop where
  stack : Tiled text machine.stack
  whole : machine.status = .accepted → matched machine.frames = text

section History

variable {text : List Char} {name : String} {machine : Machine} {use : InUse}

/-- A machine that started from a name tiles the text, whatever has happened to it. -/
theorem InUse.Reached.tiling (h : use.Reached text name) : Tiling text use.machine := by
  apply h.invariant
  · intro traced
    refine ⟨?_, nofun⟩
    apply Tiled.nil.push rfl (Nat.zero_le _)
  · intro rules _ hmachine
    apply advance_invariant _ _ rules hmachine
    · intro machine _ htiling
      exact ⟨htiling.stack, htiling.whole⟩
    · intro rules machine outcome hrunning htiling hmoves
      obtain ⟨hstack, hwhole⟩ := hmoves.tiled hrunning htiling.stack
      exact ⟨hstack, hwhole⟩

/-- In all states of a machine, whatever calls, runs and edits of its rules have led there, the
values below each frame are together the text up to its offset; the frames never go back in the text
and lie inside it; and if the machine has accepted, all values together are the text. -/
theorem matched_of_reached (h : use.Reached text name) :
    (∀ height frame, use.machine.frames[height]? = some frame →
      matched (use.machine.frames.take height) = text.take frame.offset ∧
        frame.offset ≤ text.length) ∧
      use.machine.frames.Pairwise (fun lower upper => lower.offset ≤ upper.offset) ∧
      (use.machine.status = .accepted → matched use.machine.frames = text) := by
  refine ⟨fun height frame hframe => ?_, ?_, h.tiling.whole⟩
  · obtain ⟨above, hstack⟩ := stack_of_getElem? hframe
    have htiled := h.tiling.stack
    rw [hstack] at htiled
    cases htiled.of_append with
    | cons reached inside =>
      rw [List.reverse_reverse] at reached
      exact ⟨reached, inside⟩
  · exact List.pairwise_reverse.2 h.tiling.stack.pairwise_offset

/-- A run that is refused for a name that is not defined, and comes to an end once it is. -/
def Act.sample : List Act :=
  [.run 9, .edit (RuleMap.sample.define "Missing" (.rule (.terminal (.literal "a")))), .run 9]

end History

end Machine

end AnyLibrary

namespace Machine

theorem matched_of_reached_sample :
    ((InUse.start .sample "Gap").perform ['a'] Act.sample).Reached ['a'] "Gap" ∧
      ((InUse.start .sample "Gap").perform ['a'] Act.sample).machine.status = .accepted ∧
      matched ((InUse.start .sample "Gap").perform ['a'] Act.sample).machine.frames = ['a'] :=
  have hreached : ((InUse.start .sample "Gap").perform ['a'] Act.sample).Reached ['a'] "Gap" :=
    ⟨.sample, false, Act.sample, rfl⟩
  have haccepted : ((InUse.start .sample "Gap").perform ['a'] Act.sample).machine.status =
    .accepted := by decide
  ⟨hreached, haccepted, (matched_of_reached hreached).2.2 haccepted⟩

end Machine

end PegMachine
