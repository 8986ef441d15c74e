import PegMachine.Proofs.Coherence
import PegMachine.Regex.Backtracking
import PegMachine.Semantics.Resolution

/-!
# What is below does not matter

Two machines that are about to evaluate the same item at the same offset do so in lockstep, whatever
stands below it on their stacks and wherever they started from: until the evaluation is resolved, the
frames from that one up are the same, the same mismatches are met, and nothing below is touched; and
the evaluation is resolved by the same call in the same way (`Machine.lockstep_of_reached`).

Both walks scan the stack from its top. As long as the evaluation is not resolved they stop before
they come below its frame, so a transition is one of the frames above alone (`transition_local`). By
induction this holds of rows of calls, up to the one that resolves the evaluation or is refused
(`leads_or_ends`), and nothing is left to say of two machines but that the frames to begin with are
the same. The call that resolves an evaluation leaves the rest to what stands below it
(`handsBack_of_resolution`).
-/

namespace PegMachine

section AnyLibrary

variable [RegexLibrary]

namespace Machine

/-! ## One transition -/

/-- The transition is refused for the fault, whatever stands below the frames. -/
def RefusedOn (rules : RuleMap) (text : List Char) (upper : List Frame) (fault : Fault) : Prop :=
  ∀ (machine : Machine) below, machine.stack = upper ++ below →
    machine.transition rules text = machine.refuse fault

/-- The transition turns the frames into others and meets the mismatches, whatever stands below the
frames. -/
def TurnsInto (rules : RuleMap) (text : List Char) (upper upper' : List Frame)
    (new : List Mismatch) : Prop :=
  ∀ (machine : Machine) below, machine.stack = upper ++ below →
    ∃ events, machine.transition rules text =
        { machine := { machine with stack := upper' ++ below
                                    failures := machine.failures.recordAll new }
          events } ∧
      events.filterMap Event.mismatch? = new

section Transition

variable {rules : RuleMap} {text : List Char} {upper : List Frame} {top : Frame} {rest : List Frame}
  {matcher : Matcher}

/-- A transition that pushes a frame meets no mismatch. -/
theorem turnsInto_of_push {item : Item} {offset : Nat}
    (h : ∀ (machine : Machine) below, machine.stack = upper ++ below →
      machine.transition rules text = machine.push item offset) :
    TurnsInto rules text upper ({ item, offset } :: upper) [] := by
  intro machine below hstack
  refine ⟨[.pushed item offset machine.stack.length], ?_, rfl⟩
  rw [h machine below hstack, push, hstack]
  rfl

/-- A terminal that matches goes on with a sequence that is not below the frames. -/
theorem turnsInto_of_match {stop : Nat} (hterminal : top.item = .rule (.terminal matcher))
    (ends : matcher.matchEnd? text top.offset = some stop)
    (h : resolution? text (top :: rest) = none) :
    ∃ upper', upper' ≠ [] ∧ TurnsInto rules text (top :: rest) upper' [] := by
  generalize hvalue : (text.drop top.offset).take (stop - top.offset) = value
  cases hwalk : (settle ({ top with value := some value } :: rest)).1 with
  | none =>
    -- the walk passes all frames, and so would resolve the evaluation
    simp only [resolution?, hterminal, ends, hvalue] at h
    simp only [hterminal] at hwalk
    simp only [hwalk] at h
    cases h
  | some next =>
    refine ⟨{ item := next, offset := top.offset + value.length } ::
      (settle ({ top with value := some value } :: rest)).2, by simp, ?_⟩
    intro machine below hstack
    have hbelow : settle ({ top with value := some value } :: rest ++ below) = _ :=
      settle_append_of_stops hwalk
    rw [List.cons_append] at hstack hbelow
    have htaken : machine.transition rules text = _ := transition_of_match hstack hterminal ends
    simp only [hvalue, succeed, goOn, hbelow] at htaken
    exact ⟨_, htaken, rfl⟩

/-- A terminal that does not match goes back to a choice that is not below the frames. -/
theorem turnsInto_of_mismatch {message : String}
    (hterminal : top.item = .rule (.terminal matcher))
    (refused : matcher.matchEnd? text top.offset = none)
    (described : matcher.failureMessage = .ok message)
    (h : resolution? text (top :: rest) = none) :
    ∃ upper', upper' ≠ [] ∧
      TurnsInto rules text (top :: rest) upper' [⟨top.offset, message⟩] := by
  cases hwalk : retreat (top :: rest) with
  | none => simp [resolution?, hterminal, refused, described, hwalk] at h
  | some found =>
    obtain ⟨choice, others⟩ := found
    have hbelow : ∀ below, retreat (top :: rest ++ below) = some (choice, others ++ below) :=
      fun _ => retreat_append_of_stops hwalk
    obtain ⟨branch, hbranch⟩ := following?_of_retreat hwalk
    refine ⟨{ item := .rule branch, offset := choice.offset } ::
      { choice with place := choice.place + 1 } :: others, by simp, ?_⟩
    intro machine below hstack
    have htaken : machine.transition rules text = _ :=
      transition_of_mismatch hstack hterminal refused described
    have hretreat : retreat ({ machine with
        failures := machine.failures.record top.offset message } : Machine).stack = _ :=
      (congrArg retreat hstack).trans (hbelow below)
    rw [fail, backtrack_of_retreat hretreat hbranch] at htaken
    exact ⟨_, htaken, rfl⟩

/-- A reference hands over to what it names. -/
theorem turnsInto_of_reference {name : String} {item : Item}
    (hitem : top.item = .rule (.ref name)) (hfound : rules.get? name = some item) :
    TurnsInto rules text (top :: rest) ({ item, offset := top.offset } :: top :: rest) [] := by
  apply turnsInto_of_push
  intro machine below hstack
  exact transition_of_defined hstack hitem hfound

/-- A sequence or choice hands over to its part in hand, and is stuck without one. -/
theorem local_of_composite {r : Rule} (hitem : top.item = .rule r)
    (hcomposite : r.isComposite = true) :
    (∃ fault, RefusedOn rules text (top :: rest) fault) ∨
      ∃ upper' new, upper' ≠ [] ∧ TurnsInto rules text (top :: rest) upper' new := by
  cases hhand : top.current? with
  | none =>
    refine Or.inl ⟨.stuck, fun machine below hstack => ?_⟩
    exact transition_of_no_hand hstack hitem hcomposite hhand
  | some item =>
    refine Or.inr ⟨{ item, offset := top.offset } :: top :: rest, [], List.cons_ne_nil _ _, ?_⟩
    apply turnsInto_of_push
    intro machine below hstack
    exact transition_of_hand hstack hitem hcomposite hhand

/-- A transition that does not resolve an evaluation is one of its frames alone. -/
theorem transition_local (rules : RuleMap) (hupper : upper ≠ [])
    (h : resolution? text upper = none) :
    (∃ fault, RefusedOn rules text upper fault) ∨
      ∃ upper' new, upper' ≠ [] ∧ TurnsInto rules text upper upper' new := by
  obtain ⟨top, rest, rfl⟩ := List.exists_cons_of_ne_nil hupper
  cases hitem : top.item with
  | separator =>
    refine Or.inl ⟨.notARule top.item, fun machine below hstack => ?_⟩
    exact transition_of_noRule hstack (by rw [hitem]; rfl)
  | atom value =>
    refine Or.inl ⟨.notARule top.item, fun machine below hstack => ?_⟩
    exact transition_of_noRule hstack (by rw [hitem]; rfl)
  | rule r =>
    cases r with
    | ref name =>
      cases hfound : rules.get? name with
      | none =>
        refine Or.inl ⟨.undefined ⟨name⟩, fun machine below hstack => ?_⟩
        exact transition_of_undefined hstack hitem hfound
      | some item =>
        exact Or.inr ⟨_, [], List.cons_ne_nil _ _, turnsInto_of_reference hitem hfound⟩
    | terminal matcher =>
      cases hends : matcher.matchEnd? text top.offset with
      | some stop =>
        obtain ⟨upper', hupper', hturns⟩ := turnsInto_of_match hitem hends h
        exact Or.inr ⟨upper', [], hupper', hturns⟩
      | none =>
        cases hdescribed : matcher.failureMessage with
        | error error =>
          refine Or.inl ⟨.indescribable error, fun machine below hstack => ?_⟩
          exact transition_of_indescribable hstack hitem hends hdescribed
        | ok message =>
          obtain ⟨upper', hupper', hturns⟩ := turnsInto_of_mismatch hitem hends hdescribed h
          exact Or.inr ⟨upper', _, hupper', hturns⟩
    | seq first others => exact local_of_composite hitem rfl
    | choice first second others => exact local_of_composite hitem rfl

end Transition

/-! ## What resolves an evaluation -/

/-- What a transition does to a machine if it resolves an evaluation above the frames `below`. A
success goes on with these, and leaves nothing above them at which a walk could stop; a failure goes
back from them, and all that was above them is gone. -/
def HandsBack (rules : RuleMap) (text : List Char) (machine : Machine) (below : List Frame) :
    Resolution → Prop
  | .success stop => ∃ closed value offset, (∀ f ∈ closed, f.Closed) ∧
      machine.transition rules text =
        .tell (.matched (some value) offset stop)
          ({ machine with stack := closed ++ below }.goOn text stop)
  | .failure => ∃ offset message,
      machine.transition rules text = { machine with stack := below }.fail offset message

section Resolution

variable {rules : RuleMap} {text : List Char} {upper below : List Frame} {machine : Machine}

/-- An evaluation is resolved by a terminal on top that matches where no sequence among the frames
has an element left, or that does not match where no choice among them has a branch left. -/
theorem resolution?_eq_some {resolution : Resolution}
    (h : resolution? text upper = some resolution) :
    ∃ top rest matcher, upper = top :: rest ∧ top.item = .rule (.terminal matcher) ∧
      ((∃ stop value frames, matcher.matchEnd? text top.offset = some stop ∧
          value = (text.drop top.offset).take (stop - top.offset) ∧
          settle ({ top with value := some value } :: rest) = (none, frames) ∧
          resolution = .success (top.offset + value.length)) ∨
        ∃ message, matcher.matchEnd? text top.offset = none ∧
          matcher.failureMessage = .ok message ∧ retreat upper = none ∧
          resolution = .failure) := by
  unfold resolution? at h
  split at h
  · cases h
  · next top rest =>
    split at h
    · next matcher hterminal =>
      refine ⟨top, rest, matcher, rfl, hterminal, ?_⟩
      split at h
      · next stop ends =>
        left
        dsimp only at h
        split at h
        · cases h
        · next hwalk =>
          cases h
          exact ⟨stop, _, _, ends, rfl, Prod.ext hwalk rfl, rfl⟩
      · next refused =>
        right
        split at h
        · next message described hwalk =>
          cases h
          exact ⟨message, refused, described, hwalk, rfl⟩
        · cases h
    · cases h

/-- A transition that resolves an evaluation leaves the rest to what stands below it. -/
theorem handsBack_of_resolution {resolution : Resolution}
    (h : resolution? text upper = some resolution) (hstack : machine.stack = upper ++ below) :
    machine.HandsBack rules text below resolution := by
  obtain ⟨top, rest, matcher, rfl, hterminal, ⟨matched, value, frames, ends, htaken, hwalk, rfl⟩ |
    ⟨message, refused, described, hwalk, rfl⟩⟩ := resolution?_eq_some h
  · have hclosed := closed_of_settle_none (congrArg Prod.fst hwalk)
    rw [hwalk] at hclosed
    refine ⟨frames, value, top.offset, hclosed, ?_⟩
    have hpasses : settle ({ top with value := some value } :: rest ++ below) = _ :=
      settle_append_of_passes (congrArg Prod.fst hwalk)
    rw [hwalk, ← settle_append hclosed] at hpasses
    rw [List.cons_append] at hstack hpasses
    rw [transition_of_match hstack hterminal ends, ← htaken]
    simp only [succeed, goOn, hpasses]
  · refine ⟨top.offset, message, ?_⟩
    have hpasses : retreat (top :: rest ++ below) = _ := retreat_append_of_passes hwalk
    rw [← hstack] at hpasses
    rw [transition_of_mismatch hstack hterminal refused described]
    simp only [fail, backtrack, hpasses]

end Resolution

/-! ## Rows of calls -/

/-- The machine is running and has the frames `upper` on its stack above the frames `below`. -/
def StandsOn (machine : Machine) (upper below : List Frame) : Prop :=
  machine.status = .running ∧ machine.stack = upper ++ below

/-- A number of calls turn the frames into others and meet the mismatches, whatever stands below
the frames, and do not resolve the evaluation of the lowest of them. -/
def Leads (rules : RuleMap) (text : List Char) (upper : List Frame) (calls : Nat)
    (upper' : List Frame) (log : List Mismatch) : Prop :=
  ∀ (machine : Machine) below, machine.StandsOn upper below →
    machine.Unresolved rules text below.length calls ∧
      machine.after rules text calls =
        { machine with stack := upper' ++ below, failures := machine.failures.recordAll log,
                       steps := machine.steps + calls } ∧
      machine.told rules text calls = log

section Calls

variable {rules : RuleMap} {text : List Char} {upper upper' upper'' below : List Frame}
  {machine : Machine} {calls : Nat} {log new : List Mismatch}

/-- The frames from a height up and those below it. -/
theorem frames_of_stack (hstack : machine.stack = upper ++ below) :
    machine.frames.drop below.length = upper.reverse ∧
      machine.frames.take below.length = below.reverse := by
  rw [frames, hstack, List.reverse_append]
  exact ⟨List.drop_left' List.length_reverse, List.take_left' List.length_reverse⟩

/-- How a call resolves the evaluation of a frame depends on that frame and those above it. -/
theorem resolves?_of_stack (hstack : machine.stack = upper ++ below) :
    machine.resolves? text below.length = resolution? text upper := by
  rw [resolves?, (frames_of_stack hstack).1, List.reverse_reverse]

/-- One more call that neither resolves the evaluation nor is refused. -/
theorem Unresolved.succ {height : Nat} (h : machine.Unresolved rules text height calls)
    (hresolves : (machine.after rules text calls).resolves? text height = none)
    (hfault : ((machine.after rules text calls).advance rules text).fault? = none) :
    machine.Unresolved rules text height (calls + 1) := by
  intro made hmade
  rcases Nat.lt_succ_iff_lt_or_eq.1 hmade with hearlier | rfl
  · exact h made hearlier
  · exact ⟨hresolves, hfault⟩

namespace Leads

theorem zero (rules : RuleMap) (text : List Char) (upper : List Frame) :
    Leads rules text upper 0 upper [] := by
  rintro machine below ⟨-, hstack⟩
  refine ⟨nofun, ?_, rfl⟩
  rw [← hstack]
  rfl

/-- The frames are on top still. -/
theorem standsOn (h : Leads rules text upper calls upper' log)
    (hmachine : machine.StandsOn upper below) :
    (machine.after rules text calls).StandsOn upper' below := by
  obtain ⟨-, hafter, -⟩ := h machine below hmachine
  rw [hafter]
  exact ⟨hmachine.1, rfl⟩

/-- One more call. -/
theorem succ (h : Leads rules text upper calls upper' log)
    (hresolution : resolution? text upper' = none)
    (hturns : TurnsInto rules text upper' upper'' new) :
    Leads rules text upper (calls + 1) upper'' (log ++ new) := by
  intro machine below hmachine
  obtain ⟨hunresolved, hafter, htold⟩ := h machine below hmachine
  obtain ⟨hrunning, hstack⟩ := h.standsOn hmachine
  obtain ⟨events, htransition, hnew⟩ := hturns
    { machine.after rules text calls with steps := (machine.after rules text calls).steps + 1 } below
    hstack
  have hadvance := advance_of_running rules text hrunning
  rw [htransition] at hadvance
  have hresolves : (machine.after rules text calls).resolves? text below.length = none := by
    rw [resolves?_of_stack hstack]
    exact hresolution
  refine ⟨hunresolved.succ hresolves ?_, ?_, ?_⟩
  · rw [hadvance]
  · rw [after_succ, hadvance, hafter, FurthestFailures.recordAll_append]
    rfl
  · rw [told_succ, htold, hadvance]
    exact congrArg (log ++ ·) hnew

/-- The evaluation of the lowest of the frames is resolved by the next call. -/
theorem resolves (h : Leads rules text upper calls upper' log) {resolution : Resolution}
    (hresolution : resolution? text upper' = some resolution)
    (hmachine : machine.StandsOn upper below) :
    machine.ResolvesAfter rules text below.length calls resolution := by
  obtain ⟨hunresolved, -⟩ := h machine below hmachine
  refine ⟨hunresolved, ?_⟩
  rw [resolves?_of_stack (h.standsOn hmachine).2]
  exact hresolution

/-- The next call is refused. -/
theorem faults (h : Leads rules text upper calls upper' log) {fault : Fault}
    (hrefused : RefusedOn rules text upper' fault) (hmachine : machine.StandsOn upper below) :
    machine.FaultsAfter rules text below.length calls fault := by
  obtain ⟨hunresolved, -⟩ := h machine below hmachine
  obtain ⟨hrunning, hstack⟩ := h.standsOn hmachine
  refine ⟨hunresolved, ?_⟩
  have herror := hrefused { machine.after rules text calls with
    steps := (machine.after rules text calls).steps + 1 } below hstack
  rw [advance_of_running rules text hrunning, herror]
  rfl

end Leads

/-- What becomes of frames in a number of calls is the same whatever stands below them: they are
turned into others, or before that the evaluation of the lowest of them is resolved, or a call is
refused. -/
theorem leads_or_ends (hupper : upper ≠ []) (calls : Nat) :
    (∃ upper' log, upper' ≠ [] ∧ Leads rules text upper calls upper' log) ∨
      ∃ made < calls,
        (∃ resolution, ∀ machine below, StandsOn machine upper below →
          machine.ResolvesAfter rules text below.length made resolution) ∨
        ∃ fault, ∀ machine below, StandsOn machine upper below →
          machine.FaultsAfter rules text below.length made fault := by
  induction calls with
  | zero => exact Or.inl ⟨upper, [], hupper, .zero rules text upper⟩
  | succ calls ih =>
    -- an end stays where it was found; else the frames that are there now decide the next call
    rcases ih with ⟨upper', log, hupper', hleads⟩ | ⟨made, hmade, hends⟩
    · cases hresolution : resolution? text upper' with
      | some resolution =>
        exact Or.inr ⟨calls, Nat.lt_succ_self calls,
          Or.inl ⟨resolution, fun _ _ => hleads.resolves hresolution⟩⟩
      | none =>
        rcases transition_local rules hupper' hresolution with
          ⟨fault, hrefused⟩ | ⟨upper'', new, hupper'', hturns⟩
        · exact Or.inr ⟨calls, Nat.lt_succ_self calls,
            Or.inr ⟨fault, fun _ _ => hleads.faults hrefused⟩⟩
        · exact Or.inl ⟨upper'', log ++ new, hupper'', hleads.succ hresolution hturns⟩
    · exact Or.inr ⟨made, Nat.lt_succ_of_lt hmade, hends⟩

end Calls

/-! ## Two machines -/

/-- Two machines evaluate the frames at the given heights of their stacks in lockstep. -/
structure Lockstep (rules : RuleMap) (text : List Char) (machine other : Machine)
    (height height' : Nat) : Prop where
  /-- Both evaluations are resolved by the same call, counted from here, and in the same way; or both
  machines are refused the same call, for the same fault; or neither ever comes to an end. -/
  ends :
    (∃ calls resolution, machine.ResolvesAfter rules text height calls resolution ∧
      other.ResolvesAfter rules text height' calls resolution) ∨
    (∃ calls fault, machine.FaultsAfter rules text height calls fault ∧
      other.FaultsAfter rules text height' calls fault) ∨
    ∀ calls, machine.Unresolved rules text height calls ∧
      other.Unresolved rules text height' calls
  /-- Until then the frames from there up are the same. -/
  frames : ∀ calls, machine.Unresolved rules text height calls →
    (machine.after rules text calls).frames.drop height =
      (other.after rules text calls).frames.drop height'
  /-- The same mismatches are met, and they are what is recorded. -/
  failures : ∀ calls, machine.Unresolved rules text height calls →
    machine.told rules text calls = other.told rules text calls ∧
      (machine.after rules text calls).failures =
        machine.failures.recordAll (machine.told rules text calls) ∧
      (other.after rules text calls).failures =
        other.failures.recordAll (other.told rules text calls)
  /-- The frames below stay as they are. -/
  below : ∀ calls, machine.Unresolved rules text height calls →
    (machine.after rules text calls).frames.take height = machine.frames.take height ∧
      (other.after rules text calls).frames.take height' = other.frames.take height'
  /-- The call that resolves the evaluations leaves the rest to the frames below. -/
  handsBack : ∀ calls resolution, machine.ResolvesAfter rules text height calls resolution →
    (machine.after rules text calls).HandsBack rules text (machine.frames.take height).reverse
        resolution ∧
      (other.after rules text calls).HandsBack rules text (other.frames.take height').reverse
        resolution

section Lockstep

variable {rules : RuleMap} {text : List Char} {upper below below' : List Frame}
  {machine other : Machine}

/-- As long as the evaluation is not resolved, nothing but its frames has a say. -/
theorem leads_of_unresolved (hupper : upper ≠ []) (h : machine.StandsOn upper below) {calls : Nat}
    (hunresolved : machine.Unresolved rules text below.length calls) :
    ∃ upper' log, Leads rules text upper calls upper' log := by
  rcases leads_or_ends hupper calls with ⟨upper', log, -, hleads⟩ |
    ⟨made, hmade, ⟨resolution, hresolves⟩ | ⟨fault, hfaults⟩⟩
  · exact ⟨upper', log, hleads⟩
  · have hresolution := (hresolves machine below h).2
    rw [(hunresolved made hmade).1] at hresolution
    cases hresolution
  · have hfault := (hfaults machine below h).2
    rw [(hunresolved made hmade).2] at hfault
    cases hfault

/-- Machines with the same frames on top run in lockstep. -/
theorem lockstep_of_standsOn (hupper : upper ≠ []) (h : machine.StandsOn upper below)
    (h' : other.StandsOn upper below') :
    Lockstep rules text machine other below.length below'.length where
  ends := by
    -- without an end for one machine there is none for the other, since it is found from the frames
    by_cases hforever : ∀ calls, ∃ upper' log, Leads rules text upper calls upper' log
    · right; right
      intro calls
      obtain ⟨upper', log, hleads⟩ := hforever calls
      exact ⟨(hleads machine below h).1, (hleads other below' h').1⟩
    · obtain ⟨calls, hends⟩ := Classical.not_forall.1 hforever
      rcases leads_or_ends hupper calls with ⟨upper', log, -, hleads⟩ |
        ⟨made, -, ⟨resolution, hresolves⟩ | ⟨fault, hfaults⟩⟩
      · exact absurd ⟨upper', log, hleads⟩ hends
      · exact Or.inl ⟨made, resolution, hresolves machine below h, hresolves other below' h'⟩
      · exact Or.inr (Or.inl ⟨made, fault, hfaults machine below h, hfaults other below' h'⟩)
  frames calls hunresolved := by
    obtain ⟨upper', log, hleads⟩ := leads_of_unresolved hupper h hunresolved
    rw [(frames_of_stack (hleads.standsOn h).2).1, (frames_of_stack (hleads.standsOn h').2).1]
  failures calls hunresolved := by
    obtain ⟨upper', log, hleads⟩ := leads_of_unresolved hupper h hunresolved
    obtain ⟨-, hafter, htold⟩ := hleads machine below h
    obtain ⟨-, hafter', htold'⟩ := hleads other below' h'
    rw [htold, htold', hafter, hafter']
    exact ⟨rfl, rfl, rfl⟩
  below calls hunresolved := by
    obtain ⟨upper', log, hleads⟩ := leads_of_unresolved hupper h hunresolved
    rw [(frames_of_stack (hleads.standsOn h).2).2, (frames_of_stack h.2).2,
      (frames_of_stack (hleads.standsOn h').2).2, (frames_of_stack h'.2).2]
    exact ⟨rfl, rfl⟩
  handsBack := by
    rintro calls resolution ⟨hunresolved, hresolves⟩
    obtain ⟨upper', log, hleads⟩ := leads_of_unresolved hupper h hunresolved
    have hstack := (hleads.standsOn h).2
    have hstack' := (hleads.standsOn h').2
    rw [resolves?_of_stack hstack] at hresolves
    rw [(frames_of_stack h.2).2, (frames_of_stack h'.2).2, List.reverse_reverse,
      List.reverse_reverse]
    exact ⟨handsBack_of_resolution hresolves hstack, handsBack_of_resolution hresolves hstack'⟩

/-- A running machine has a new frame on top, whatever has happened to it before. -/
theorem InUse.Reached.standsOn {use : InUse} {name : String} {top : Frame} {below : List Frame}
    (h : use.Reached text name) (hrunning : use.machine.status = .running)
    (hstack : use.machine.stack = top :: below) :
    use.machine.StandsOn [{ item := top.item, offset := top.offset }] below := by
  obtain ⟨item, offset, rest, hunvisited⟩ := (h.consistent.coherent.running hrunning).2
  rw [hstack] at hunvisited
  cases hunvisited
  exact ⟨hrunning, hstack⟩

/-- Two running machines over the same rules and text, whatever calls, runs and edits have led to
them and from whatever names, evaluate the frames on top of their stacks in lockstep if these have
the same item and offset. -/
theorem lockstep_of_reached {name name' : String} {top top' : Frame}
    (h : (InUse.mk rules machine).Reached text name) (h' : (InUse.mk rules other).Reached text name')
    (hrunning : machine.status = .running) (hrunning' : other.status = .running)
    (hstack : machine.stack = top :: below) (hstack' : other.stack = top' :: below')
    (hitem : top.item = top'.item) (hoffset : top.offset = top'.offset) :
    Lockstep rules text machine other below.length below'.length := by
  have hstands := h.standsOn hrunning hstack
  have hstands' := h'.standsOn hrunning' hstack'
  rw [← hitem, ← hoffset] at hstands'
  apply lockstep_of_standsOn (List.cons_ne_nil _ _) hstands hstands'

/-- Rules under which a name is called by another one before anything else. -/
def twiceRules : RuleMap := RuleMap.sample.define "Twice" (.rule (.seq (.ref "S") [.ref "S"]))

end Lockstep

end Machine

end AnyLibrary

namespace Machine

theorem lockstep_of_reached_sample :
    (InUse.start twiceRules "S").Reached ['b'] "S" ∧
      (InUse.mk twiceRules ((start "Twice").after twiceRules ['b'] 2)).Reached ['b'] "Twice" ∧
      Lockstep twiceRules ['b'] (start "S") ((start "Twice").after twiceRules ['b'] 2) 0 2 ∧
      (start "S").ResolvesAfter twiceRules ['b'] 0 4 (.success 1) :=
  have hreached : (InUse.start twiceRules "S").Reached ['b'] "S" := ⟨twiceRules, false, [], rfl⟩
  have hreached' : (InUse.mk twiceRules ((start "Twice").after twiceRules ['b'] 2)).Reached ['b']
    "Twice" := ⟨twiceRules, false, [.advance, .advance], rfl⟩
  have hrunning : ((start "Twice").after twiceRules ['b'] 2).status = .running := by decide
  have hstack : ((start "Twice").after twiceRules ['b'] 2).stack =
    .reference "S" 0 :: [{ item := .rule (.seq (.ref "S") [.ref "S"]), offset := 0 },
      .reference "Twice" 0] := by decide
  ⟨hreached, hreached',
    lockstep_of_reached hreached hreached' rfl hrunning rfl hstack rfl rfl, by decide⟩

end Machine

end PegMachine
