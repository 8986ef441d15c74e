import PegMachine.Proofs.Origins
import PegMachine.Semantics.Choices

/-!
# What calls do to a choice

A call does one of five things to a choice that it leaves on the stack (`Machine.ChoiceStep`): the
choice is on top and hands over to its branch in hand; it stays as it is, with all frames below it;
a walk after a success passes it, and settles it if it has a branch left; or a walk after a failure
stops at it, and its next branch is started. `Machine.advance_choice` reads that off the moves. It
depends on where the choice stands in its listing: at a branch (`Frame.AtBranch`), so that what
follows is a separator, if anything. No step changes that: a choice that is resumed goes past the
separator.

All that a choice goes through from its push on follows (`Lives.choice`): it is never changed once
it is settled or has come to its last branch, and until then the frames below it are those that it
was pushed on.
-/

namespace PegMachine

variable [RegexLibrary]

/-! ## Choices at a branch -/

namespace Frame

/-- The frame is of a choice whose place is that of a branch. -/
structure AtBranch (frame : Frame) : Prop where
  choice : frame.isChoice = true
  even : ∃ branch, frame.place = 2 * branch

variable {frame : Frame}

/-- A choice frame is of a choice. -/
theorem item_of_isChoice (h : frame.isChoice = true) :
    ∃ first second rest, frame.item = .rule (.choice first second rest) := by
  unfold isChoice Rule.isChoice at h
  split at h
  · split at h
    · next hitem => exact ⟨_, _, _, hitem⟩
    · cases h
  · cases h

/-- The frame of a terminal is no choice. -/
theorem isChoice_of_terminal {matcher : Matcher} (h : frame.item = .rule (.terminal matcher)) :
    frame.isChoice = false := by
  rw [isChoice, h]
  rfl

/-- What a choice has in hand at a branch is that branch. -/
theorem AtBranch.current?_eq_some {item : Item} (h : frame.AtBranch)
    (hand : frame.current? = some item) : ∃ branch, item = .rule branch := by
  obtain ⟨first, second, rest, hitem⟩ := item_of_isChoice h.choice
  have hchoice : (Rule.choice first second rest).isChoice = true := rfl
  obtain ⟨branch, hplace⟩ := h.even
  rw [current?, listed?, hitem, hplace] at hand
  simp only [Rule.listing_getElem?_branch hchoice] at hand
  obtain ⟨part, -, hpart⟩ := Option.map_eq_some_iff.1 hand
  exact ⟨part, hpart.symm⟩

/-- What follows a branch is a separator. -/
theorem AtBranch.following? (h : frame.AtBranch) :
    frame.following? = none ∨ frame.following? = some .separator := by
  obtain ⟨first, second, rest, hitem⟩ := item_of_isChoice h.choice
  have hchoice : (Rule.choice first second rest).isChoice = true := rfl
  obtain ⟨branch, hplace⟩ := h.even
  rw [Frame.following?, listed?, hitem, hplace]
  simp only [Rule.listing_getElem?_separator hchoice]
  split
  · exact Or.inr rfl
  · exact Or.inl rfl

/-- The next separator after a branch is the one that follows it. -/
theorem AtBranch.nextMarker?_eq_some {marker : Nat} (h : frame.AtBranch)
    (hmarker : frame.nextMarker? = some marker) :
    marker = frame.place + 1 ∧ frame.following? = some .separator := by
  rcases h.following? with hnone | hseparator
  · rw [nextMarker?_of_following_none hnone] at hmarker
    cases hmarker
  · rw [nextMarker?_of_following_separator hseparator] at hmarker
    exact ⟨(Option.some.inj hmarker).symm, hseparator⟩

/-- A choice that goes past a separator comes to a branch. -/
theorem AtBranch.past_separator (h : frame.AtBranch) :
    { frame with place := frame.place + 2 }.AtBranch where
  choice := h.choice
  even := by
    obtain ⟨branch, hplace⟩ := h.even
    exact ⟨branch + 1, by rw [hplace]; rfl⟩

end Frame

namespace Machine

/-! ## One call -/

/-- What a call does to the frames above a choice, to the choice, and to the frames below it, if it
leaves the choice on the stack. -/
inductive ChoiceStep (pushes : Bool) (above : List Frame) (choice : Frame) (below : List Frame)
    (above' : List Frame) (choice' : Frame) (below' : List Frame) : Prop where
  | handsOver {branch} (onTop : above = []) (hand : choice.current? = some (.rule branch))
    (started : above' = [{ item := .rule branch, offset := choice.offset }])
    (same : choice' = choice) (kept : below' = below)
  | rests (new : pushes = true → 2 ≤ above'.length) (same : choice' = choice)
    (kept : below' = below)
  | passed (new : pushes = true → 2 ≤ above'.length) (last : choice.following? = none)
    (same : choice' = choice)
  | settles (new : pushes = true → 2 ≤ above'.length)
    (left : choice.following? = some .separator)
    (settled : choice' = { choice with settled := true })
  | resumes {branch} (new : pushes = true) (under : above ≠ [])
    (left : choice.following? = some .separator) (unsettled : choice.settled = false)
    (moved : choice' = { choice with place := choice.place + 2 })
    (hand : choice'.current? = some (.rule branch))
    (started : above' = [{ item := .rule branch, offset := choice.offset }])
    (kept : below' = below)

section Walks

variable {choice : Frame} {below : List Frame}

/-- The walk after a success stops above a frame, or walks on from there. -/
theorem settle_through (above : List Frame) (frame : Frame) (below : List Frame) :
    ∃ above', above'.length = above.length ∧
      ((∃ next, settle (above ++ frame :: below) = (some next, above' ++ frame :: below)) ∨
        settle (above ++ frame :: below) =
          ((settle (frame :: below)).1, above' ++ (settle (frame :: below)).2)) := by
  refine ⟨(settle above).2, length_settle rfl, ?_⟩
  cases hwalk : (settle above).1 with
  | some next => exact Or.inl ⟨next, settle_append_of_stops hwalk⟩
  | none => exact Or.inr (settle_append_of_passes hwalk)

/-- The walk after a success passes a choice, and settles it if it has a branch left. -/
theorem settle_choice (hbranch : choice.AtBranch) (below : List Frame) :
    settle (choice :: below) = ((settle below).1,
      { choice with settled := choice.settled || choice.following?.isSome } ::
        (settle below).2) := by
  rw [settle_cons]
  rcases hbranch.following? with hnone | hseparator
  · simp only [hnone, Option.isSome_none, Bool.or_false]
  · simp only [hseparator, Option.isSome_some, Bool.or_true]

/-- What the walk after a success does to a choice, if it has frames above it or pushes none. -/
theorem choiceStep_settle (hbranch : choice.AtBranch) {pushes : Bool}
    {above old : List Frame} {next : Option Item} {frames : List Frame}
    (hwalk : settle (above ++ choice :: below) = (next, frames)) (new : List Frame)
    (hnew : pushes = true → 2 ≤ (new ++ above).length) :
    ∃ above' choice' below', new ++ frames = above' ++ choice' :: below' ∧
      below'.length = below.length ∧
      ChoiceStep pushes old choice below above' choice' below' := by
  obtain ⟨above', hlength, hthrough⟩ := settle_through above choice below
  have hnew' : pushes = true → 2 ≤ (new ++ above').length := by
    intro hpush
    rw [List.length_append, hlength, ← List.length_append]
    exact hnew hpush
  rcases hthrough with ⟨other, hstops⟩ | hpasses
  · rw [hstops] at hwalk
    cases hwalk
    exact ⟨new ++ above', choice, below, (List.append_assoc _ _ _).symm, rfl, .rests hnew' rfl rfl⟩
  · rw [hpasses, settle_choice hbranch] at hwalk
    cases hwalk
    refine ⟨new ++ above', _, _, (List.append_assoc _ _ _).symm, length_settle rfl, ?_⟩
    rcases hbranch.following? with hlast | hleft
    · exact .passed hnew' hlast (by simp [hlast])
    · exact .settles hnew' hleft (by simp [hleft])

/-- The walk after a failure stops above a frame, at it, or below it. -/
theorem retreat_through {above rest : List Frame} {frame stopped : Frame}
    (h : retreat (above ++ frame :: below) = some (stopped, rest)) :
    (∃ above', rest = above' ++ frame :: below) ∨
      (rest = below ∧ frame.settled = false ∧ ∃ marker, frame.nextMarker? = some marker ∧
        stopped = { frame with place := marker }) ∨
      rest.length < below.length := by
  obtain ⟨dropped, found, marker, hsplit, -, hunsettled, hmarker, rfl⟩ := retreat_eq_some h
  rcases List.append_eq_append_iff.1 hsplit with ⟨middle, rfl, hbelow⟩ | ⟨middle, rfl, hbelow⟩
  · cases middle with
    | nil =>
      cases hbelow
      exact Or.inr (Or.inl ⟨rfl, hunsettled, marker, hmarker, rfl⟩)
    | cons first middle =>
      have hlength := congrArg List.length hbelow
      simp only [List.length_append, List.length_cons] at hlength
      exact Or.inr (Or.inr (by omega))
  · cases middle with
    | nil =>
      cases hbelow
      exact Or.inr (Or.inl ⟨rfl, hunsettled, marker, hmarker, rfl⟩)
    | cons first middle =>
      cases hbelow
      exact Or.inl ⟨middle, rfl⟩

end Walks

section Call

variable {rules : RuleMap} {text : List Char} {machine : Machine} {above below : List Frame}
  {choice : Frame}

/-- A choice is not the frame of a reference or terminal on top. -/
theorem above_of_top {top : Frame} {frames : List Frame} (hchoice : choice.isChoice = true)
    (htop : top.isChoice = false) (h : above ++ choice :: below = top :: frames) :
    ∃ above', above = top :: above' ∧ frames = above' ++ choice :: below := by
  cases above with
  | nil =>
    cases h
    rw [htop] at hchoice
    cases hchoice
  | cons first rest =>
    cases h
    exact ⟨rest, rfl, rfl⟩

/-- A move does one step to every choice that it leaves on the stack. -/
theorem Moves.choiceStep {outcome : Outcome} (h : Moves rules text machine outcome)
    (hstack : machine.stack = above ++ choice :: below) (hbranch : choice.AtBranch)
    (hkept : below.length < outcome.kept) :
    ∃ above' choice' below', outcome.machine.stack = above' ++ choice' :: below' ∧
      below'.length = below.length ∧
      ChoiceStep outcome.pushes above choice below above' choice' below' := by
  have hchoice := hbranch.choice
  rw [Outcome.kept, frames, List.length_reverse] at hkept
  cases h with
  | @refers top _ name item stack named =>
    have htop : top.isChoice = false := by rw [Frame.isChoice, named]; rfl
    obtain ⟨rest, rfl, -⟩ := above_of_top hchoice htop (hstack.symm.trans stack)
    refine ⟨{ item, offset := top.offset } :: top :: rest, choice, below, ?_, rfl,
      .rests ?_ rfl rfl⟩
    · rw [push, hstack]
      rfl
    · intro _
      simp
  | @takesUp top _ rule item stack composite hand =>
    cases above with
    | nil =>
      cases hstack.symm.trans stack
      obtain ⟨branch, rfl⟩ := hbranch.current?_eq_some hand
      refine ⟨_, choice, below, ?_, rfl, .handsOver rfl hand rfl rfl rfl⟩
      rw [push, hstack]
      rfl
    | cons first rest =>
      refine ⟨{ item, offset := top.offset } :: first :: rest, choice, below, ?_, rfl,
        .rests ?_ rfl rfl⟩
      · rw [push, hstack]
        rfl
      · intro _
        simp
  | @goesOn top _ matcher stop value next frames stack terminal _ _ walk =>
    obtain ⟨rest, rfl, rfl⟩ := above_of_top hchoice (Frame.isChoice_of_terminal terminal)
      (hstack.symm.trans stack)
    rw [← List.cons_append] at walk
    exact choiceStep_settle hbranch walk
      [{ item := next, offset := top.offset + value.length }] fun _ => by simp
  | @accepts top _ matcher stop value frames stack terminal _ _ walk =>
    obtain ⟨rest, rfl, rfl⟩ := above_of_top hchoice (Frame.isChoice_of_terminal terminal)
      (hstack.symm.trans stack)
    rw [← List.cons_append] at walk
    exact choiceStep_settle hbranch walk [] fun h => absurd h Bool.false_ne_true
  | leavesOver => exact absurd hkept (Nat.not_lt_zero _)
  | @resumes top _ matcher message stopped rest branch stack terminal _ _ walk behind =>
    obtain ⟨higher, rfl, -⟩ := above_of_top hchoice (Frame.isChoice_of_terminal terminal)
      (hstack.symm.trans stack)
    rw [hstack] at walk
    -- the walk stops above the choice, at it, or below it; `hkept` rules out the last
    rcases retreat_through walk with ⟨above', rfl⟩ | ⟨rfl, unsettled, marker, hmarker, rfl⟩ | hlt
    · exact ⟨{ item := .rule branch, offset := stopped.offset } ::
        { stopped with place := stopped.place + 1 } :: above', choice, below, rfl, rfl,
        .rests (fun _ => by simp) rfl rfl⟩
    · obtain ⟨rfl, left⟩ := hbranch.nextMarker?_eq_some hmarker
      exact ⟨_, _, _, rfl, rfl,
        .resumes rfl (List.cons_ne_nil _ _) left unsettled rfl behind rfl rfl⟩
    · have hlength : below.length < rest.length + 1 + 1 - 1 := hkept
      omega
  | givesUp => exact absurd hkept (Nat.not_lt_zero _)

/-- A call does one step to every choice that it leaves on the stack. -/
theorem advance_choice (rules : RuleMap) (text : List Char)
    (hstack : machine.stack = above ++ choice :: below) (hbranch : choice.AtBranch)
    (hkept : below.length < (machine.advance rules text).kept) :
    ∃ above' choice' below',
      (machine.advance rules text).machine.stack = above' ++ choice' :: below' ∧
      below'.length = below.length ∧
      ChoiceStep (machine.advance rules text).pushes above choice below above' choice' below' := by
  by_cases hrunning : machine.status = .running
  · rcases advance_cases rules text hrunning with ⟨fault, hadvance⟩ | hmoves
    · rw [hadvance]
      exact ⟨above, choice, below, hstack, rfl,
        .rests (fun h => absurd h Bool.false_ne_true) rfl rfl⟩
    · exact hmoves.choiceStep hstack hbranch hkept
  · rw [advance_finished rules text hrunning]
    exact ⟨above, choice, below, hstack, rfl, .rests (fun h => absurd h Bool.false_ne_true) rfl rfl⟩

end Call

/-! ## From call to call -/

section Frames

variable {machine : Machine} {height : Nat} {frame : Frame} {above below : List Frame}

/-- The stack at a height. -/
theorem stack_of_getElem? (h : machine.frames[height]? = some frame) :
    ∃ above, machine.stack = above ++ frame :: (machine.frames.take height).reverse := by
  obtain ⟨hlt, rfl⟩ := List.getElem?_eq_some_iff.1 h
  refine ⟨(machine.frames.drop (height + 1)).reverse, ?_⟩
  rw [← List.reverse_inj, List.reverse_append, List.reverse_cons, List.reverse_reverse,
    List.reverse_reverse, List.append_assoc, List.singleton_append, ← List.drop_eq_getElem_cons hlt,
    List.take_append_drop]
  rfl

/-- The frames of a stack at the height of one of them. -/
theorem getElem?_of_stack (h : machine.stack = above ++ frame :: below) :
    machine.frames[below.length]? = some frame ∧
      machine.frames.take below.length = below.reverse ∧
      machine.frames.length = below.length + 1 + above.length := by
  have hframes : machine.frames = below.reverse ++ frame :: above.reverse := by
    rw [frames, h]
    simp
  rw [hframes]
  refine ⟨by simp, ?_, by simp; omega⟩
  rw [← List.length_reverse, List.take_left]

end Frames

section Run

variable {rules : RuleMap} {text : List Char} {name : String} {born height calls later : Nat}

/-- A frame that lives after a call lived before it and was left on the stack, or the call has
pushed it. -/
theorem Lives.succ_cases (h : Lives rules text name born height (calls + 1)) :
    (Lives rules text name born height calls ∧
        height < (((start name).after rules text calls).advance rules text).kept) ∨
      (born = calls + 1 ∧ height = (((start name).after rules text calls).advance rules text).kept ∧
        (((start name).after rules text calls).advance rules text).pushes = true) := by
  by_cases hkept : height < (((start name).after rules text calls).advance rules text).kept
  · rw [Lives, origins_succ_of_lt hkept] at h
    exact Or.inl ⟨h, hkept⟩
  · have hlt : height < (origins rules text name (calls + 1)).length := by
      obtain ⟨origin, horigin, -⟩ := Option.map_eq_some_iff.1 h
      exact (List.getElem?_eq_some_iff.1 horigin).1
    have hlength := (kept_le rules text ((start name).after rules text calls)).2
    rw [length_origins, after_succ, hlength] at hlt
    split at hlt
    · next hpush =>
      obtain rfl : height = _ := Nat.le_antisymm (Nat.le_of_lt_succ hlt) (Nat.le_of_not_lt hkept)
      rw [Lives, origins_succ_new hpush] at h
      exact Or.inr ⟨(Option.some.inj h).symm, rfl, hpush⟩
    · exact absurd hlt hkept

/-- A frame lives from its push on. -/
theorem Lives.born_le (h : Lives rules text name born height calls) : born ≤ calls := by
  induction calls with
  | zero =>
    obtain ⟨origin, horigin, hborn⟩ := Option.map_eq_some_iff.1 h
    have hmem := List.mem_of_getElem? horigin
    rw [origins, List.mem_singleton] at hmem
    rw [hmem] at hborn
    exact Nat.le_of_eq hborn.symm
  | succ calls ih =>
    rcases h.succ_cases with ⟨hlives, -⟩ | ⟨rfl, -, -⟩
    · exact Nat.le_succ_of_le (ih hlives)
    · exact Nat.le_refl _

/-- A frame that a later call leaves on the stack was there in between. -/
theorem Lives.of_le (h : Lives rules text name born height later) (hborn : born ≤ calls)
    (hle : calls ≤ later) : Lives rules text name born height calls := by
  induction hle with
  | refl => exact h
  | step hle ih =>
    rcases h.succ_cases with ⟨hlives, -⟩ | ⟨rfl, -, -⟩
    · exact ih hlives
    · exact absurd (Nat.le_trans hborn hle) (Nat.not_succ_le_self _)

/-- A frame that has just been pushed. -/
theorem Lives.new (h : Lives rules text name (calls + 1) height (calls + 1)) :
    height = (((start name).after rules text calls).advance rules text).kept ∧
      (((start name).after rules text calls).advance rules text).pushes = true := by
  rcases h.succ_cases with ⟨hlives, -⟩ | ⟨-, hnew⟩
  · exact absurd hlives.born_le (Nat.not_succ_le_self _)
  · exact hnew

/-- A new frame is on top and has not been visited. -/
theorem Lives.unvisited (h : Lives rules text name born height born) :
    ((start name).after rules text born).frames.length = height + 1 ∧
      ∃ item offset, frameAt? rules text name height born = some { item, offset } := by
  cases born with
  | zero =>
    obtain ⟨origin, horigin, -⟩ := Option.map_eq_some_iff.1 h
    obtain rfl : height = 0 := Nat.lt_one_iff.1 (List.getElem?_eq_some_iff.1 horigin).1
    exact ⟨rfl, _, _, rfl⟩
  | succ calls =>
    obtain ⟨rfl, hpush⟩ := h.new
    have hlength := (kept_le rules text ((start name).after rules text calls)).2
    rcases advance_pushes_or_ends rules text ((start name).after rules text calls) with
      ⟨-, -, -, item, offset, below, hstack, -⟩ | ⟨hpush', -⟩
    · rw [if_pos hpush] at hlength
      rw [← after_succ] at hstack hlength
      have htop : _ = [] ++ { item, offset } :: below := hstack
      obtain ⟨hframe, -, hframes⟩ := getElem?_of_stack htop
      refine ⟨hlength, item, offset, ?_⟩
      rw [frameAt?, ← hframe]
      congr 1
      rw [hlength, List.length_nil] at hframes
      omega
    · rw [hpush] at hpush'
      cases hpush'

/-- Below a frame there are as many as its height says. -/
theorem length_framesBelow {frame : Frame}
    (h : frameAt? rules text name height calls = some frame) :
    (framesBelow rules text name height calls).length = height := by
  have hlt := (List.getElem?_eq_some_iff.1 h).1
  rw [framesBelow, List.length_take]
  omega

/-- A call does one step to every choice that lives before and after it. -/
theorem Lives.step (h : Lives rules text name born height calls)
    (h' : Lives rules text name born height (calls + 1)) {now : Frame}
    (hnow : frameAt? rules text name height calls = some now) (hbranch : now.AtBranch) :
    ∃ above above' next,
      ((start name).after rules text calls).stack =
        above ++ now :: (framesBelow rules text name height calls).reverse ∧
      ((start name).after rules text (calls + 1)).stack =
        above' ++ next :: (framesBelow rules text name height (calls + 1)).reverse ∧
      frameAt? rules text name height (calls + 1) = some next ∧
      ChoiceStep (((start name).after rules text calls).advance rules text).pushes above now
        (framesBelow rules text name height calls).reverse above' next
        (framesBelow rules text name height (calls + 1)).reverse := by
  obtain ⟨above, hstack⟩ := stack_of_getElem? hnow
  have hkept : height < (((start name).after rules text calls).advance rules text).kept := by
    rcases h'.succ_cases with ⟨-, hkept⟩ | ⟨rfl, -, -⟩
    · exact hkept
    · exact absurd h.born_le (Nat.not_succ_le_self _)
  have hheight : (framesBelow rules text name height calls).reverse.length = height := by
    rw [List.length_reverse, length_framesBelow hnow]
  obtain ⟨above', next, below', hstack', hlength, hstep⟩ :=
    advance_choice rules text hstack hbranch (hheight.symm ▸ hkept)
  rw [← after_succ] at hstack'
  obtain ⟨hnext, hbelow, -⟩ := getElem?_of_stack hstack'
  rw [hlength.trans hheight] at hnext hbelow
  obtain rfl : below' = (framesBelow rules text name height (calls + 1)).reverse := by
    rw [framesBelow, hbelow, List.reverse_reverse]
  exact ⟨above, above', next, hstack, hstack', hnext, hstep⟩

/-- While it lives nothing of a choice changes but its place, which stays that of a branch, and the
mark of a settled choice; and as long as a walk may still stop at it, the frames below are those
that it was pushed on. -/
theorem Lives.choice {pushed : Frame} (h : Lives rules text name born height calls)
    (hpushed : frameAt? rules text name height born = some pushed)
    (hchoice : pushed.isChoice = true) :
    ∃ place settled,
      frameAt? rules text name height calls = some { pushed with place, settled } ∧
      Frame.AtBranch { pushed with place, settled } ∧
      (¬ Frame.Closed { pushed with place, settled } →
        framesBelow rules text name height calls = framesBelow rules text name height born) := by
  have hnew : Lives rules text name born height born → pushed.AtBranch := by
    intro hborn
    obtain ⟨-, item, offset, hframe⟩ := hborn.unvisited
    obtain rfl := Option.some.inj (hpushed.symm.trans hframe)
    exact ⟨hchoice, 0, rfl⟩
  induction calls with
  | zero =>
    obtain rfl : born = 0 := Nat.le_zero.1 h.born_le
    exact ⟨pushed.place, pushed.settled, hpushed, hnew h, fun _ => rfl⟩
  | succ calls ih =>
    rcases h.succ_cases with ⟨hlives, -⟩ | ⟨rfl, -, -⟩
    · obtain ⟨place, settled, hnow, hbranch, hbelow⟩ := ih hlives
      obtain ⟨above, above', next, -, -, hnext, hstep⟩ := hlives.step h hnow hbranch
      cases hstep with
      | handsOver _ _ _ same kept =>
        refine ⟨place, settled, same ▸ hnext, hbranch, fun hopen => ?_⟩
        rw [List.reverse_inj.1 kept, hbelow hopen]
      | rests _ same kept =>
        refine ⟨place, settled, same ▸ hnext, hbranch, fun hopen => ?_⟩
        rw [List.reverse_inj.1 kept, hbelow hopen]
      -- the walk may have changed the frames below, but no walk will stop at the choice any more
      | passed _ last same =>
        exact ⟨place, settled, same ▸ hnext, hbranch, fun hopen => absurd (Or.inl last) hopen⟩
      | settles _ left marked =>
        exact ⟨place, true, marked ▸ hnext, ⟨hbranch.choice, hbranch.even⟩,
          fun hopen => absurd (Or.inr ⟨left, rfl⟩) hopen⟩
      | resumes _ _ left unsettled moved _ _ kept =>
        refine ⟨place + 2, settled, moved ▸ hnext, hbranch.past_separator, fun _ => ?_⟩
        rw [List.reverse_inj.1 kept, hbelow (Frame.not_closed left unsettled)]
    · exact ⟨pushed.place, pushed.settled, hpushed, hnew h, fun _ => rfl⟩

end Run

end Machine

end PegMachine
