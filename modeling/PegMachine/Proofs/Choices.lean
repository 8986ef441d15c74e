import PegMachine.Proofs.InFlight
import PegMachine.Proofs.Lifetimes
import PegMachine.Regex.Backtracking

/-!
# Ordered choice

A choice that a walk may still stop at is on the path of the evaluation under way
(`Underway.passesThrough`), since the frames of what has succeeded are closed. So the evaluation of
its branch in hand is under way above it, and has been since the stack ended with the choice and
that branch. If a call moves the place of the choice, that evaluation has come to its verdict,
which is neither success nor a fault (`Underway.branch_fails`).

With the steps that a call can do to a choice this gives the life of every choice on the stack
(`Machine.life_of_choice`).
-/

namespace PegMachine

section AnyLibrary

variable [RegexLibrary]

/-! ## Open frames lie on the path -/

theorem OpenDerivation.listing_plug (tree inner : OpenDerivation) :
    (tree.plug inner).listing = tree.marked.map Prod.fst ++ inner.listing := by
  induction tree with
  | hand frame => rfl
  | node frame done making ih => simp [plug, listing, marked, ih, Function.comp_def]

/-- A frame that is not closed stands behind frames that are. -/
theorem Frame.split_of_closed {closed making below above : List Frame} {frame : Frame}
    (hclosed : ∀ f ∈ closed, f.Closed) (hopen : ¬ frame.Closed)
    (h : closed ++ making = below ++ frame :: above) :
    ∃ below', below = closed ++ below' ∧ making = below' ++ frame :: above := by
  rcases List.append_eq_append_iff.1 h with ⟨below', hbelow, hmaking⟩ | ⟨rest, hrest, hframe⟩
  · exact ⟨below', hbelow, hmaking⟩
  · cases rest with
    | nil => exact ⟨[], by rw [hrest, List.append_nil, List.append_nil], hframe.symm⟩
    | cons first rest =>
      cases hframe
      exact absurd (hclosed frame (by simp [hrest])) hopen

/-- The evaluation of an item at an offset has come to a frame, which stands on the frames `below`,
and has been in it since. -/
inductive PassesThrough (rules : RuleMap) (text : List Char) (item : Item) (offset : Nat)
    (below : List Frame) (frame : Frame) (above : List Frame) (visits : Nat) : Prop where
  | intro {outer inner log log' before since}
    (comes : Underway rules text item offset outer log before)
    (hand : outer.top = { item := frame.item, offset := frame.offset })
    (listed : outer.marked.map Prod.fst = below)
    (stays : Underway rules text frame.item frame.offset inner log' since)
    (listing : inner.listing = frame :: above) (total : before + since = visits) :
    PassesThrough rules text item offset below frame above visits

namespace Underway

variable {rules : RuleMap} {text : List Char} {item : Item} {offset : Nat} {tree : OpenDerivation}
  {log : List Mismatch} {visits : Nat} {below above : List Frame} {frame : Frame}

/-- An evaluation under way is in its own first frame. -/
theorem passesThrough_root (h : Underway rules text item offset tree log visits)
    (hlisting : tree.listing = [] ++ frame :: above) :
    PassesThrough rules text item offset [] frame above visits := by
  obtain ⟨first, rest, hfirst, rfl, rfl⟩ := h.listing_of_item
  cases hfirst.symm.trans hlisting
  exact .intro .begun rfl rfl h hlisting (Nat.zero_add _)

/-- An evaluation under way is in every frame that is not closed. -/
theorem passesThrough (h : Underway rules text item offset tree log visits)
    (hlisting : tree.listing = below ++ frame :: above) (hopen : ¬ frame.Closed) :
    PassesThrough rules text item offset below frame above visits := by
  induction h generalizing below with
  | begun =>
    cases below with
    | nil => exact passesThrough_root .begun hlisting
    | cons first below =>
      have hnil := (List.cons.inj hlisting).2
      exact absurd hnil.symm (by simp)
  | reference found body ih =>
    cases below with
    | nil => exact passesThrough_root (.reference found body) hlisting
    | cons first below =>
      obtain ⟨rfl, hrest⟩ := List.cons.inj hlisting
      obtain ⟨comes, hand, rfl, stays, listing, rfl⟩ := ih hrest
      exact .intro (.reference found comes) hand rfl stays listing (Nat.add_right_comm _ _ _)
  | sequence done here body ih =>
    cases below with
    | nil => exact passesThrough_root (.sequence done here body) hlisting
    | cons first below =>
      obtain ⟨rfl, hrest⟩ := List.cons.inj hlisting
      obtain ⟨below, rfl, hmaking⟩ := Frame.split_of_closed (done.closed trivial) hopen hrest
      obtain ⟨comes, hand, rfl, stays, listing, rfl⟩ := ih hmaking
      refine .intro (.sequence done here comes) hand ?_ stays listing (by omega)
      simp [OpenDerivation.marked, Function.comp_def]
  | choice failed here body ih =>
    cases below with
    | nil => exact passesThrough_root (.choice failed here body) hlisting
    | cons first below =>
      obtain ⟨rfl, hrest⟩ := List.cons.inj hlisting
      obtain ⟨comes, hand, rfl, stays, listing, rfl⟩ := ih hrest
      exact .intro (.choice failed here comes) hand rfl stays listing (by omega)

/-- An evaluation of a choice under way has its branch in hand under way. -/
theorem of_choice {first second : Rule} {rest : List Rule}
    (h : Underway rules text (.rule (.choice first second rest)) offset tree log visits)
    (hlisting : tree.listing = frame :: above) (habove : above ≠ []) :
    ∃ branch part making log₁ log₂ before since,
      frame = .choiceAt (.choice first second rest) offset branch ∧
      BranchesFail rules text (.choice first second rest) offset branch log₁ before ∧
      (first :: second :: rest)[branch]? = some part ∧
      Underway rules text (.rule part) offset making log₂ since ∧ making.listing = above ∧
      visits = before + since + 1 := by
  cases h with
  | begun =>
    cases hlisting
    exact absurd rfl habove
  | choice failed here body =>
    obtain ⟨rfl, rfl⟩ := List.cons.inj hlisting
    exact ⟨_, _, _, _, _, _, _, rfl, failed, here, body, rfl, rfl⟩

end Underway

/-! ## Branches that fail -/

namespace Machine

/-- After a success the frames are as the walk leaves them, with a new one on top or none, unless
the machine rejects. -/
theorem goOn_stack (text : List Char) (machine : Machine) (offset : Nat) :
    (machine.goOn text offset).machine.stack = [] ∨
      ∃ new, (machine.goOn text offset).machine.stack = new ++ (settle machine.stack).2 := by
  rcases hwalk : settle machine.stack with ⟨_ | next, frames⟩
  · by_cases hstop : offset = text.length
    · refine Or.inr ⟨[], ?_⟩
      rw [goOn, hwalk]
      simp only [if_pos hstop]
      rfl
    · refine Or.inl ?_
      rw [goOn, hwalk]
      simp only [if_neg hstop, fail, backtrack, retreat_of_settle_none hwalk,
        Outcome.tell]
  · refine Or.inr ⟨[{ item := next, offset }], ?_⟩
    rw [goOn, hwalk]
    rfl

section Run

variable {rules : RuleMap} {text : List Char} {name : String} {calls : Nat} {tree : OpenDerivation}
  {log : List Mismatch} {below above : List Frame} {choice new : Frame}

/-- A call that pushes a frame finds an evaluation under way. -/
theorem underway_of_pushes
    (hpush : (((start name).after rules text calls).advance rules text).pushes = true) :
    ∃ tree log, Underway rules text (.rule (.ref name)) 0 tree log calls ∧
      (start name).after rules text calls =
        .running tree.listing.reverse (FurthestFailures.empty.recordAll log) calls := by
  have hrunning : ((start name).after rules text calls).status = .running := by
    refine Decidable.byContradiction fun hfinished => ?_
    rw [advance_finished rules text hfinished] at hpush
    cases hpush
  obtain ⟨tree, hunderway, hmachine⟩ :=
    (stage rules text name calls).underway_of_goes_on hrunning (pushes_iff.1 hpush).1
  exact ⟨tree, _, hunderway, hmachine⟩

end Run

end Machine

/-- A frame is the one that stands at its height. -/
theorem Frame.eq_of_height {front back below : List Frame} {frame new moved : Frame}
    (h : front ++ frame :: back = new :: moved :: below) (hlength : back.length = below.length) :
    frame = moved := by
  have hsplit : (front ++ [frame]) ++ back = ([new] ++ [moved]) ++ below := by simpa using h
  have hfront := (List.append_inj' hsplit hlength).1
  exact List.singleton_inj.1 (List.append_inj' hfront rfl).2

section Branches

variable {rules : RuleMap} {text : List Char} {item : Item} {offset : Nat}
  {below above : List Frame} {failures : FurthestFailures} {log : List Mismatch}
  {choice new : Frame}

/-- If a call moves the place of the choice right below an evaluation under way, the evaluation has
failed. -/
theorem Advanced.failure_of_moved {steps visits place : Nat} {outcome : Machine.Outcome}
    (h : Advanced rules text item offset (choice :: below) failures steps log visits outcome)
    (hfault : outcome.fault? = none) (hbranch : choice.AtBranch) (hplace : place ≠ choice.place)
    (hmoved : outcome.machine.stack = new :: { choice with place } :: below) :
    ∃ log', Evaluates rules text (.item item) offset .failure log' (visits + 1) := by
  cases h with
  | goesOn =>
    have hsame := congrArg Frame.place (Frame.eq_of_height hmoved rfl)
    exact absurd hsame.symm hplace
  | @succeeds trees stop _ _ evaluated =>
    have hgoOn : (Machine.goOn text (.running ((Derivation.listingAll trees).reverse ++
        choice :: below) (failures.recordAll _) steps) stop).machine.stack =
        new :: { choice with place } :: below := hmoved
    rcases Machine.goOn_stack text (.running ((Derivation.listingAll trees).reverse ++
      choice :: below) (failures.recordAll _) steps) stop with hnil | ⟨front, hfront⟩
    · cases hnil.symm.trans hgoOn
    · rw [Machine.settle_append (evaluated.closed_stack trivial), Machine.settle_choice hbranch,
        ← List.append_assoc] at hfront
      have hlength : (Machine.settle below).2.length = below.length := Machine.length_settle rfl
      have hsame := congrArg Frame.place
        (Frame.eq_of_height (hfront.symm.trans hgoOn) hlength)
      exact absurd hsame.symm hplace
  | fails evaluated => exact ⟨_, evaluated⟩
  | faults refused =>
    rw [refused] at hfault
    cases hfault

/-- Where a call moves the place of a choice, the evaluation of the branch in hand has come to its
end, and has failed. -/
theorem Underway.branch_fails {name : String} {calls place : Nat} {tree : OpenDerivation}
    (h : Underway rules text (.rule (.ref name)) 0 tree log calls)
    (hlisting : tree.listing = below ++ choice :: above) (hchoice : choice.isChoice = true)
    (hopen : ¬ choice.Closed) (habove : above ≠ [])
    (hfault : ((Machine.running tree.listing.reverse failures calls).advance rules text).fault? =
      none)
    (hplace : place ≠ choice.place)
    (hmoved : ((Machine.running tree.listing.reverse failures calls).advance rules
      text).machine.stack = new :: { choice with place } :: below.reverse) :
    ∃ branch started log' visits, choice.current? = some (.rule branch) ∧
      started + visits = calls + 1 ∧
      ((Machine.start name).after rules text started).frames =
        below ++ [choice, { item := .rule branch, offset := choice.offset }] ∧
      Evaluates rules text (.rule branch) choice.offset .failure log' visits := by
  obtain ⟨comes, hand, listed, stays, listing, total⟩ := h.passesThrough hlisting hopen
  obtain ⟨first, second, rest, hitem⟩ := Frame.item_of_isChoice hchoice
  rw [hitem] at stays
  obtain ⟨branch, part, making, _, _, before, since, hframe, failed, here, body, rfl, rfl⟩ :=
    stays.of_choice listing habove
  have hoffset := comes.top_offset_le (Nat.zero_le _)
  rw [hand] at hoffset
  generalize choice.offset = at' at *
  subst hframe
  -- the branch in hand was begun when the stack ended with it
  have hbegun := comes.plug hand (.choice failed here .begun)
  have hframes := (Machine.reached hbegun).2
  rw [OpenDerivation.listing_plug, listed] at hframes
  rw [Machine.advance_running, hlisting, List.reverse_append, List.reverse_cons,
    List.append_assoc, List.singleton_append] at hfault hmoved
  have hadvanced := body.transition hoffset
    (Frame.choiceAt (.choice first second rest) at' branch :: below.reverse) failures (calls + 1)
  obtain ⟨log', hfails⟩ := hadvanced.failure_of_moved hfault ⟨hchoice, branch, rfl⟩ hplace hmoved
  have hand' : (Frame.choiceAt (.choice first second rest) at' branch).current? =
      some (.rule part) := by
    show (Rule.choice first second rest).listing[2 * branch]? = some (.rule part)
    rw [Rule.listing_getElem?_branch rfl]
    exact congrArg (Option.map Item.rule) here
  exact ⟨part, _, log', since + 1, hand', by omega, hframes, hfails⟩

end Branches

/-! ## The life of a choice -/

namespace Machine

section Life

variable {rules : RuleMap} {text : List Char} {name : String} {born height calls later : Nat}
  {pushed now next : Frame}

/-- A choice that lives is the one that was pushed, but for its place, which is that of a branch, and
its mark; and as long as a walk may stop at it, the frames below are those that it was pushed on. -/
theorem Lives.same_choice (h : Lives rules text name born height calls)
    (hpushed : frameAt? rules text name height born = some pushed)
    (hchoice : pushed.isChoice = true)
    (hnow : frameAt? rules text name height calls = some now) :
    now.AtBranch ∧ now.offset = pushed.offset ∧
      (¬ now.Closed →
        framesBelow rules text name height calls = framesBelow rules text name height born) := by
  obtain ⟨place, settled, hframe, hbranch, hbelow⟩ := h.choice hpushed hchoice
  obtain rfl := Option.some.inj (hnow.symm.trans hframe)
  exact ⟨hbranch, rfl, hbelow⟩

/-- A call leaves a choice with the branch in hand that it has, and as it is if it is settled; or
moves it on to the next branch, past the separator. -/
theorem Lives.place_step (h : Lives rules text name born height calls)
    (h' : Lives rules text name born height (calls + 1))
    (hnow : frameAt? rules text name height calls = some now)
    (hnext : frameAt? rules text name height (calls + 1) = some next)
    (hbranch : now.AtBranch) :
    (next.place = now.place ∧ (now.settled = true → next = now)) ∨
      (next.place = now.place + 2 ∧ now.settled = false) := by
  obtain ⟨above, above', next', -, -, hnext', hstep⟩ := h.step h' hnow hbranch
  obtain rfl : next = next' := Option.some.inj (hnext.symm.trans hnext')
  cases hstep with
  | handsOver _ _ _ same => exact Or.inl ⟨by rw [same], fun _ => same⟩
  | rests _ same => exact Or.inl ⟨by rw [same], fun _ => same⟩
  | passed _ _ same => exact Or.inl ⟨by rw [same], fun _ => same⟩
  | settles _ _ settled =>
    refine Or.inl ⟨by rw [settled], fun hsettled => ?_⟩
    rw [settled, ← hsettled]
  | resumes _ _ _ unsettled moved => exact Or.inr ⟨by rw [moved], unsettled⟩

/-- What calls do to a choice they do to it as long as it lives. -/
theorem Lives.induct {motive : Frame → Prop} (h : Lives rules text name born height later)
    (hle : calls ≤ later) (hborn : Lives rules text name born height calls)
    (hpushed : frameAt? rules text name height born = some pushed)
    (hchoice : pushed.isChoice = true)
    (hnow : frameAt? rules text name height calls = some now) (hstart : motive now)
    (hstep : ∀ now next : Frame, motive now →
      ((next.place = now.place ∧ (now.settled = true → next = now)) ∨
        (next.place = now.place + 2 ∧ now.settled = false)) → motive next)
    (hnext : frameAt? rules text name height later = some next) : motive next := by
  induction hle generalizing next with
  | refl =>
    obtain rfl : now = next := Option.some.inj (hnow.symm.trans hnext)
    exact hstart
  | @step later hle ih =>
    have hlives := h.of_le (Nat.le_trans hborn.born_le hle) (Nat.le_succ _)
    obtain ⟨place, settled, hframe, hbranch, -⟩ := hlives.choice hpushed hchoice
    exact hstep _ _ (ih hlives hframe) (hlives.place_step h hframe hnext hbranch)

/-- A frame that is pushed right above a choice is of its branch in hand, which the choice has
handed over to from the top of the stack, or has just moved on to. -/
theorem Lives.start_step (h : Lives rules text name born height (calls + 1))
    (hnew : Lives rules text name (calls + 1) (height + 1) (calls + 1))
    (hpushed : frameAt? rules text name height born = some pushed)
    (hchoice : pushed.isChoice = true) :
    ∃ now next branch, Lives rules text name born height calls ∧
      frameAt? rules text name height calls = some now ∧
      frameAt? rules text name height (calls + 1) = some next ∧
      next.current? = some (.rule branch) ∧
      frameAt? rules text name (height + 1) (calls + 1) =
        some { item := .rule branch, offset := pushed.offset } ∧
      (((start name).after rules text calls).frames.length = height + 1 ∨
        next.place = now.place + 2) := by
  obtain ⟨hkept, hpush⟩ := hnew.new
  have hlives : Lives rules text name born height calls := by
    rcases h.succ_cases with ⟨hlives, -⟩ | ⟨-, hheight, -⟩
    · exact hlives
    · omega
  obtain ⟨place, settled, hnow, hbranch, -⟩ := hlives.choice hpushed hchoice
  obtain ⟨above, above', next, hstack, hstack', hnext, hstep⟩ := hlives.step h hnow hbranch
  obtain ⟨-, -, hlength⟩ := getElem?_of_stack hstack
  obtain ⟨-, -, hlength'⟩ := getElem?_of_stack hstack'
  have hbelow : (framesBelow rules text name height calls).reverse.length = height := by
    rw [List.length_reverse, length_framesBelow hnow]
  have hbelow' : (framesBelow rules text name height (calls + 1)).reverse.length = height := by
    rw [List.length_reverse, length_framesBelow hnext]
  -- the frame above the choice is the only one
  have hone : above'.length = 1 := by
    have hunvisited := hnew.unvisited.1
    omega
  have habove : ∀ frame, above' = [frame] →
      frameAt? rules text name (height + 1) (calls + 1) = some frame := by
    rintro frame rfl
    have htop : ((start name).after rules text (calls + 1)).stack =
      [] ++ frame :: next :: (framesBelow rules text name height (calls + 1)).reverse := hstack'
    have hframe := (getElem?_of_stack htop).1
    rw [List.length_cons, hbelow'] at hframe
    exact hframe
  cases hstep with
  | handsOver onTop hand started same =>
    refine ⟨_, next, _, hlives, hnow, hnext, same ▸ hand, habove _ started, Or.inl ?_⟩
    rw [hlength, hbelow, onTop]
    rfl
  | rests new => exact absurd (new hpush) (by omega)
  | passed new => exact absurd (new hpush) (by omega)
  | settles new => exact absurd (new hpush) (by omega)
  | resumes _ _ _ _ moved hand started =>
    exact ⟨_, next, _, hlives, hnow, hnext, hand, habove _ started, Or.inr (by rw [moved])⟩

/-- A choice that has been there for a while is not on top when a call pushes a frame. -/
theorem Lives.not_top (h : Lives rules text name born height calls) (hborn : born < calls)
    (hpush : (((start name).after rules text calls).advance rules text).pushes = true) :
    ((start name).after rules text calls).frames.length ≠ height + 1 := by
  intro hlength
  cases calls with
  | zero => exact Nat.not_lt_zero _ hborn
  | succ calls =>
    -- the call before has pushed the frame on top
    obtain ⟨tree, log, hunderway, -⟩ := underway_of_pushes hpush
    have hpushed := pushes_of_underway hunderway
    have hkept := (kept_le rules text ((start name).after rules text calls)).2
    rw [← after_succ, hlength, if_pos hpushed] at hkept
    have hnew := origins_succ_new hpushed
    rw [← Nat.succ.inj hkept] at hnew
    rw [Lives, hnew] at h
    have hsame : calls + 1 = born := Option.some.inj h
    omega

/-- A frame right above a choice was pushed after it. -/
theorem Lives.lt_of_start (h : Lives rules text name born height calls)
    (hborn : Lives rules text name born height born)
    (hnew : Lives rules text name calls (height + 1) calls) : born < calls := by
  refine Nat.lt_of_le_of_ne h.born_le ?_
  rintro rfl
  have hheight := hborn.unvisited.1.symm.trans hnew.unvisited.1
  omega

/-- A branch that is started later comes after those that were started before. -/
theorem Lives.place_lt (hborn : Lives rules text name born height born)
    (hpushed : frameAt? rules text name height born = some pushed)
    (hchoice : pushed.isChoice = true) (hlt : calls < later)
    (h : Lives rules text name born height calls)
    (hnew : Lives rules text name calls (height + 1) calls)
    (h' : Lives rules text name born height later)
    (hnew' : Lives rules text name later (height + 1) later)
    (hnow : frameAt? rules text name height calls = some now)
    (hnext : frameAt? rules text name height later = some next) : now.place < next.place := by
  obtain ⟨last, rfl⟩ := Nat.exists_eq_succ_of_ne_zero (Nat.ne_zero_of_lt hlt)
  obtain ⟨before, after, branch, hbefore, hframe, hafter, -, -, hstart⟩ :=
    h'.start_step hnew' hpushed hchoice
  obtain rfl := Option.some.inj (hnext.symm.trans hafter)
  have hle : now.place ≤ before.place :=
    hbefore.induct (motive := fun frame => now.place ≤ frame.place) (Nat.le_of_lt_succ hlt) h
      hpushed hchoice hnow (Nat.le_refl _) (fun _ _ hle hstep => by omega) hframe
  rcases hstart with htop | hplace
  · -- the choice handed over from the top of the stack before its first branch was started
    have hlater : born < last :=
      Nat.lt_of_lt_of_le (h.lt_of_start hborn hnew) (Nat.le_of_lt_succ hlt)
    exact absurd htop (hbefore.not_top hlater hnew'.new.2)
  · omega

/-- Where the place of a choice moves, the evaluation of its branch in hand fails, and the frames
below stay as they are. -/
theorem Lives.moved (h : Lives rules text name born height calls)
    (h' : Lives rules text name born height (calls + 1))
    (hnow : frameAt? rules text name height calls = some now)
    (hnext : frameAt? rules text name height (calls + 1) = some next)
    (hbranch : now.AtBranch) (hmoved : next.place ≠ now.place) :
    ¬ now.Closed ∧
      framesBelow rules text name height (calls + 1) = framesBelow rules text name height calls ∧
      ∃ branch started log visits, now.current? = some (.rule branch) ∧
        started + visits = calls + 1 ∧
        ((start name).after rules text started).frames =
          framesBelow rules text name height calls ++
            [now, { item := .rule branch, offset := now.offset }] ∧
        Evaluates rules text (.rule branch) now.offset .failure log visits := by
  obtain ⟨above, above', next', hstack, hstack', hnext', hstep⟩ := h.step h' hnow hbranch
  obtain rfl : next = next' := Option.some.inj (hnext.symm.trans hnext')
  cases hstep with
  | handsOver _ _ _ same => exact absurd (congrArg Frame.place same) hmoved
  | rests _ same => exact absurd (congrArg Frame.place same) hmoved
  | passed _ _ same => exact absurd (congrArg Frame.place same) hmoved
  | settles _ _ settled => exact absurd (congrArg Frame.place settled) hmoved
  | resumes new under left unsettled moved hand started kept =>
    have hopen := Frame.not_closed left unsettled
    refine ⟨hopen, List.reverse_inj.1 kept, ?_⟩
    obtain ⟨tree, log, hunderway, hmachine⟩ := underway_of_pushes new
    have hlisting : tree.listing =
        framesBelow rules text name height calls ++ now :: above.reverse := by
      have hframes := congrArg List.reverse hstack
      rw [hmachine] at hframes
      simpa using hframes
    rw [started, moved, kept, after_succ, hmachine] at hstack'
    have hfault := (pushes_iff.1 new).1
    rw [hmachine] at hfault
    exact hunderway.branch_fails hlisting hbranch.choice hopen (by simpa using under) hfault
      (by omega) hstack'

/-- From its push to its pop a choice tries its branches in their order, each once and from its own
offset, and the next one only where the one in hand has failed; once it is settled it stays as it
is; and the next branch finds the frames below as they were when the choice was pushed. -/
theorem life_of_choice (rules : RuleMap) (text : List Char) (name : String) {born height : Nat}
    {pushed : Frame} (hborn : Lives rules text name born height born)
    (hpushed : frameAt? rules text name height born = some pushed)
    (hchoice : pushed.isChoice = true) : ChoiceLife rules text name born height pushed where
  first := by
    obtain ⟨-, item, offset, hframe⟩ := hborn.unvisited
    obtain rfl := Option.some.inj (hpushed.symm.trans hframe)
    exact ⟨rfl, rfl⟩
  stays := by
    intro calls hlives
    obtain ⟨place, settled, hframe, -⟩ := hlives.choice hpushed hchoice
    exact ⟨place, settled, hframe⟩
  inOrder := by
    intro calls now next hlives hlives' hnow hnext
    obtain ⟨hbranch, -⟩ := hlives.same_choice hpushed hchoice hnow
    rcases hlives.place_step hlives' hnow hnext hbranch with ⟨hstays, -⟩ | ⟨hmoves, -⟩
    · exact Or.inl hstays
    · exact Or.inr hmoves
  starts := by
    intro calls now hlives hnew hnow
    obtain ⟨last, rfl⟩ := Nat.exists_eq_succ_of_ne_zero
      (Nat.ne_zero_of_lt (hlives.lt_of_start hborn hnew))
    obtain ⟨_, next, branch, -, -, hnext, hbranch, hframe, -⟩ :=
      hlives.start_step hnew hpushed hchoice
    obtain rfl := Option.some.inj (hnow.symm.trans hnext)
    exact ⟨branch, hbranch, hframe⟩
  once := by
    intro calls later now next hlt hlives hnew hlives' hnew' hnow hnext
    exact hborn.place_lt hpushed hchoice hlt hlives hnew hlives' hnew' hnow hnext
  failed := by
    intro calls now next hlives hlives' hnow hnext hmoved
    obtain ⟨hbranch, hoffset, -⟩ := hlives.same_choice hpushed hchoice hnow
    obtain ⟨-, -, branch, started, log, visits, hfails⟩ :=
      hlives.moved hlives' hnow hnext hbranch hmoved
    rw [hoffset] at hfails
    exact ⟨branch, started, log, visits, hfails⟩
  committed := by
    intro calls later now next hle hlives hlives' hnow hnext hsettled
    refine hlives'.induct (motive := fun frame => frame = now) hle hlives hpushed hchoice hnow rfl
      ?_ hnext
    rintro frame next rfl (⟨-, hsame⟩ | ⟨-, hunsettled⟩)
    · exact hsame hsettled
    · rw [hsettled] at hunsettled
      cases hunsettled
  restored := by
    intro calls now next hlives hlives' hnow hnext hmoved
    obtain ⟨hbranch, -, hbelow⟩ := hlives.same_choice hpushed hchoice hnow
    obtain ⟨hopen, hkept, -⟩ := hlives.moved hlives' hnow hnext hbranch hmoved
    exact ⟨hbelow hopen, hkept.trans (hbelow hopen)⟩

end Life

end Machine

end AnyLibrary

namespace Machine

theorem life_of_choice_sample :
    ∃ pushed now next, Lives RuleMap.sample ['b'] "S" 1 1 1 ∧
      frameAt? RuleMap.sample ['b'] "S" 1 1 = some pushed ∧ pushed.isChoice = true ∧
      ChoiceLife RuleMap.sample ['b'] "S" 1 1 pushed ∧
      frameAt? RuleMap.sample ['b'] "S" 1 3 = some now ∧
      frameAt? RuleMap.sample ['b'] "S" 1 4 = some next ∧ next.place ≠ now.place :=
  have hborn : Lives RuleMap.sample ['b'] "S" 1 1 1 := by decide
  have hmoved : 2 ≠ 0 := by decide
  ⟨_, _, _, hborn, rfl, rfl, life_of_choice RuleMap.sample ['b'] "S" hborn rfl rfl, rfl, rfl,
    hmoved⟩

end Machine

end PegMachine
