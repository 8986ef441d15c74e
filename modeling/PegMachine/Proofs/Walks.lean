import PegMachine.Machine.Run
import PegMachine.Semantics.Derivation

/-!
# The walks over a stack

After a success a machine walks down its stack to the nearest frame that an element follows, after a
failure to the nearest one that is not settled and has a separator left. A frame at which neither
walk stops is `Closed`, and the frames of a derivation are. So what a machine does after a verdict
depends only on the first frame below the closed ones:

* a sequence with an element left takes it in hand (`goOn_sequenceAt`), and a failure drops it;
* a choice whose branch has succeeded becomes closed (`goOn_choiceAt`), and after a failure it
  starts the next branch (`backtrack_choiceAt`), if there is one;
* if all frames are closed the machine finishes (`goOn_of_closed`, `backtrack_nil`).
-/

namespace PegMachine

variable [RegexLibrary]

namespace Frame

/-! ## What follows a frame -/

section Following

variable {frame : Frame} {marker : Nat}

/-- Where nothing follows a frame there is no separator left. -/
theorem nextMarker?_of_following_none (h : frame.following? = none) : frame.nextMarker? = none := by
  unfold nextMarker?
  unfold following? listed? at h
  split
  · next r hitem =>
    simp only [hitem] at h
    rw [List.drop_eq_nil_of_le (List.getElem?_eq_none_iff.1 h)]
    rfl
  · rfl

/-- A separator that follows a frame is the first one left. -/
theorem nextMarker?_of_following_separator (h : frame.following? = some .separator) :
    frame.nextMarker? = some (frame.place + 1) := by
  unfold nextMarker?
  unfold following? listed? at h
  split
  · next r hitem =>
    simp only [hitem] at h
    obtain ⟨hlt, hget⟩ := List.getElem?_eq_some_iff.1 h
    rw [List.drop_eq_getElem_cons hlt, hget]
    simp [List.findIdx?_cons, Item.isSeparator]
  · next hitem =>
    split at h
    · next r hrule => exact absurd hrule (hitem r)
    · cases h

/-- The next separator stands behind the place of the frame. -/
theorem listed?_nextMarker (h : frame.nextMarker? = some marker) :
    frame.place < marker ∧ frame.listed? marker = some .separator := by
  unfold nextMarker? at h
  unfold listed?
  split at h
  · next r hitem =>
    obtain ⟨i, hfound, rfl⟩ := Option.map_eq_some_iff.1 h
    obtain ⟨hlt, hseparator, -⟩ := List.findIdx?_eq_some_iff_getElem.1 hfound
    refine ⟨by omega, ?_⟩
    rw [List.getElem_drop] at hseparator
    rw [List.length_drop] at hlt
    rw [List.getElem?_eq_getElem (by omega)]
    cases hitem : r.listing[frame.place + 1 + i] with
    | separator => rfl
    | rule => simp [hitem, Item.isSeparator] at hseparator
    | atom => simp [hitem, Item.isSeparator] at hseparator
  · cases h

/-- Only a choice has separators, at odd places of its listing, and a branch behind each of them. -/
theorem listed?_separator {place : Nat} (h : frame.listed? place = some .separator) :
    frame.isChoice = true ∧ ∃ branch part, place = 2 * branch + 1 ∧
      frame.listed? (place + 1) = some (.rule part) := by
  unfold listed? at h ⊢
  split at h
  · next r hitem =>
    simp only [hitem, isChoice]
    cases hchoice : r.isChoice with
    | false =>
      rw [r.listing_getElem?_part hchoice] at h
      obtain ⟨part, -, hpart⟩ := Option.map_eq_some_iff.1 h
      cases hpart
    | true =>
      refine ⟨rfl, ?_⟩
      obtain ⟨branch, rfl | rfl⟩ : ∃ branch, place = 2 * branch ∨ place = 2 * branch + 1 :=
        ⟨place / 2, by omega⟩
      · rw [r.listing_getElem?_branch hchoice] at h
        obtain ⟨part, -, hpart⟩ := Option.map_eq_some_iff.1 h
        cases hpart
      · rw [r.listing_getElem?_separator hchoice] at h
        split at h
        · next hlt =>
          refine ⟨branch, r.parts[branch + 1], rfl, ?_⟩
          rw [Nat.add_assoc, ← Nat.mul_succ, r.listing_getElem?_branch hchoice,
            List.getElem?_eq_getElem hlt]
          rfl
        · cases h
  · cases h

/-- At its next separator a choice is followed by a branch. -/
theorem following?_nextMarker (h : frame.nextMarker? = some marker) :
    ∃ branch, { frame with place := marker }.following? = some (.rule branch) := by
  obtain ⟨-, -, part, -, hpart⟩ := listed?_separator (listed?_nextMarker h).2
  exact ⟨part, hpart⟩

end Following

/-! ## Closed frames -/

/-- A frame at which no walk over the stack stops, and that none changes: nothing follows it, or it
is settled and a separator follows. -/
def Closed (frame : Frame) : Prop :=
  frame.following? = none ∨ (frame.following? = some .separator ∧ frame.settled = true)

theorem closed_reference (name : String) (offset : Nat) : (reference name offset).Closed :=
  Or.inl rfl

theorem closed_terminal (matcher : Matcher) (offset : Nat) (value : List Char) :
    (terminal matcher offset value).Closed :=
  Or.inl rfl

theorem closed_sequence (first : Rule) (rest : List Rule) (offset : Nat) :
    (sequence first rest offset).Closed := by
  refine Or.inl ?_
  show (Rule.seq first rest).listing[rest.length + 1]? = none
  rw [Rule.listing_getElem?_part rfl]
  simp [Rule.parts]

theorem closed_choice {rule : Rule} (h : rule.isChoice = true) (offset branch : Nat) :
    (choice rule offset branch).Closed := by
  have hfollowing : (choice rule offset branch).following? =
      if branch + 1 < rule.parts.length then some .separator else none :=
    rule.listing_getElem?_separator h branch
  by_cases hb : branch + 1 < rule.parts.length
  · exact Or.inr ⟨hfollowing.trans (if_pos hb), by simpa [choice] using hb⟩
  · exact Or.inl (hfollowing.trans (if_neg hb))

/-- A walk may stop at a frame that is not settled and that something follows. -/
theorem not_closed {frame : Frame} {next : Item} (left : frame.following? = some next)
    (unsettled : frame.settled = false) : ¬ frame.Closed := by
  rintro (hnone | ⟨-, hsettled⟩)
  · rw [left] at hnone
    cases hnone
  · rw [unsettled] at hsettled
    cases hsettled

/-- The frame of a sequence with the given element in hand. -/
def sequenceAt (first : Rule) (rest : List Rule) (offset cursor : Nat) : Frame :=
  { item := .rule (.seq first rest), offset, place := cursor }

/-- The frame of a choice with the given branch in hand. -/
def choiceAt (rule : Rule) (offset branch : Nat) : Frame :=
  { item := .rule rule, offset, place := 2 * branch }

/-- A sequence with its last element in hand is the frame of the whole sequence. -/
theorem sequenceAt_last {first : Rule} {rest : List Rule} {offset cursor : Nat}
    (hcursor : cursor < (first :: rest).length) (hlast : (first :: rest)[cursor + 1]? = none) :
    sequenceAt first rest offset cursor = sequence first rest offset := by
  have hlen := List.getElem?_eq_none_iff.1 hlast
  have heq : cursor = rest.length := by
    simp only [List.length_cons] at hcursor hlen
    omega
  rw [heq]
  rfl

/-- An element follows a sequence that has one left. -/
theorem following?_sequenceAt (first : Rule) (rest : List Rule) (offset cursor : Nat) :
    (sequenceAt first rest offset cursor).following? =
      (first :: rest)[cursor + 1]?.map Item.rule :=
  Rule.listing_getElem?_part rfl (cursor + 1)

/-- A separator follows a choice that has a branch left. -/
theorem following?_choiceAt {rule : Rule} (h : rule.isChoice = true) (offset branch : Nat) :
    (choiceAt rule offset branch).following? =
      if branch + 1 < rule.parts.length then some .separator else none :=
  rule.listing_getElem?_separator h branch

end Frame

namespace Machine

/-- A running machine with the given stack. -/
abbrev running (stack : List Frame) (failures : FurthestFailures) (steps : Nat) : Machine :=
  { stack, failures, steps }

theorem stack_running (stack : List Frame) (failures : FurthestFailures) (steps : Nat) :
    (running stack failures steps).stack = stack := rfl

/-- Puts events in front of what happened. -/
def tellingAll (events : List Event) (outcome : Outcome) : Outcome :=
  { outcome with events := events ++ outcome.events }

section Walks

variable {closed stack below : List Frame} {failures : FurthestFailures} {steps : Nat}
  {text : List Char} {stop : Nat}

/-- The walk after a success, one frame further down. -/
theorem settle_cons (frame : Frame) (below : List Frame) :
    settle (frame :: below) =
      match frame.following? with
      | none => ((settle below).1, frame :: (settle below).2)
      | some .separator => ((settle below).1, { frame with settled := true } :: (settle below).2)
      | some next => (some next, { frame with place := frame.place + 1 } :: below) :=
  rfl

/-- Where the walk after a success stops, it has not come to the frames below. -/
theorem settle_append_of_stops {next : Item} (h : (settle stack).1 = some next) :
    settle (stack ++ below) = (some next, (settle stack).2 ++ below) := by
  induction stack with
  | nil => cases h
  | cons f rest ih =>
    rw [settle_cons] at h
    rw [List.cons_append, settle_cons, settle_cons]
    split
    · next hnone =>
      simp only [hnone] at h
      simp [ih h]
    · next hseparator =>
      simp only [hseparator] at h
      simp [ih h]
    · next element helement hnext =>
      simp only [hnext] at h
      cases h
      rfl

/-- Where the walk after a success does not stop, it goes on with the frames below. -/
theorem settle_append_of_passes (h : (settle stack).1 = none) :
    settle (stack ++ below) = ((settle below).1, (settle stack).2 ++ (settle below).2) := by
  induction stack with
  | nil => rfl
  | cons f rest ih =>
    rw [settle_cons] at h
    rw [List.cons_append, settle_cons, settle_cons]
    split
    · next hnone =>
      simp only [hnone] at h
      simp [ih h]
    · next hseparator =>
      simp only [hseparator] at h
      simp [ih h]
    · next element helement hnext =>
      simp only [hnext] at h
      cases h

/-- Where the walk after a failure stops, it has not come to the frames below. -/
theorem retreat_append_of_stops {choice : Frame} {rest : List Frame}
    (h : retreat stack = some (choice, rest)) :
    retreat (stack ++ below) = some (choice, rest ++ below) := by
  induction stack with
  | nil => cases h
  | cons f others ih =>
    rw [retreat] at h
    rw [List.cons_append, retreat]
    split at h
    · next hopen _ =>
      cases h
      simp only [hopen]
    · exact ih h

/-- Where the walk after a failure does not stop, it goes on with the frames below. -/
theorem retreat_append_of_passes (h : retreat stack = none) :
    retreat (stack ++ below) = retreat below := by
  induction stack with
  | nil => rfl
  | cons f others ih =>
    rw [retreat] at h
    rw [List.cons_append, retreat]
    split
    · next hopen hmarker =>
      simp only [hopen, hmarker] at h
      cases h
    · next hpass =>
      split at h
      · cases h
      · exact ih h

/-- The walk after a success leaves closed frames as they are. -/
theorem settle_of_closed (h : ∀ f ∈ closed, f.Closed) : settle closed = (none, closed) := by
  induction closed with
  | nil => rfl
  | cons f rest ih =>
    have hclosed : ∀ g ∈ rest, g.Closed := by
      intro g hg
      exact h g (List.mem_cons_of_mem _ hg)
    rw [settle_cons, ih hclosed]
    rcases h f List.mem_cons_self with hnone | ⟨hseparator, hsettled⟩
    · simp only [hnone]
    · have hsame : { f with settled := true } = f := by rw [← hsettled]
      simp only [hseparator, hsame]

/-- The walk after a failure does not stop at closed frames. -/
theorem retreat_of_closed (h : ∀ f ∈ closed, f.Closed) : retreat closed = none := by
  induction closed with
  | nil => rfl
  | cons f rest ih =>
    have hclosed : ∀ g ∈ rest, g.Closed := by
      intro g hg
      exact h g (List.mem_cons_of_mem _ hg)
    have hrest := ih hclosed
    rw [retreat]
    rcases h f List.mem_cons_self with hnone | ⟨-, hsettled⟩
    · simp [Frame.nextMarker?_of_following_none hnone, hrest]
    · simp [hsettled, hrest]

theorem settle_append (h : ∀ f ∈ closed, f.Closed) :
    settle (closed ++ below) = ((settle below).1, closed ++ (settle below).2) := by
  have hsettle := settle_of_closed h
  rw [settle_append_of_passes (congrArg Prod.fst hsettle), hsettle]

theorem retreat_append (h : ∀ f ∈ closed, f.Closed) :
    retreat (closed ++ below) = retreat below :=
  retreat_append_of_passes (retreat_of_closed h)

/-- The walk after a failure stops at a choice that is not settled, and leaves it at its next
separator. -/
theorem retreat_eq_some {choice : Frame} (h : retreat stack = some (choice, below)) :
    ∃ above found marker, stack = above ++ found :: below ∧ found.isChoice = true ∧
      found.settled = false ∧ found.nextMarker? = some marker ∧
      choice = { found with place := marker } := by
  induction stack with
  | nil => cases h
  | cons frame rest ih =>
    rw [retreat] at h
    split at h
    · next marker hopen hmarker =>
      cases h
      have hchoice := (Frame.listed?_separator (Frame.listed?_nextMarker hmarker).2).1
      exact ⟨[], frame, marker, rfl, hchoice, hopen, hmarker, rfl⟩
    · obtain ⟨above, found, marker, rfl, hfound⟩ := ih h
      exact ⟨frame :: above, found, marker, rfl, hfound⟩

/-- A branch stands behind the separator at which the walk after a failure leaves a choice. -/
theorem following?_of_retreat {choice : Frame} (h : retreat stack = some (choice, below)) :
    ∃ branch, choice.following? = some (.rule branch) := by
  obtain ⟨above, found, marker, -, -, -, hmarker, rfl⟩ := retreat_eq_some h
  exact Frame.following?_nextMarker hmarker

/-- A choice that is resumed hands over to the branch behind its separator. -/
theorem backtrack_of_retreat {machine : Machine} {choice : Frame} {branch : Rule}
    (h : retreat machine.stack = some (choice, below))
    (behind : choice.following? = some (.rule branch)) :
    machine.backtrack = tellingAll [.resumed choice, .matched none choice.offset choice.offset]
      ({ machine with stack := { choice with place := choice.place + 1 } :: below }.push
        (.rule branch) choice.offset) := by
  simp only [backtrack, h, settle_cons, behind]
  rfl

/-- A machine goes back from what the walk after a failure leaves. -/
theorem backtrack_congr {other : List Frame} (h : retreat stack = retreat other) :
    (running stack failures steps).backtrack = (running other failures steps).backtrack := by
  simp only [backtrack, h]

theorem backtrack_nil :
    (running [] failures steps).backtrack =
      { machine := { stack := [], failures, status := .rejected, steps }
        events := [.rejected steps failures] } :=
  rfl

/-- A machine with closed frames only finishes: it accepts a text that has come to its end, and
rejects what is left over. -/
theorem goOn_of_closed (h : ∀ f ∈ stack, f.Closed) :
    (running stack failures steps).goOn text stop =
      if stop = text.length then
        { machine := { stack, failures := .empty, status := .accepted, steps }
          events := [.accepted steps] }
      else
        { machine := { stack := [], failures := failures.record stop endOfInputMessage
                       status := .rejected, steps }
          events := [.failed stop endOfInputMessage,
            .rejected steps (failures.record stop endOfInputMessage)] } := by
  have hsettle := settle_of_closed h
  have hretreat := retreat_of_closed h
  simp only [goOn, hsettle, fail, backtrack, hretreat, Outcome.tell]

/-! ## No walk is refused -/

theorem backtrack_fault? (machine : Machine) : machine.backtrack.fault? = none := by
  cases hwalk : retreat machine.stack with
  | none => simp only [backtrack, hwalk]
  | some found =>
    obtain ⟨branch, hbranch⟩ := following?_of_retreat hwalk
    rw [backtrack_of_retreat hwalk hbranch]
    rfl

theorem fail_fault? (machine : Machine) (offset : Nat) (message : String) :
    (machine.fail offset message).fault? = none :=
  backtrack_fault? _

theorem goOn_fault? (text : List Char) (machine : Machine) (offset : Nat) :
    (machine.goOn text offset).fault? = none := by
  unfold goOn
  split
  · rfl
  · split
    · rfl
    · exact fail_fault? _ _ _

theorem succeed_fault? (text : List Char) (machine : Machine) (top : Frame) (below : List Frame)
    (value : List Char) : (machine.succeed text top below value).fault? = none :=
  goOn_fault? _ _ _

/-! ## Sequences -/

/-- A sequence with an element left takes it in hand. -/
theorem goOn_sequenceAt {first next : Rule} {rest : List Rule} {offset cursor : Nat}
    (h : ∀ f ∈ closed, f.Closed) (hnext : (first :: rest)[cursor + 1]? = some next) :
    (running (closed ++ Frame.sequenceAt first rest offset cursor :: below) failures steps).goOn
        text stop =
      (running (closed ++ Frame.sequenceAt first rest offset (cursor + 1) :: below) failures
        steps).push (.rule next) stop := by
  have hfollowing : (Frame.sequenceAt first rest offset cursor).following? =
      some (.rule next) := by
    rw [Frame.following?_sequenceAt, hnext]
    rfl
  have hsettle : settle (Frame.sequenceAt first rest offset cursor :: below) =
      (some (.rule next), Frame.sequenceAt first rest offset (cursor + 1) :: below) := by
    simp only [settle_cons, hfollowing]
    rfl
  simp only [goOn, settle_append h, hsettle]

/-- The walk after a failure drops a sequence and what is done of it. -/
theorem backtrack_sequenceAt {first : Rule} {rest : List Rule} {offset cursor : Nat}
    (h : ∀ f ∈ closed, f.Closed) :
    (running (closed ++ Frame.sequenceAt first rest offset cursor :: below) failures
        steps).backtrack =
      (running below failures steps).backtrack := by
  have hmarker : (Frame.sequenceAt first rest offset cursor).nextMarker? = none := by
    refine Option.eq_none_iff_forall_ne_some.2 fun marker hmarker => ?_
    cases (Frame.listed?_separator (Frame.listed?_nextMarker hmarker).2).1
  apply backtrack_congr
  rw [retreat_append h]
  simp [retreat, hmarker]

/-- The walk after a failure drops a closed frame. -/
theorem backtrack_closed {frame : Frame} (h : frame.Closed) :
    (running (frame :: below) failures steps).backtrack =
      (running below failures steps).backtrack := by
  have hall : ∀ f ∈ [frame], f.Closed := by
    intro f hf
    rw [List.mem_singleton.1 hf]
    exact h
  exact backtrack_congr (retreat_append hall)

/-! ## Choices -/

/-- A choice whose branch in hand has succeeded is closed. -/
theorem goOn_choiceAt {rule : Rule} {offset branch : Nat} (hchoice : rule.isChoice = true)
    (h : ∀ f ∈ closed, f.Closed) :
    (running (closed ++ Frame.choiceAt rule offset branch :: below) failures steps).goOn text stop =
      (running (closed ++ Frame.choice rule offset branch :: below) failures steps).goOn text
        stop := by
  have hfollowing := Frame.following?_choiceAt hchoice offset branch
  have hfollowing' : (Frame.choice rule offset branch).following? =
      if branch + 1 < rule.parts.length then some .separator else none := hfollowing
  have hsettle : settle (Frame.choiceAt rule offset branch :: below) =
      settle (Frame.choice rule offset branch :: below) := by
    by_cases hnext : branch + 1 < rule.parts.length
    · rw [if_pos hnext] at hfollowing hfollowing'
      simp only [settle_cons, hfollowing, hfollowing']
      rfl
    · rw [if_neg hnext] at hfollowing hfollowing'
      simp only [settle_cons, hfollowing, hfollowing']
      simp [Frame.choiceAt, Frame.choice, hnext]
  simp only [goOn, settle_append h, hsettle]

/-- A choice whose branch in hand has failed starts the next one at its own offset. -/
theorem backtrack_choiceAt {rule next : Rule} {offset branch : Nat} (hchoice : rule.isChoice = true)
    (hnext : rule.parts[branch + 1]? = some next) :
    (running (Frame.choiceAt rule offset branch :: below) failures steps).backtrack =
      tellingAll [.resumed { item := .rule rule, offset, place := 2 * branch + 1 },
          .matched none offset offset]
        ((running (Frame.choiceAt rule offset (branch + 1) :: below) failures steps).push
          (.rule next) offset) := by
  have hlt := (List.getElem?_eq_some_iff.1 hnext).1
  have hmarker : (Frame.choiceAt rule offset branch).nextMarker? = some (2 * branch + 1) := by
    apply Frame.nextMarker?_of_following_separator
    rw [Frame.following?_choiceAt hchoice, if_pos hlt]
  have hretreat : retreat (Frame.choiceAt rule offset branch :: below) =
      some ({ item := .rule rule, offset, place := 2 * branch + 1 }, below) := by
    rw [retreat, hmarker]
    rfl
  have hbranch : Frame.following? { item := .rule rule, offset, place := 2 * branch + 1 } =
      some (.rule next) := by
    show rule.listing[2 * (branch + 1)]? = some (.rule next)
    rw [rule.listing_getElem?_branch hchoice, hnext]
    rfl
  simp only [backtrack, hretreat, settle_cons, hbranch]
  rfl

/-- A choice whose last branch has failed is dropped. -/
theorem backtrack_choiceAt_last {rule : Rule} {offset branch : Nat} (hchoice : rule.isChoice = true)
    (hlast : rule.parts[branch + 1]? = none) :
    (running (Frame.choiceAt rule offset branch :: below) failures steps).backtrack =
      (running below failures steps).backtrack := by
  refine backtrack_closed (Or.inl ?_)
  rw [Frame.following?_choiceAt hchoice, if_neg (Nat.not_lt.2 (List.getElem?_eq_none_iff.1 hlast))]

end Walks

end Machine

end PegMachine
