import Mathlib.Data.List.Chain
import PegMachine.Proofs.Derivations
import PegMachine.Regex.Backtracking

/-!
# The stack of a running machine

At all times the frames of a running machine are an open derivation of the start name, every node
before what stands under it (`Machine.stack_of_running`). The frame on top has not been visited. A
frame below it is `Frame.Regular`: it has a value if and only if it is of a terminal, a place where a
part stands, and is settled if and only if it is of a choice whose branch in hand is complete while
another is left. A reference has the frame of what it names right above it (`HandsOver`).

Both come from the recursive evaluation: of complete derivations by induction on `Derives`, of open
ones by induction on `Underway`.
-/

namespace PegMachine

section AnyLibrary

variable [RegexLibrary]

/-! ## Frames as the machine leaves them -/

namespace Frame

/-- A frame is as the machine leaves it, given whether what stands under it is complete. -/
structure Regular (frame : Frame) (complete : Bool) : Prop where
  /-- The frames with a value are those of terminals. -/
  value : frame.value.isSome = true ↔ ∃ matcher, frame.item = .rule (.terminal matcher)
  /-- At the place of a sequence or choice stands one of its parts. -/
  hand : ∀ rule, frame.item = .rule rule → rule.isComposite = true →
    ∃ part ∈ rule.parts, rule.listing[frame.place]? = some (.rule part)
  even : frame.isChoice = true → frame.place % 2 = 0
  /-- The settled frames are those of choices with a complete branch before another one. -/
  settled : frame.settled = true ↔ complete = true ∧ frame.isChoice = true ∧
    ∃ branch, frame.listed? (frame.place + 2) = some (.rule branch)

/-- A sequence has its element in hand at its place. -/
theorem hand_sequenceAt {first part : Rule} {rest : List Rule} {cursor : Nat} (offset : Nat)
    (here : (first :: rest)[cursor]? = some part) :
    part ∈ first :: rest ∧
      (sequenceAt first rest offset cursor).current? = some (.rule part) := by
  refine ⟨List.mem_of_getElem? here, ?_⟩
  show (Rule.seq first rest).listing[cursor]? = some (.rule part)
  rw [Rule.listing_getElem?_part rfl]
  exact congrArg (Option.map Item.rule) here

/-- A choice has its branch in hand at its place. -/
theorem hand_choiceAt {rule part : Rule} {branch : Nat} (hchoice : rule.isChoice = true)
    (offset : Nat) (here : rule.parts[branch]? = some part) :
    part ∈ rule.parts ∧ (choiceAt rule offset branch).current? = some (.rule part) := by
  refine ⟨List.mem_of_getElem? here, ?_⟩
  show rule.listing[2 * branch]? = some (.rule part)
  rw [rule.listing_getElem?_branch hchoice, here]
  rfl

theorem regular_reference (name : String) (offset : Nat) (complete : Bool) :
    (reference name offset).Regular complete where
  value := by simp [reference]
  hand := by
    rintro _ ⟨⟩ hcomposite
    cases hcomposite
  even := nofun
  settled := by simp [reference, isChoice, Rule.isChoice]

theorem regular_terminal (matcher : Matcher) (offset : Nat) (value : List Char) :
    (terminal matcher offset value).Regular true where
  value := by simp [terminal]
  hand := by
    rintro _ ⟨⟩ hcomposite
    cases hcomposite
  even := nofun
  settled := by simp [terminal, isChoice, Rule.isChoice]

theorem regular_sequenceAt {first part : Rule} {rest : List Rule} {cursor : Nat} (offset : Nat)
    (complete : Bool) (here : (first :: rest)[cursor]? = some part) :
    (sequenceAt first rest offset cursor).Regular complete where
  value := by simp [sequenceAt]
  hand := by
    rintro _ ⟨⟩ -
    exact ⟨part, hand_sequenceAt offset here⟩
  even := nofun
  settled := by simp [sequenceAt, isChoice, Rule.isChoice]

theorem regular_choiceAt {first second part : Rule} {rest : List Rule} {branch : Nat} (offset : Nat)
    (here : (first :: second :: rest)[branch]? = some part) :
    (choiceAt (.choice first second rest) offset branch).Regular false where
  value := by simp [choiceAt]
  hand := by
    rintro _ ⟨⟩ -
    exact ⟨part, hand_choiceAt rfl offset here⟩
  even _ := Nat.mul_mod_right 2 branch
  settled := by simp [choiceAt]

theorem regular_choice {first second part : Rule} {rest : List Rule} {branch : Nat} (offset : Nat)
    (here : (first :: second :: rest)[branch]? = some part) :
    (choice (.choice first second rest) offset branch).Regular true where
  value := by simp [choice]
  hand := by
    rintro _ ⟨⟩ -
    exact ⟨part, hand_choiceAt rfl offset here⟩
  even _ := Nat.mul_mod_right 2 branch
  settled := by
    have hlater : (choice (.choice first second rest) offset branch).listed? (2 * branch + 2) =
        (first :: second :: rest)[branch + 1]?.map .rule :=
      Rule.listing_getElem?_branch rfl (branch + 1)
    show decide (branch + 1 < (first :: second :: rest).length) = true ↔ _
    show _ ↔ true = true ∧ true = true ∧ ∃ part, Frame.listed? _ (2 * branch + 2) = _
    rw [hlater, decide_eq_true_iff]
    constructor
    · intro hlt
      exact ⟨rfl, rfl, _, by rw [List.getElem?_eq_getElem hlt]; rfl⟩
    · rintro ⟨-, -, part, hpart⟩
      obtain ⟨later, hlater, -⟩ := Option.map_eq_some_iff.1 hpart
      exact (List.getElem?_eq_some_iff.1 hlater).1

end Frame

/-! ## Complete derivations -/

/-- A reference has the frame of what it names right above it, at its own offset. -/
def HandsOver (rules : RuleMap) (frame next : Frame) : Prop :=
  ∀ name, frame.item = .rule (.ref name) →
    rules.get? name = some next.item ∧ next.offset = frame.offset

/-- Above a frame that is not of a reference any frames may stand. -/
theorem isChain_cons {rules : RuleMap} {frame : Frame} {above : List Frame}
    (hframe : ∀ name, frame.item ≠ .rule (.ref name)) (h : above.IsChain (HandsOver rules)) :
    (frame :: above).IsChain (HandsOver rules) := by
  cases above with
  | nil => exact .singleton frame
  | cons next above => exact .cons_cons (fun name hname => absurd hname (hframe name)) h

namespace Derives

variable {rules : RuleMap} {text : List Char} {goal : Goal} {offset stop : Nat}
  {trees : List Derivation}

/-- All frames of complete derivations are regular. -/
theorem regular (h : Derives rules text goal offset trees stop) :
    ∀ frame ∈ Derivation.listingAll trees, frame.Regular true := by
  induction h with
  | reference _ _ ih =>
    intro frame hframe
    rw [Derivation.listingAll_node] at hframe
    rcases List.mem_cons.1 hframe with rfl | hframe
    · exact Frame.regular_reference _ _ _
    · exact ih frame hframe
  | terminal =>
    intro frame hframe
    rw [List.mem_singleton.1 hframe]
    exact Frame.regular_terminal _ _ _
  | @sequence first rest _ _ _ _ ih =>
    intro frame hframe
    rw [Derivation.listingAll_node] at hframe
    rcases List.mem_cons.1 hframe with rfl | hframe
    · have hlast : (first :: rest)[rest.length]? = some ((first :: rest)[rest.length]) :=
        List.getElem?_eq_getElem _
      exact Frame.regular_sequenceAt _ true hlast
    · exact ih frame hframe
  | choice _ here _ ih =>
    intro frame hframe
    rw [Derivation.listingAll_node] at hframe
    rcases List.mem_cons.1 hframe with rfl | hframe
    · exact Frame.regular_choice _ here
    · exact ih frame hframe
  | noElements => exact fun _ hframe => absurd hframe List.not_mem_nil
  | @element _ _ _ tree more _ _ _ _ ihHead ihTail =>
    intro frame hframe
    rw [Derivation.listingAll_cons tree more] at hframe
    rcases List.mem_append.1 hframe with hframe | hframe
    · exact ihHead frame hframe
    · exact ihTail frame hframe

/-- Frames may stand above complete derivations as they may stand alone. -/
theorem isChain_append (h : Derives rules text goal offset trees stop) {above : List Frame}
    (habove : above.IsChain (HandsOver rules)) :
    (Derivation.listingAll trees ++ above).IsChain (HandsOver rules) := by
  induction h generalizing above with
  | reference found body ih =>
    have hbody := ih habove
    obtain ⟨frame, below, hlisting, rfl, rfl⟩ := body.listing_of_item
    rw [Derivation.listingAll_node, hlisting]
    rw [hlisting] at hbody
    refine .cons_cons ?_ hbody
    rintro _ ⟨⟩
    exact ⟨found, rfl⟩
  | terminal => exact isChain_cons nofun habove
  | sequence _ ih =>
    rw [Derivation.listingAll_node]
    exact isChain_cons nofun (ih habove)
  | choice _ _ _ ih =>
    rw [Derivation.listingAll_node]
    exact isChain_cons nofun (ih habove)
  | noElements => exact habove
  | @element _ _ _ tree more _ _ _ _ ihHead ihTail =>
    rw [Derivation.listingAll_cons tree more, List.append_assoc]
    exact ihHead (ihTail habove)

end Derives

/-! ## Open derivations -/

namespace OpenDerivation

/-- The frame in hand. -/
def top : OpenDerivation → Frame
  | .hand frame => frame
  | .node _ _ making => making.top

/-- The frames below the one in hand, each with whether what stands under it is complete. -/
def marked : OpenDerivation → List (Frame × Bool)
  | .hand _ => []
  | .node frame done making =>
    (frame, false) :: ((Derivation.listingAll done).map (·, true) ++ making.marked)

/-- The frame in hand comes last. -/
theorem listing_eq (tree : OpenDerivation) :
    tree.listing = tree.marked.map Prod.fst ++ [tree.top] := by
  induction tree with
  | hand frame => rfl
  | node frame done making ih => simp [listing, marked, top, ih, Function.comp_def]

end OpenDerivation

namespace Underway

variable {rules : RuleMap} {text : List Char} {item : Item} {offset : Nat} {tree : OpenDerivation}
  {log : List Mismatch} {visits : Nat}

/-- The first frame is that of the item at the offset, whose place may have moved. -/
theorem listing_of_item (h : Underway rules text item offset tree log visits) :
    ∃ frame above, tree.listing = frame :: above ∧ frame.item = item ∧ frame.offset = offset := by
  cases h with
  | begun => exact ⟨_, _, rfl, rfl, rfl⟩
  | reference => exact ⟨_, _, rfl, rfl, rfl⟩
  | sequence => exact ⟨_, _, rfl, rfl, rfl⟩
  | choice => exact ⟨_, _, rfl, rfl, rfl⟩

/-- The first frame of a reference is as it was pushed. -/
theorem head_of_reference {name : String}
    (h : Underway rules text (.rule (.ref name)) offset tree log visits) :
    tree.listing.head? = some { item := .rule (.ref name), offset } := by
  cases h with
  | begun => rfl
  | reference => rfl

/-- The frame in hand has not been visited. -/
theorem top_unvisited (h : Underway rules text item offset tree log visits) :
    ∃ item offset, tree.top = { item, offset } := by
  induction h with
  | @begun item offset => exact ⟨item, offset, rfl⟩
  | reference _ _ ih => exact ih
  | sequence _ _ _ ih => exact ih
  | choice _ _ _ ih => exact ih

/-- The frames below the one in hand are regular. -/
theorem regular (h : Underway rules text item offset tree log visits) :
    ∀ entry ∈ tree.marked, entry.1.Regular entry.2 := by
  induction h with
  | begun => exact fun _ hentry => absurd hentry List.not_mem_nil
  | reference _ _ ih =>
    intro entry hentry
    rcases List.mem_cons.1 hentry with rfl | hentry
    · exact Frame.regular_reference _ _ _
    · exact ih entry hentry
  | sequence done here _ ih =>
    -- the elements before the one in hand are complete
    have hdone : Derives rules text _ _ _ _ := done.derives
    intro entry hentry
    rcases List.mem_cons.1 hentry with rfl | hentry
    · exact Frame.regular_sequenceAt _ _ here
    · rcases List.mem_append.1 hentry with hentry | hentry
      · obtain ⟨frame, hframe, rfl⟩ := List.mem_map.1 hentry
        exact hdone.regular frame hframe
      · exact ih entry hentry
  | choice _ here _ ih =>
    intro entry hentry
    rcases List.mem_cons.1 hentry with rfl | hentry
    · exact Frame.regular_choiceAt _ here
    · exact ih entry hentry

/-- Above each reference stands what it names. -/
theorem isChain (h : Underway rules text item offset tree log visits) :
    tree.listing.IsChain (HandsOver rules) := by
  induction h with
  | begun => exact .singleton _
  | reference found body ih =>
    obtain ⟨frame, above, hlisting, rfl, rfl⟩ := body.listing_of_item
    rw [hlisting] at ih
    show List.IsChain _ (_ :: ([] ++ OpenDerivation.listing _))
    rw [hlisting]
    refine .cons_cons ?_ ih
    rintro _ ⟨⟩
    exact ⟨found, rfl⟩
  | sequence done _ _ ih =>
    have hdone : Derives rules text _ _ _ _ := done.derives
    exact isChain_cons nofun (hdone.isChain_append ih)
  | choice _ _ _ ih => exact isChain_cons nofun ih

end Underway

namespace Machine

/-- While a machine is running its frames are an open derivation of the start name, every node
before what stands under it: the start name's reference first, the frame in hand last and not
visited, those between regular, and above each reference what it names. -/
theorem stack_of_running {rules : RuleMap} {text : List Char} {name : String} {calls : Nat}
    (hrunning : ((start name).after rules text calls).status = .running) :
    ∃ tree log visits, Underway rules text (.rule (.ref name)) 0 tree log visits ∧
      ((start name).after rules text calls).frames = tree.listing ∧
      tree.listing = tree.marked.map Prod.fst ++ [tree.top] ∧
      tree.listing.head? = some { item := .rule (.ref name), offset := 0 } ∧
      (∃ item offset, tree.top = { item, offset }) ∧
      (∀ entry ∈ tree.marked, entry.1.Regular entry.2) ∧
      tree.listing.IsChain (HandsOver rules) := by
  obtain ⟨tree, visits, hunderway, -, hmachine⟩ :=
    (stage rules text name calls).of_running hrunning
  refine ⟨tree, _, visits, hunderway, ?_, tree.listing_eq, hunderway.head_of_reference,
    hunderway.top_unvisited, hunderway.regular, hunderway.isChain⟩
  rw [hmachine, frames]
  exact List.reverse_reverse _

end Machine

end AnyLibrary

namespace Machine

theorem stack_of_running_sample :
    ((start "S").after RuleMap.sample ['a', 'b'] 5).status = .running ∧
      ∃ tree log visits, Underway RuleMap.sample ['a', 'b'] (.rule (.ref "S")) 0 tree log visits ∧
        ((start "S").after RuleMap.sample ['a', 'b'] 5).frames = tree.listing :=
  have hrunning : ((start "S").after RuleMap.sample ['a', 'b'] 5).status = .running := by decide
  have ⟨tree, log, visits, hunderway, hframes, _⟩ := stack_of_running hrunning
  ⟨hrunning, tree, log, visits, hunderway, hframes⟩

end Machine

end PegMachine
