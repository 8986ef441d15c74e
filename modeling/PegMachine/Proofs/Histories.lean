import PegMachine.Proofs.Furthest

/-!
# Records over time

Whoever holds a record of failures may record at any integer offset and clear it, in any order. What is
kept then depends on the failures recorded since the record was last cleared, and neither on their order
nor on how often each of them was recorded: the greatest of -1 and their offsets, and the messages at
that offset (`FurthestFailures.kept_of_history`).

One operation leads from the record of a history to that of the history after it (`Keeps.perform`), and
so do rows of them (`keeps_after`). What a record keeps determines it (`Keeps.unique`).
-/

namespace PegMachine.FurthestFailures

/-- What may be done to a record: a failure is recorded, or all are forgotten. -/
inductive Operation where
  | record (offset : Int) (message : String)
  | clear
  deriving DecidableEq

/-- The record after one more operation. -/
def perform (failures : FurthestFailures) : Operation → FurthestFailures
  | .record offset message => failures.record offset message
  | .clear => empty

/-- The history after one more operation, which forgets all before it if the record is cleared. -/
def Operation.extend (history : List (Int × String)) : Operation → List (Int × String)
  | .record offset message => history ++ [(offset, message)]
  | .clear => []

/-- A new record after a row of operations. -/
def after (operations : List Operation) : FurthestFailures := operations.foldl perform empty

/-- The failures that a row of operations has recorded since it last cleared the record, or since the
record was made, in their order. -/
def sinceClear (operations : List Operation) : List (Int × String) :=
  operations.foldl Operation.extend []

/-- The greatest of -1 and all offsets of a history. -/
def furthestOffset (history : List (Int × String)) : Int := (history.map Prod.fst).foldr max (-1)

theorem furthestOffset_le_iff {history : List (Int × String)} {bound : Int} :
    furthestOffset history ≤ bound ↔ -1 ≤ bound ∧ ∀ entry ∈ history, entry.1 ≤ bound := by
  induction history with
  | nil => simp [furthestOffset]
  | cons entry rest ih =>
    have hcons : furthestOffset (entry :: rest) = max entry.1 (furthestOffset rest) := rfl
    rw [hcons, Int.max_le, ih, List.forall_mem_cons]
    exact and_left_comm

namespace Keeps

variable {failures other : FurthestFailures} {history longer : List (Int × String)}

/-- The kept offset is the greatest of the history. -/
theorem offset_eq (h : failures.Keeps history) : failures.offset = furthestOffset history := by
  obtain ⟨hleast, hall⟩ := furthestOffset_le_iff.1 (Int.le_refl (furthestOffset history))
  apply Int.le_antisymm
  · exact h.offset_le_bound hleast hall
  · exact furthestOffset_le_iff.2 ⟨h.least, h.greatest⟩

/-- Histories with the same failures are kept alike. -/
theorem unique (h : failures.Keeps history) (h' : other.Keeps longer)
    (same : ∀ entry, entry ∈ longer ↔ entry ∈ history) : other = failures := by
  have hoffset : other.offset = failures.offset := by
    apply Int.le_antisymm
    · exact h'.offset_le h fun entry => (same entry).1
    · exact h.offset_le h' fun entry => (same entry).2
  have hmessages : other.messages = failures.messages := by
    apply StringSet.ext
    intro message
    rw [h.mem_messages, h'.mem_messages, hoffset]
    exact same _
  cases failures
  cases other
  cases hoffset
  cases hmessages
  rfl

/-- A message is kept if and only if some failure was at -1 or further on. -/
theorem isNonempty_iff (h : failures.Keeps history) :
    failures.isNonempty = true ↔ ∃ entry ∈ history, -1 ≤ entry.1 := by
  have hkept : failures.isNonempty = true ↔ ∃ message, message ∈ failures.messages := by
    rw [isNonempty, Bool.not_eq_true', List.isEmpty_eq_false_iff_exists_mem]
    rfl
  rw [hkept]
  constructor
  · rintro ⟨message, hmessage⟩
    exact ⟨_, (h.mem_messages message).1 hmessage, h.least⟩
  · rintro ⟨entry, hentry, hleast⟩
    rcases h.attained with hnone | ⟨kept, hmem, hoffset⟩
    · -- nothing lies further on than -1, so the failure is at -1 itself
      have hle := h.greatest entry hentry
      have hat : entry.1 = failures.offset := by omega
      refine ⟨entry.2, (h.mem_messages entry.2).2 ?_⟩
      rw [← hat]
      exact hentry
    · refine ⟨kept.2, (h.mem_messages kept.2).2 ?_⟩
      rw [← hoffset]
      exact hmem

/-- One more operation on the record is one more in the history. -/
theorem perform (h : failures.Keeps history) (operation : Operation) :
    (failures.perform operation).Keeps (operation.extend history) := by
  cases operation with
  | record offset message => exact h.record offset message
  | clear => exact .empty

end Keeps

/-- After a row of operations the record keeps what has been recorded since it was cleared. -/
theorem keeps_after (operations : List Operation) :
    (after operations).Keeps (sinceClear operations) := by
  have hrow : ∀ failures history, Keeps failures history →
      (operations.foldl perform failures).Keeps (operations.foldl Operation.extend history) := by
    induction operations with
    | nil => exact fun _ _ h => h
    | cons operation rest ih => exact fun _ _ h => ih _ _ (h.perform operation)
  exact hrow empty [] .empty

/-- Operations among which the record is not cleared forget nothing. -/
theorem sinceClear_subset (operations : List Operation) {more : List Operation}
    (hmore : .clear ∉ more) : sinceClear operations ⊆ sinceClear (operations ++ more) := by
  rw [sinceClear, sinceClear, List.foldl_append]
  generalize operations.foldl Operation.extend [] = history
  induction more generalizing history with
  | nil => exact fun _ hentry => hentry
  | cons operation rest ih =>
    obtain ⟨hoperation, hrest⟩ := not_or.1 (mt List.mem_cons.2 hmore)
    cases operation with
    | record offset message =>
      have hlonger := ih hrest (history ++ [(offset, message)])
      exact fun entry hentry => hlonger (List.mem_append_left _ hentry)
    | clear => exact absurd rfl hoperation

/-- What a record keeps after any row of operations, by what has been recorded since it was last
cleared: the greatest of -1 and the offsets, the messages there, and any message at all if and only if
some failure was at -1 or further on. Neither order nor repetition has a say, and the offset does not
decrease until the record is cleared. -/
theorem kept_of_history (operations : List Operation) :
    (after operations).offset = furthestOffset (sinceClear operations) ∧
      (∀ message, message ∈ (after operations).messages ↔
        (furthestOffset (sinceClear operations), message) ∈ sinceClear operations) ∧
      ((after operations).isNonempty = true ↔ ∃ entry ∈ sinceClear operations, -1 ≤ entry.1) ∧
      (∀ other, (∀ entry, entry ∈ sinceClear other ↔ entry ∈ sinceClear operations) →
        after other = after operations) ∧
      ∀ more, .clear ∉ more →
        (after operations).offset ≤ (after (operations ++ more)).offset := by
  have hkeeps := keeps_after operations
  refine ⟨hkeeps.offset_eq, fun message => ?_, hkeeps.isNonempty_iff, fun other hsame => ?_,
    fun more hmore => ?_⟩
  · rw [← hkeeps.offset_eq]
    exact hkeeps.mem_messages message
  · exact hkeeps.unique (keeps_after other) hsame
  · exact hkeeps.offset_le (keeps_after _) (sinceClear_subset operations hmore)

/-- A record that is cleared, goes back below -1 and comes twice to its greatest offset. -/
def Operation.sample : List Operation :=
  [.record 3 "x", .clear, .record (-5) "low", .record 1 "a", .record 0 "b", .record 1 "c"]

/-- The failures since the record of the sample was cleared, in another order and one of them twice. -/
def Operation.shuffled : List Operation :=
  [.record 1 "c", .record 1 "a", .record 0 "b", .record (-5) "low", .record 1 "c"]

theorem kept_of_history_sample :
    (∀ entry, entry ∈ sinceClear Operation.shuffled ↔ entry ∈ sinceClear Operation.sample) ∧
      after Operation.shuffled = after Operation.sample ∧
      (after Operation.sample).offset = 1 ∧ (after Operation.sample).messages.toList = ["a", "c"] ∧
      (after Operation.sample).offset ≤
        (after (Operation.sample ++ [.record (-1) "a", .record 2 "d"])).offset :=
  have hsame : ∀ entry,
      entry ∈ sinceClear Operation.shuffled ↔ entry ∈ sinceClear Operation.sample := by
    intro entry
    simp only [sinceClear, Operation.shuffled, Operation.sample, List.foldl, Operation.extend,
      List.nil_append, List.cons_append, List.mem_cons, List.not_mem_nil, or_false]
    grind
  have ⟨_, _, _, hagree, hgrows⟩ := kept_of_history Operation.sample
  ⟨hsame, hagree _ hsame, by decide, by decide, hgrows _ (by decide)⟩

end PegMachine.FurthestFailures
