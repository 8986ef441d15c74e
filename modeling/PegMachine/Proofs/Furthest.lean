import PegMachine.FurthestFailures

/-!
# What a record of failures keeps

`FurthestFailures.Keeps` says what the record of a history is, without the order in which it came
about: the greatest of all offsets, or -1 where none is greater, and the messages at that offset.
Recording one more failure leads from the record of a history to that of the longer one
(`Keeps.record`). Offsets here are any integers.
-/

namespace PegMachine.FurthestFailures

/-- The record keeps of a history the messages at its greatest offset. It is as if there had been a
failure without message at -1. -/
structure Keeps (failures : FurthestFailures) (history : List (Int × String)) : Prop where
  least : -1 ≤ failures.offset
  greatest : ∀ entry ∈ history, entry.1 ≤ failures.offset
  attained : failures.offset = -1 ∨ ∃ entry ∈ history, entry.1 = failures.offset
  mem_messages : ∀ message, message ∈ failures.messages ↔ (failures.offset, message) ∈ history

namespace Keeps

variable {failures : FurthestFailures} {history : List (Int × String)}

/-- An empty record keeps no history. -/
theorem empty : FurthestFailures.empty.Keeps [] where
  least := Int.le_refl _
  greatest := nofun
  attained := Or.inl rfl
  mem_messages := by simp [FurthestFailures.empty]

/-- No failure lies at an offset greater than the one that is kept. -/
theorem not_mem_of_lt (h : failures.Keeps history) {offset : Int} (hlt : failures.offset < offset)
    (message : String) : (offset, message) ∉ history := by
  intro hmem
  have hle : offset ≤ failures.offset := h.greatest _ hmem
  omega

/-- An offset that is not smaller than the kept one and that of one more failure bounds them all. -/
theorem le_of_mem_concat (h : failures.Keeps history) {offset bound : Int} {message : String}
    (hkept : failures.offset ≤ bound) (hnew : offset ≤ bound) :
    ∀ entry ∈ history ++ [(offset, message)], entry.1 ≤ bound := by
  intro entry hentry
  rcases List.mem_append.1 hentry with hentry | hentry
  · exact Int.le_trans (h.greatest entry hentry) hkept
  · rw [List.mem_singleton.1 hentry]
    exact hnew

/-- Recording a failure keeps it with the rest of the history. -/
theorem record (h : failures.Keeps history) (offset : Int) (message : String) :
    (failures.record offset message).Keeps (history ++ [(offset, message)]) := by
  have hleast := h.least
  unfold FurthestFailures.record
  by_cases hback : offset < failures.offset
  · rw [if_pos hback]
    refine ⟨hleast, h.le_of_mem_concat (Int.le_refl _) (Int.le_of_lt hback), ?_, fun other => ?_⟩
    · rcases h.attained with hnone | ⟨entry, hentry, hoffset⟩
      · exact Or.inl hnone
      · exact Or.inr ⟨entry, List.mem_append_left _ hentry, hoffset⟩
    · have hne : failures.offset ≠ offset := by omega
      simp [h.mem_messages, hne]
  · rw [if_neg hback]
    by_cases hfurther : failures.offset < offset
    · rw [if_pos hfurther]
      refine ⟨?_, h.le_of_mem_concat (Int.le_of_lt hfurther) (Int.le_refl _), Or.inr ?_,
        fun other => ?_⟩
      · show -1 ≤ offset
        omega
      · exact ⟨(offset, message), by simp, rfl⟩
      · simp [h.not_mem_of_lt hfurther]
    · rw [if_neg hfurther]
      have hsame : failures.offset = offset := by omega
      refine ⟨hleast, h.le_of_mem_concat (Int.le_refl _) (Int.le_of_eq hsame.symm), Or.inr ?_,
        fun other => ?_⟩
      · exact ⟨(offset, message), by simp, hsame.symm⟩
      · simp [h.mem_messages, hsame, or_comm]

/-- A longer history is kept at no smaller an offset. -/
theorem offset_le {later : FurthestFailures} {longer : List (Int × String)}
    (h : failures.Keeps history) (h' : later.Keeps longer) (hsub : history ⊆ longer) :
    failures.offset ≤ later.offset := by
  rcases h.attained with hnone | ⟨entry, hentry, hoffset⟩
  · rw [hnone]
    exact h'.least
  · rw [← hoffset]
    exact h'.greatest entry (hsub hentry)

/-- The kept offset is bounded as the offsets of the history are. -/
theorem offset_le_bound (h : failures.Keeps history) {bound : Int} (hbound : -1 ≤ bound)
    (hall : ∀ entry ∈ history, entry.1 ≤ bound) : failures.offset ≤ bound := by
  rcases h.attained with hnone | ⟨entry, hentry, hoffset⟩
  · rw [hnone]
    exact hbound
  · rw [← hoffset]
    exact hall entry hentry

/-- A history with a failure from 0 on is kept with a message. -/
theorem messages_ne_empty (h : failures.Keeps history) {entry : Int × String}
    (hentry : entry ∈ history) (hoffset : 0 ≤ entry.1) :
    0 ≤ failures.offset ∧ failures.messages ≠ .empty := by
  have hle := h.greatest entry hentry
  refine ⟨by omega, fun hempty => ?_⟩
  rcases h.attained with hnone | ⟨kept, hkept, hat⟩
  · omega
  · have hmem : kept.2 ∈ failures.messages := by
      rw [h.mem_messages, ← hat]
      exact hkept
    rw [hempty] at hmem
    exact StringSet.not_mem_empty _ hmem

end Keeps

end PegMachine.FurthestFailures
