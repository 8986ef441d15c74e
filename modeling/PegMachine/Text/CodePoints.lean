/-!
# Character properties as ascending ranges

A property of characters (printable, digit, blank, word) is a list of closed ranges of code points,
ascending and apart from each other. `inRanges` reads such a list from the left and stops at the
first range that starts beyond the code point, so it decides membership for ascending lists only;
`Ascending` is the condition, and `inRanges_iff` says that under it the answer is membership.
-/

namespace PegMachine.Text

/-- Does some range of an ascending list hold the code point? -/
def inRanges : List (Nat × Nat) → Nat → Bool
  | [], _ => false
  | (lo, hi) :: rest, n => if n < lo then false else if n ≤ hi then true else inRanges rest n

/-- Every range is non-empty and ends below the start of the next one. -/
def ascending : List (Nat × Nat) → Bool
  | [] => true
  | [r] => r.1 ≤ r.2
  | r :: s :: rest => r.1 ≤ r.2 && r.2 < s.1 && ascending (s :: rest)

/-- In an ascending list no range starts below the first one. -/
theorem le_of_mem_ascending {r : Nat × Nat} {rest : List (Nat × Nat)}
    (h : ascending (r :: rest) = true) : ∀ s ∈ rest, r.2 < s.1 := by
  induction rest generalizing r with
  | nil => simp
  | cons t rest ih =>
    simp only [ascending, Bool.and_eq_true, decide_eq_true_eq] at h
    obtain ⟨⟨_, hrt⟩, hrest⟩ := h
    have ht : t.1 ≤ t.2 := by
      cases rest <;> simp_all [ascending]
    intro s hs
    rcases List.mem_cons.1 hs with rfl | hs
    · exact hrt
    · have := ih hrest s hs
      omega

/-- On an ascending list the search decides membership in one of the ranges. -/
theorem inRanges_iff {ranges : List (Nat × Nat)} (h : ascending ranges = true) (n : Nat) :
    inRanges ranges n = true ↔ ∃ r ∈ ranges, r.1 ≤ n ∧ n ≤ r.2 := by
  induction ranges with
  | nil => simp [inRanges]
  | cons r rest ih =>
    have hrest : ascending rest = true := by
      cases rest <;> simp_all [ascending]
    have hr : r.1 ≤ r.2 := by
      cases rest <;> simp_all [ascending]
    have hlow := le_of_mem_ascending h
    obtain ⟨lo, hi⟩ := r
    simp only [inRanges, List.mem_cons, exists_eq_or_imp]
    split
    · next hn =>
      simp only [Bool.false_eq_true, false_iff, not_or, not_and, not_exists]
      refine ⟨fun _ => by simp only at *; omega, ?_⟩
      intro s hs hsn
      have := hlow s hs
      simp only at *
      omega
    · next hn =>
      split
      · next hh => simp only [true_iff]; exact Or.inl ⟨by omega, hh⟩
      · next hh =>
        rw [ih hrest]
        constructor
        · exact Or.inr
        · rintro (⟨_, h2⟩ | h2)
          · exact absurd h2 hh
          · exact h2

end PegMachine.Text
