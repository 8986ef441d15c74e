import PegMachine.Rule.Printer

/-!
# Where a written form ends

Two values are told apart if the end of what is written for them can be told whatever stands behind it
(`Apart`). This is more than that they are written alike only if they are equal, and it is handed on
from parts to rows of parts (`flatMap_append_inj`, `row_append_inj`): no part begins with what ends a
row, nor does what stands between two parts. A number has no end of its own,
but it ends where a character follows that no number is written with.
-/

namespace PegMachine

/-- Texts that begin with what is written for two values are equal only if the values are, and what
stands behind them is. -/
def Apart {α : Type} (write : α → String) (a b : α) : Prop :=
  ∀ ⦃x y : List Char⦄, (write a).toList ++ x = (write b).toList ++ y → a = b ∧ x = y

/-- Values that are told apart are written alike only if they are equal. -/
theorem Apart.write_eq_iff {α : Type} {write : α → String} {a b : α} (h : Apart write a b) :
    write a = write b ↔ a = b := by
  refine ⟨fun hsame => ?_, congrArg write⟩
  exact (h (congrArg (fun s => s.toList ++ []) hsame)).1

/-- Rows of parts that are told apart are told apart, if no part begins with the character that ends
the row. -/
theorem flatMap_append_inj {α : Type} {write : α → List Char} {stop : Char}
    (hbegin : ∀ a, ∃ c rest, write a = c :: rest ∧ c ≠ stop) {as bs : List α} {x y : List Char}
    (h : ∀ a ∈ as, ∀ b ∈ bs, ∀ x y, write a ++ x = write b ++ y → a = b ∧ x = y)
    (hsame : as.flatMap write ++ stop :: x = bs.flatMap write ++ stop :: y) : as = bs ∧ x = y := by
  induction as generalizing bs with
  | nil =>
    cases bs with
    | nil => exact ⟨rfl, (List.cons.inj hsame).2⟩
    | cons b bs =>
      obtain ⟨c, rest, hb, hne⟩ := hbegin b
      rw [List.flatMap_cons, hb] at hsame
      exact absurd (List.cons.inj hsame).1.symm hne
  | cons a as ih =>
    cases bs with
    | nil =>
      obtain ⟨c, rest, ha, hne⟩ := hbegin a
      rw [List.flatMap_cons, ha] at hsame
      exact absurd (List.cons.inj hsame).1 hne
    | cons b bs =>
      rw [List.flatMap_cons, List.flatMap_cons, List.append_assoc, List.append_assoc] at hsame
      obtain ⟨rfl, hmore⟩ := h a List.mem_cons_self b List.mem_cons_self _ _ hsame
      obtain ⟨rfl, hbehind⟩ := ih (fun a ha b hb =>
        h a (List.mem_cons_of_mem _ ha) b (List.mem_cons_of_mem _ hb)) hmore
      exact ⟨rfl, hbehind⟩

/-! ## Numbers -/

section Numbers

theorem toList_toString (n : Int) :
    (toString n).toList =
      if 0 ≤ n then Nat.toDigits 10 n.toNat else '-' :: Nat.toDigits 10 (-n).toNat := by
  rw [Int.toString_eq_repr, Int.repr_eq_if]
  split
  · exact Nat.toList_repr
  · rw [String.toList_append, Nat.toList_repr]
    rfl

theorem isDigit_of_mem_toDigits {n : Nat} {c : Char} (h : c ∈ Nat.toDigits 10 n) :
    c.isDigit = true :=
  Nat.isDigit_of_mem_toDigits (by decide) (by decide) h

/-- Numbers are written with the same digits and sign only if they are equal. -/
theorem toList_toString_inj {m n : Int} (h : (toString m).toList = (toString n).toList) : m = n := by
  have hdigits : ∀ {k l : Nat}, Nat.toDigits 10 k = Nat.toDigits 10 l → k = l := by
    intro k l hsame
    have hread := Nat.ofDigitChars_ten_toDigits (n := k)
    rw [hsame, Nat.ofDigitChars_ten_toDigits] at hread
    exact hread.symm
  have hsign : ∀ k l : Nat, '-' :: Nat.toDigits 10 k ≠ Nat.toDigits 10 l := by
    intro k l hsame
    exact absurd (isDigit_of_mem_toDigits (hsame ▸ List.mem_cons_self)) (by decide)
  rw [toList_toString, toList_toString] at h
  split at h
  · split at h
    · have hnat := hdigits h
      omega
    · exact absurd h.symm (hsign _ _)
  · split at h
    · exact absurd h (hsign _ _)
    · have hnat := hdigits (List.cons.inj h).2
      omega

/-- A number ends where a character follows that is neither a digit nor the sign. -/
theorem toString_append_inj {m n : Int} {stop : Char} (hdigit : stop.isDigit = false)
    (hsign : stop ≠ '-') {x y : List Char}
    (h : (toString m).toList ++ stop :: x = (toString n).toList ++ stop :: y) : m = n ∧ x = y := by
  have hread : ∀ (k : Int) (rest : List Char),
      ((toString k).toList ++ stop :: rest).takeWhile (fun c => c.isDigit || c == '-') =
        (toString k).toList := by
    intro k rest
    rw [List.takeWhile_append_of_pos, List.takeWhile_cons_of_neg, List.append_nil]
    · simp [hdigit, hsign]
    · intro c hc
      rw [toList_toString] at hc
      split at hc
      · simp [isDigit_of_mem_toDigits hc]
      · rcases List.mem_cons.1 hc with rfl | hc
        · rfl
        · simp [isDigit_of_mem_toDigits hc]
  have hsame : (toString m).toList = (toString n).toList := by
    rw [← hread m x, h, hread n y]
  rw [hsame] at h
  exact ⟨toList_toString_inj hsame, (List.cons.inj (List.append_cancel_left h)).2⟩

end Numbers

/-! ## Rows -/

section Rows

/-- What follows the first of some written parts: each further one behind what stands between two, and
the parenthesis that closes the row. -/
def closing (between : String) (parts : List String) : List Char :=
  parts.flatMap (fun part => between.toList ++ part.toList) ++ [')']

theorem closing_cons (between part : String) (rest : List String) :
    closing between (part :: rest) = between.toList ++ (part.toList ++ closing between rest) := by
  rw [closing, closing, List.flatMap_cons, List.append_assoc, List.append_assoc]

/-- Parts between parentheses, with the same text between each two. -/
def parenthesized (between : String) (parts : List String) : String :=
  "(" ++ between.intercalate parts ++ ")"

theorem toList_parenthesized (between first : String) (rest : List String) :
    (parenthesized between (first :: rest)).toList =
      '(' :: (first.toList ++ closing between rest) := by
  have hparts : (between.intercalate (first :: rest)).toList ++ [')'] =
      first.toList ++ closing between rest := by
    induction rest generalizing first with
    | nil =>
      rw [String.intercalate_singleton]
      rfl
    | cons second rest ih =>
      rw [String.intercalate_cons_cons, String.toList_append, String.toList_append,
        List.append_assoc, ih, closing_cons, List.append_assoc]
  rw [parenthesized, ← hparts, String.toList_append, String.toList_append]
  rfl

variable {α : Type} {write : α → String} {between : String}

/-- Parts that are told apart are told apart in a row, if what stands between them does not close it. -/
theorem closing_append_inj (hbetween : ∃ c rest, between.toList = c :: rest ∧ c ≠ ')')
    {as bs : List α} (h : ∀ a ∈ as, ∀ b ∈ bs, Apart write a b) {x y : List Char}
    (hsame : closing between (as.map write) ++ x = closing between (bs.map write) ++ y) :
    as = bs ∧ x = y := by
  obtain ⟨c, rest, hbegin, hopen⟩ := hbetween
  unfold closing at hsame
  rw [List.flatMap_map, List.flatMap_map, List.append_assoc, List.append_assoc] at hsame
  refine flatMap_append_inj (fun a => ⟨c, rest ++ (write a).toList, ?_, hopen⟩)
    (fun a ha b hb x y hparts => ?_) hsame
  · rw [hbegin, List.cons_append]
  · rw [List.append_assoc, List.append_assoc] at hparts
    exact h a ha b hb (List.append_cancel_left hparts)

/-- Rows between parentheses are told apart as their parts are, if no part begins with the parenthesis
that closes them and what follows the first part is told apart. -/
theorem row_append_inj {row : List String → String} {after : List String → List Char}
    (hempty : (row []).toList = ['(', ')'])
    (hrow : ∀ first rest, (row (first :: rest)).toList = '(' :: (first.toList ++ after rest))
    (h : ∀ a b, Apart write a b) (hopen : ∀ a, ∃ c rest, (write a).toList = c :: rest ∧ c ≠ ')')
    (hafter : ∀ {as bs : List α} {x y : List Char},
      after (as.map write) ++ x = after (bs.map write) ++ y → as = bs ∧ x = y)
    {as bs : List α} {x y : List Char}
    (hsame : (row (as.map write)).toList ++ x = (row (bs.map write)).toList ++ y) :
    as = bs ∧ x = y := by
  have hpart : ∀ (a : α) (rest x y : List Char),
      '(' :: ((write a).toList ++ rest) ++ x ≠ ['(', ')'] ++ y := by
    intro a rest x y hsame
    obtain ⟨c, more, hbegin, hc⟩ := hopen a
    rw [hbegin] at hsame
    exact hc (List.cons.inj (List.cons.inj hsame).2).1
  cases as with
  | nil =>
    rw [List.map_nil, hempty] at hsame
    cases bs with
    | nil =>
      rw [List.map_nil, hempty] at hsame
      exact ⟨rfl, List.append_cancel_left hsame⟩
    | cons b bs =>
      rw [List.map_cons, hrow] at hsame
      exact absurd hsame.symm (hpart b _ _ _)
  | cons a as =>
    rw [List.map_cons, hrow] at hsame
    cases bs with
    | nil =>
      rw [List.map_nil, hempty] at hsame
      exact absurd hsame (hpart a _ _ _)
    | cons b bs =>
      rw [List.map_cons, hrow, List.cons_append, List.cons_append, List.append_assoc,
        List.append_assoc] at hsame
      obtain ⟨rfl, hrest⟩ := h a b (List.cons.inj hsame).2
      obtain ⟨rfl, hbehind⟩ := hafter hrest
      exact ⟨rfl, hbehind⟩

/-- What follows the first part of a tuple, which is a comma if there is no other. -/
def tupleRest : List String → List Char
  | [] => [',', ')']
  | second :: rest => closing ", " (second :: rest)

theorem toList_renderTuple (first : String) (rest : List String) :
    (renderTuple (first :: rest)).toList = '(' :: (first.toList ++ tupleRest rest) := by
  cases rest with
  | nil =>
    rw [renderTuple, String.toList_append, String.toList_append]
    rfl
  | cons second rest => exact toList_parenthesized ", " first (second :: rest)

/-- Tuples are told apart as what they hold. -/
theorem renderTuple_append_inj (h : ∀ a b, Apart write a b)
    (hopen : ∀ a, ∃ c rest, (write a).toList = c :: rest ∧ c ≠ ')') {as bs : List α}
    {x y : List Char}
    (hsame : (renderTuple (as.map write)).toList ++ x = (renderTuple (bs.map write)).toList ++ y) :
    as = bs ∧ x = y := by
  refine row_append_inj rfl toList_renderTuple h hopen (fun {as bs x y} hsame => ?_) hsame
  cases as with
  | nil =>
    cases bs with
    | nil => exact ⟨rfl, List.append_cancel_left hsame⟩
    | cons b bs => cases hsame
  | cons a as =>
    cases bs with
    | nil => cases hsame
    | cons b bs =>
      exact closing_append_inj ⟨',', [' '], rfl, by decide⟩ (fun a _ b _ => h a b) hsame

end Rows

end PegMachine
