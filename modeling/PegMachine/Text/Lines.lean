import PegMachine.Text.Location

/-!
# Offsets in lines

`Locates` says in terms of the lines of a text where an offset is: how many lines come before its own,
each with the newline that ends it, and how many characters of its own. The location of an offset is
read off the text around the offset instead: off the newlines before it, and the nearest ones on either
side. Both are the same (`locates_locate`), since a text falls into the lines before a newline and
those after it (`lines_append_newline`).
-/

namespace PegMachine.Text

/-- The number of characters that lines take up in a text, each with the newline that ends it. -/
def spanned : List (List Char) → Nat
  | [] => 0
  | line :: more => line.length + 1 + spanned more

/-- The offset lies in the given line of the text, which is the one that the location names, behind
the characters before the column. -/
structure Locates (text : List Char) (offset : Nat) (location : Location) (line : List Char) :
    Prop where
  number : 0 < location.line
  holds : (lines text)[location.line - 1]? = some line
  column : 0 < location.column ∧ location.column ≤ line.length + 1
  counted : (offset : Int) =
    spanned ((lines text).take (location.line - 1)) + (location.column - 1)

/-! ## Lines -/

section Lines

variable {line : List Char}

theorem lines_newline (rest : List Char) : lines ('\n' :: rest) = [] :: lines rest := by
  simp [lines]

/-- A character that is no newline belongs to the first line of the rest. -/
theorem lines_cons {c : Char} (h : c ≠ '\n') (rest : List Char) :
    ∃ first others, lines rest = first :: others ∧ lines (c :: rest) = (c :: first) :: others := by
  cases hrest : lines rest with
  | nil =>
    -- there is always a line
    cases rest with
    | nil => cases hrest
    | cons d rest =>
      unfold lines at hrest
      split at hrest
      · cases hrest
      · split at hrest
        · cases hrest
        · cases hrest
  | cons first others => exact ⟨first, others, rfl, by rw [lines, if_neg h, hrest]⟩

/-- A text falls into the lines before a newline and those after it. -/
theorem lines_append_newline (a b : List Char) : lines (a ++ '\n' :: b) = lines a ++ lines b := by
  induction a with
  | nil => exact lines_newline b
  | cons c a ih =>
    by_cases h : c = '\n'
    · subst h
      rw [List.cons_append, lines_newline, lines_newline, ih, List.cons_append]
    · obtain ⟨first, others, hwhole, hlines⟩ := lines_cons h (a ++ '\n' :: b)
      obtain ⟨first', others', hpart, hlines'⟩ := lines_cons h a
      rw [ih, hpart, List.cons_append] at hwhole
      cases hwhole
      rw [List.cons_append, hlines, hlines', List.cons_append]

/-- A text without newlines is a line. -/
theorem lines_of_not_mem (h : '\n' ∉ line) : lines line = [line] := by
  induction line with
  | nil => rfl
  | cons c rest ih =>
    obtain ⟨hc, hrest⟩ := List.ne_and_not_mem_of_not_mem_cons h
    rw [lines, if_neg (Ne.symm hc), ih hrest]

/-- There is one more line than newlines. -/
theorem length_lines (text : List Char) : (lines text).length = text.count '\n' + 1 := by
  induction text with
  | nil => rfl
  | cons c rest ih =>
    by_cases h : c = '\n'
    · subst h
      rw [lines_newline, List.length_cons, ih, List.count_cons_self]
    · obtain ⟨first, others, hrest, hlines⟩ := lines_cons h rest
      rw [hrest] at ih
      rw [hlines, List.count_cons_of_ne h]
      exact ih

/-- The lines of a text take up one character more than the text, whose last line no newline ends. -/
theorem spanned_lines (text : List Char) : spanned (lines text) = text.length + 1 := by
  induction text with
  | nil => rfl
  | cons c rest ih =>
    by_cases h : c = '\n'
    · subst h
      rw [lines_newline, spanned, ih, List.length_nil, List.length_cons]
      omega
    · obtain ⟨first, others, hrest, hlines⟩ := lines_cons h rest
      rw [hrest, spanned] at ih
      rw [hlines, spanned, List.length_cons, List.length_cons]
      omega

end Lines

/-! ## The line of an offset -/

section Offset

variable {text : List Char} {offset : Nat}

/-- Up to its first newline a text is free of newlines. -/
theorem takeWhile_newline (text : List Char) :
    '\n' ∉ text.takeWhile (· ≠ '\n') ∧
      (text = text.takeWhile (· ≠ '\n') ∨
        ∃ rest, text = text.takeWhile (· ≠ '\n') ++ '\n' :: rest) := by
  induction text with
  | nil => simp
  | cons c rest ih =>
    by_cases h : c = '\n'
    · subst h
      simp
    · obtain ⟨hfree, hsplit⟩ := ih
      rw [List.takeWhile_cons_of_pos (by simpa using h)]
      refine ⟨fun hmem => ?_, ?_⟩
      · rcases List.mem_cons.1 hmem with hsame | hmem
        · exact h hsame.symm
        · exact hfree hmem
      · rcases hsplit with hwhole | ⟨more, hmore⟩
        · exact Or.inl (congrArg (c :: ·) hwhole)
        · exact Or.inr ⟨more, congrArg (c :: ·) hmore⟩

/-- In front of the line of an offset stand whole lines, as many as newlines. -/
theorem lines_before (h : offset ≤ text.length) :
    ∃ before, (∀ rest, lines (text.take offset ++ rest) =
        before ++ lines (lineBefore text offset ++ rest)) ∧
      before.length = (text.take offset).count '\n' ∧
      spanned before + (lineBefore text offset).length = offset ∧
      '\n' ∉ lineBefore text offset := by
  have hlength : (text.take offset).length = offset := List.length_take_of_le h
  obtain ⟨hfree, hsplit⟩ := takeWhile_newline (text.take offset).reverse
  rw [lineBefore, clamp_of_le h]
  generalize hline : (text.take offset).reverse.takeWhile (· ≠ '\n') = line at hfree hsplit ⊢
  have hfree' : '\n' ∉ line.reverse := fun hmem => hfree (List.mem_reverse.1 hmem)
  rcases hsplit with hwhole | ⟨rest, hrest⟩
  · have htake : text.take offset = line.reverse := by rw [← hwhole, List.reverse_reverse]
    rw [htake] at hlength ⊢
    refine ⟨[], fun _ => rfl, (List.count_eq_zero_of_not_mem hfree').symm, ?_, hfree'⟩
    rw [hlength]
    exact Nat.zero_add offset
  · have htake : text.take offset = rest.reverse ++ '\n' :: line.reverse := by
      rw [← List.reverse_reverse (text.take offset), hrest]
      simp
    rw [htake] at hlength ⊢
    refine ⟨lines rest.reverse, fun more => ?_, ?_, ?_, hfree'⟩
    · rw [List.append_assoc, List.cons_append, lines_append_newline]
    · rw [length_lines, List.count_append, List.count_cons_self,
        List.count_eq_zero_of_not_mem hfree']
    · rw [spanned_lines]
      rw [List.length_append, List.length_cons] at hlength
      omega

/-- A text that begins in the middle of a line has the rest of that as its first line. -/
theorem lines_after {front : List Char} (hfront : '\n' ∉ front) (h : offset ≤ text.length) :
    ∃ after, lines (front ++ text.drop offset) = (front ++ lineAfter text offset) :: after := by
  obtain ⟨hfree, hsplit⟩ := takeWhile_newline (text.drop offset)
  rw [lineAfter, clamp_of_le h]
  generalize (text.drop offset).takeWhile (· ≠ '\n') = line at hfree hsplit ⊢
  have hline : '\n' ∉ front ++ line := by
    rw [List.mem_append]
    exact fun hmem => hmem.elim hfront hfree
  rcases hsplit with hwhole | ⟨rest, hrest⟩
  · rw [hwhole]
    exact ⟨[], lines_of_not_mem hline⟩
  · rw [hrest, ← List.append_assoc, lines_append_newline, lines_of_not_mem hline]
    exact ⟨lines rest, rfl⟩

/-- The column of an offset is one more than the characters of its line before it. -/
theorem column_locate (h : offset ≤ text.length) :
    (locate text offset).column = (lineBefore text offset).length + 1 := by
  obtain ⟨before, -, -, hspanned, -⟩ := lines_before h
  show (offset : Int) - lineStart text offset + 1 = _
  rw [lineStart, clamp_of_le h]
  omega

/-- The location of an offset is where the offset lies in the lines of the text. -/
theorem locates_locate (h : offset ≤ text.length) :
    Locates text offset (locate text offset) (lineAt text offset) := by
  obtain ⟨before, hlines, hcount, hspanned, hfree⟩ := lines_before h
  obtain ⟨after, hafter⟩ := lines_after hfree h
  have hwhole : lines text = before ++ lineAt text offset :: after := by
    rw [lineAt, ← hafter, ← hlines, List.take_append_drop]
  have hnumber : (locate text offset).line - 1 = before.length := by
    rw [locate, clamp_of_le h, hcount, Nat.add_sub_cancel]
  have hcolumn := column_locate h
  refine ⟨Nat.succ_pos _, ?_, ?_, ?_⟩
  · rw [hnumber, hwhole, List.getElem?_append_right (Nat.le_refl _), Nat.sub_self]
    rfl
  · rw [hcolumn, lineAt, List.length_append]
    omega
  · rw [hnumber, hwhole, List.take_left, hcolumn]
    omega

/-- The caret stands under the column of the offset in its line. -/
theorem caretSnippet_eq (text : List Char) (offset : Int) :
    caretSnippet text offset = String.ofList (lineAt text offset ++
      '\n' :: List.replicate ((locate text offset).column - 1).toNat ' ' ++ ['^']) := by
  rw [caretSnippet, locate, Int.add_sub_cancel]

end Offset

end PegMachine.Text
