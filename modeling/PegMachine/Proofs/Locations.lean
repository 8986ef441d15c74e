import PegMachine.Text.Lines

/-!
# Offsets and locations

Each offset of a text has a location in it and each location in a text is that of one offset, which
comes later the further on the location is (`locate_bijective`). One direction reads the location off
the text around the offset (`locates_locate`). The other holds because lines take up stretches of the
text one behind the other, so that of two locations the later one has the greater offset
(`Location.offsetIn_lt`); no second look at the text is needed.

The snippet of an offset is the whole line that the location names, and a caret that stands where the
offset lies in that line (`caretSnippet_marks`).
-/

namespace PegMachine.Text

/-- The lines of a text are what its newlines split it into. -/
theorem lines_eq_splitOn (text : List Char) : lines text = text.splitOn '\n' := by
  induction text with
  | nil => exact (List.splitOn_nil '\n').symm
  | cons c rest ih =>
    rw [List.splitOn_cons_eq_if_modifyHead, ← ih]
    by_cases h : c = '\n'
    · rw [h, lines_newline, if_pos (beq_self_eq_true '\n')]
    · obtain ⟨first, others, hrest, hlines⟩ := lines_cons h rest
      rw [if_neg (mt beq_iff_eq.1 h), hlines, hrest, List.modifyHead_cons]

/-! ## What lines take up -/

section Spanned

variable {all : List (List Char)} {line : List Char} {i j : Nat}

theorem spanned_append (front back : List (List Char)) :
    spanned (front ++ back) = spanned front + spanned back := by
  induction front with
  | nil => exact (Nat.zero_add _).symm
  | cons line more ih =>
    rw [List.cons_append, spanned, spanned, ih]
    omega

/-- The lines before a line take up no more than those before a later one. -/
theorem spanned_take_le (h : i ≤ j) : spanned (all.take i) ≤ spanned (all.take j) := by
  obtain ⟨k, rfl⟩ := Nat.exists_eq_add_of_le h
  rw [List.take_add, spanned_append]
  exact Nat.le_add_right _ _

/-- A line stands behind those before it, with the newline that ends it. -/
theorem spanned_take_succ (h : all[i]? = some line) :
    spanned (all.take (i + 1)) = spanned (all.take i) + (line.length + 1) := by
  rw [List.take_add_one, h, spanned_append]
  rfl

end Spanned

/-! ## Locations in a text -/

namespace Location

/-- The location names a line of the text, and a column of that line or the one behind its end. -/
structure Within (text : List Char) (location : Location) : Prop where
  line : 1 ≤ location.line ∧ location.line ≤ (lines text).length
  column : 1 ≤ location.column ∧
    ∃ line, (lines text)[location.line - 1]? = some line ∧ location.column ≤ line.length + 1

/-- The offset that a location in a text stands for: what the lines before its own take up, and the
characters before its column. -/
def offsetIn (text : List Char) (location : Location) : Int :=
  spanned ((lines text).take (location.line - 1)) + (location.column - 1)

/-- A location is further on when its line is, or its column on the same line. -/
instance : LT Location :=
  ⟨fun a b => a.line < b.line ∨ a.line = b.line ∧ a.column < b.column⟩

theorem lt_iff {a b : Location} :
    a < b ↔ a.line < b.line ∨ a.line = b.line ∧ a.column < b.column :=
  Iff.rfl

/-- Two locations are equal, or one is further on. -/
theorem lt_trichotomy (a b : Location) : a < b ∨ a = b ∨ b < a := by
  have hequal : a = b ↔ a.line = b.line ∧ a.column = b.column := by
    cases a
    cases b
    rw [Location.mk.injEq]
  rw [hequal, lt_iff, lt_iff]
  omega

variable {text : List Char} {a b : Location}

/-- A location further on has a greater offset. -/
theorem offsetIn_lt (ha : a.Within text) (hb : b.Within text) (h : a < b) :
    a.offsetIn text < b.offsetIn text := by
  obtain ⟨-, line, hline, hend⟩ := ha.column
  obtain ⟨hstart, -⟩ := hb.column
  have hfirst := ha.line.1
  unfold offsetIn
  rcases lt_iff.1 h with hless | ⟨hsame, hless⟩
  · -- the whole line of the first location stands before the line of the second
    have hwhole := spanned_take_succ hline
    have hbefore : spanned ((lines text).take (a.line - 1 + 1)) ≤
        spanned ((lines text).take (b.line - 1)) := spanned_take_le (by omega)
    omega
  · rw [hsame]
    omega

/-- Locations with the same offset are equal. -/
theorem eq_of_offsetIn (ha : a.Within text) (hb : b.Within text)
    (h : a.offsetIn text = b.offsetIn text) : a = b := by
  rcases lt_trichotomy a b with hless | hsame | hless
  · exact absurd h (Int.ne_of_lt (offsetIn_lt ha hb hless))
  · exact hsame
  · exact absurd h.symm (Int.ne_of_lt (offsetIn_lt hb ha hless))

/-- A location in a text stands for an offset of the text. -/
theorem offsetIn_le (h : a.Within text) : 0 ≤ a.offsetIn text ∧ a.offsetIn text ≤ text.length := by
  obtain ⟨hstart, line, hline, hend⟩ := h.column
  have hwhole := spanned_take_succ hline
  have hall : spanned ((lines text).take (a.line - 1 + 1)) ≤ text.length + 1 := by
    have hlast := h.line
    rw [← spanned_lines, ← congrArg spanned (List.take_length (l := lines text))]
    exact spanned_take_le (by omega)
  unfold offsetIn
  omega

end Location

section Offset

variable {text : List Char} {offset : Nat}

/-- The location of an offset is in the text, and stands for the offset. -/
theorem within_locate (h : offset ≤ text.length) :
    (locate text offset).Within text ∧ (locate text offset).offsetIn text = offset := by
  obtain ⟨hnumber, hholds, ⟨hfirst, hlast⟩, hcounted⟩ := locates_locate h
  have hinside := (List.getElem?_eq_some_iff.1 hholds).1
  exact ⟨⟨⟨hnumber, by omega⟩, hfirst, _, hholds, hlast⟩, hcounted.symm⟩

/-- A location in the text is that of the offset that it stands for. -/
theorem locate_offsetIn {location : Location} (h : location.Within text)
    (hoffset : location.offsetIn text = offset) : locate text offset = location := by
  have hinside : offset ≤ text.length := by
    have hbounds := Location.offsetIn_le h
    omega
  obtain ⟨hwithin, hcounted⟩ := within_locate hinside
  exact Location.eq_of_offsetIn hwithin h (hcounted.trans hoffset.symm)

/-- An offset further on has a location further on. -/
theorem locate_lt {a b : Nat} (hless : a < b) (hb : b ≤ text.length) :
    locate text a < locate text b := by
  obtain ⟨hwithin, hcounted⟩ := within_locate (Nat.le_trans (Nat.le_of_lt hless) hb)
  obtain ⟨hwithin', hcounted'⟩ := within_locate hb
  rcases Location.lt_trichotomy (locate text a) (locate text b) with hbefore | hsame | hbehind
  · exact hbefore
  · rw [hsame] at hcounted
    omega
  · have hgreater := Location.offsetIn_lt hwithin' hwithin hbehind
    omega

end Offset

/-- With the lines that newlines split a text into, the offsets of a text and the locations in it are
in bijection: each offset has a location in the text, which stands for it; each location in the text
stands for one of its offsets, and is the location of that. Different offsets have different locations,
and an offset further on has a location further on. -/
theorem locate_bijective (text : List Char) :
    lines text = text.splitOn '\n' ∧
      (∀ offset : Nat, offset ≤ text.length →
        (locate text offset).Within text ∧ (locate text offset).offsetIn text = offset) ∧
      (∀ location : Location, location.Within text →
        ∃ offset : Nat, offset ≤ text.length ∧ location.offsetIn text = offset ∧
          locate text offset = location) ∧
      (∀ a b : Nat, a ≤ text.length → b ≤ text.length →
        locate text a = locate text b → a = b) ∧
      ∀ a b : Nat, a < b → b ≤ text.length → locate text a < locate text b := by
  refine ⟨lines_eq_splitOn text, fun _ => within_locate, fun location hwithin => ?_,
    fun a b ha hb hsame => ?_, fun _ _ => locate_lt⟩
  · obtain ⟨hstart, hend⟩ := Location.offsetIn_le hwithin
    obtain ⟨offset, hoffset⟩ := Int.eq_ofNat_of_zero_le hstart
    rw [hoffset] at hend
    exact ⟨offset, Int.ofNat_le.1 hend, hoffset, locate_offsetIn hwithin hoffset⟩
  · have hcounted := (within_locate ha).2
    rw [hsame, (within_locate hb).2] at hcounted
    exact (Int.ofNat_inj.1 hcounted).symm

/-- A text with an empty line in it and another one at its end. -/
def sample : List Char := ['a', '\n', '\n', 'b', 'c', '\n']

theorem locate_bijective_sample :
    6 ≤ sample.length ∧ Location.Within sample ⟨3, 3⟩ ∧ 1 < 2 ∧
      ((locate sample 6).Within sample ∧ (locate sample 6).offsetIn sample = 6) ∧
      (∃ offset : Nat, offset ≤ sample.length ∧ Location.offsetIn sample ⟨3, 3⟩ = offset ∧
        locate sample offset = ⟨3, 3⟩) ∧
      locate sample 1 < locate sample 2 :=
  have hend : 6 ≤ sample.length := by decide
  have hwithin : Location.Within sample ⟨3, 3⟩ :=
    ⟨by decide, by decide, ['b', 'c'], by decide, by decide⟩
  have ⟨_, hlocated, hstands, _, hordered⟩ := locate_bijective sample
  ⟨hend, hwithin, by decide, hlocated 6 hend, hstands _ hwithin, hordered 1 2 (by decide) (by decide)⟩

/-! ## Carets -/

section Caret

variable {text : List Char} {offset : Nat}

/-- The line of an offset is free of newlines. -/
theorem not_mem_lineAt (h : offset ≤ text.length) : '\n' ∉ lineAt text offset := by
  obtain ⟨_, -, -, -, hbefore⟩ := lines_before h
  have hafter : '\n' ∉ lineAfter text offset := (takeWhile_newline _).1
  rw [lineAt, List.mem_append]
  exact fun hmem => hmem.elim hbefore hafter

/-- In the line of an offset the character at the offset stands behind those before it, unless that is
a newline. -/
theorem getElem?_lineAt (h : offset ≤ text.length) :
    (lineAt text offset)[(lineBefore text offset).length]? = text[offset]?.filter (· ≠ '\n') := by
  rw [lineAt, List.getElem?_append_right (Nat.le_refl _), Nat.sub_self, ← List.head?_eq_getElem?,
    lineAfter, clamp_of_le h, List.head?_takeWhile, List.head?_drop]

/-- The snippet shows the line of the offset, and under it a caret that stands where the offset lies
in that line. -/
structure Marks (text : List Char) (offset : Nat) (row : List Char) (indent : Nat)
    (snippet : String) : Prop where
  /-- The line is the one that the location of the offset names. -/
  holds : (lines text)[(locate text offset).line - 1]? = some row
  /-- The caret stands in the column of the location. -/
  column : (locate text offset).column = indent + 1
  /-- The place in the line is that of the offset in the text. -/
  counted : offset = spanned ((lines text).take ((locate text offset).line - 1)) + indent
  shown : snippet = String.ofList (row ++ '\n' :: List.replicate indent ' ' ++ ['^'])
  twoLines : lines snippet.toList = [row, List.replicate indent ' ' ++ ['^']]
  /-- A character of the line has the caret under it. -/
  under : ∀ c, text[offset]? = some c → c ≠ '\n' → row[indent]? = some c
  /-- At the end of the line the caret stands one past it. -/
  past : text[offset]? = some '\n' ∨ offset = text.length → indent = row.length

/-- The snippet of an offset marks the offset in its line. -/
theorem caretSnippet_marks (h : offset ≤ text.length) :
    ∃ line indent, Marks text offset line indent (caretSnippet text offset) := by
  obtain ⟨-, hholds, -, hcounted⟩ := locates_locate h
  have hcolumn := column_locate h
  have hcharacter := getElem?_lineAt h
  have hindent : ((locate text offset).column - 1).toNat = (lineBefore text offset).length := by
    omega
  have hshown := caretSnippet_eq text offset
  rw [hindent] at hshown
  refine ⟨lineAt text offset, (lineBefore text offset).length, hholds, hcolumn, by omega, hshown, ?_,
    fun c hc hline => ?_, fun hend => ?_⟩
  · have hcaret : '\n' ∉ List.replicate (lineBefore text offset).length ' ' ++ ['^'] := by
      simp
    rw [hshown, String.toList_ofList, List.append_assoc, List.cons_append, lines_append_newline,
      lines_of_not_mem (not_mem_lineAt h), lines_of_not_mem hcaret]
    rfl
  · rw [hcharacter, hc, Option.filter_some, if_pos (decide_eq_true hline)]
  · have hnone : text[offset]?.filter (· ≠ '\n') = none := by
      rcases hend with hnewline | rfl
      · rw [hnewline]
        rfl
      · rw [List.getElem?_eq_none (Nat.le_refl _)]
        rfl
    rw [hnone, List.getElem?_eq_none_iff] at hcharacter
    rw [lineAt, List.length_append] at hcharacter ⊢
    omega

end Caret

theorem caretSnippet_marks_sample :
    5 ≤ sample.length ∧ ∃ line indent, Marks sample 5 line indent (caretSnippet sample 5) :=
  have hinside : 5 ≤ sample.length := by decide
  ⟨hinside, caretSnippet_marks hinside⟩

end PegMachine.Text
