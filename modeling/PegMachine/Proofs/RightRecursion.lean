import PegMachine.Proofs.Outcomes
import PegMachine.Proofs.Prefixing

/-!
# Right recursion

A name that refers to itself at the end of a branch stands for a repetition. Two such grammars are
followed here for every text. `Grammar.list` asks for any number of a's and then a b; it backs out of
all the a's that it has read when the b is missing, and reports the place where it is missing
(`Grammar.list_yields`). `Grammar.items` asks for one or more items and then a full stop
(`Grammar.items_yields`).

What a rule reads is given by a set of words (`Rule.ReadsWords`). If it reads some words, then a rule
`row → rule row / rule` reads the longest row of them that stands at the offset
(`Rule.ReadsWords.endsAt_row`): it goes down as far as there are words, fails there, and succeeds with
the last word alone.
-/

namespace PegMachine

/-! ## Records -/

namespace FurthestFailures

/-- A failure further on is recorded alone, ... -/
theorem record_further {failures : FurthestFailures} {offset : Int} (h : failures.offset < offset)
    (message : String) :
    failures.record offset message = ⟨offset, StringSet.empty.insert message⟩ := by
  have hback : ¬ offset < failures.offset := by omega
  rw [FurthestFailures.record, if_neg hback, if_pos h]

/-- ... one at the same offset with the others, ... -/
theorem record_beside (offset : Int) (messages : StringSet) (message : String) :
    record ⟨offset, messages⟩ offset message = ⟨offset, messages.insert message⟩ := by
  simp [FurthestFailures.record]

/-- ... and those that lie further back are not. -/
theorem recordAll_of_lt {failures : FurthestFailures} {log : List Mismatch}
    (h : ∀ m ∈ log, (m.offset : Int) < failures.offset) : failures.recordAll log = failures := by
  induction log with
  | nil => rfl
  | cons m rest ih =>
    obtain ⟨hm, hrest⟩ := List.forall_mem_cons.1 h
    have hfirst : failures.record m.offset m.message = failures := if_pos hm
    exact (congrArg (recordAll · rest) hfirst).trans (ih hrest)

end FurthestFailures

/-! ## Rows of words -/

theorem Text.drop_succ_of_cons {text rest : List Char} {offset : Nat} {c : Char}
    (h : text.drop offset = c :: rest) : text.drop (offset + 1) = rest := by
  rw [← List.tail_drop, h, List.tail_cons]

theorem Text.length_succ_eq_iff (front : List Char) {behind : List Char} {c : Char} :
    front.length + 1 = (front ++ c :: behind).length ↔ behind = [] := by
  rw [← List.length_eq_zero_iff, List.length_append, List.length_cons]
  omega

/-- A text falls into words that stand at its beginning, as many as there are, and a rest. -/
theorem Text.exists_row {IsWord : List Char → Prop} (hwords : ¬ IsWord []) (text : List Char) :
    ∃ (words : List (List Char)) (rest : List Char), text = words.flatten ++ rest ∧
      (∀ word ∈ words, IsWord word) ∧ ∀ word, IsWord word → ¬ word <+: rest := by
  induction hlength : text.length using Nat.strong_induction_on generalizing text with
  | _ length ih =>
    by_cases hnone : ∀ word, IsWord word → ¬ word <+: text
    · exact ⟨[], text, rfl, nofun, hnone⟩
    · push Not at hnone
      -- a word is taken away from the beginning; it is not empty, so what is left is shorter
      obtain ⟨word, hword, behind, rfl⟩ := hnone
      have hpos : 0 < word.length := by
        refine List.length_pos_of_ne_nil ?_
        rintro rfl
        exact hwords hword
      rw [List.length_append] at hlength
      obtain ⟨words, rest, rfl, hall, hrest⟩ := ih behind.length (by omega) behind rfl
      refine ⟨word :: words, rest, ?_, List.forall_mem_cons.2 ⟨hword, hall⟩, hrest⟩
      rw [List.flatten_cons, List.append_assoc]

variable [RegexLibrary]

namespace Rule

variable {rules : RuleMap} {text rest : List Char} {offset : Nat} {name : String} {rule : Rule}
  {IsWord : List Char → Prop}

/-- The rule reads the words and nothing else: it ends behind a word that stands at the offset, and
fails where none does. -/
structure ReadsWords (rule : Rule) (rules : RuleMap) (text : List Char)
    (IsWord : List Char → Prop) : Prop where
  ends : ∀ {offset word rest}, IsWord word → text.drop offset = word ++ rest →
    ∃ log, rule.EndsAt rules text offset (offset + word.length) log
  fails : ∀ {offset}, (∀ word, IsWord word → ¬ word <+: text.drop offset) →
    ∃ log, rule.FailsAt rules text offset log

/-- Where no word stands the row fails, ... -/
theorem ReadsWords.failsAt_row (h : rule.ReadsWords rules text IsWord)
    (found : rules.get? name = some (.rule (.choice (.seq rule [.ref name]) rule [])))
    (hnone : ∀ word, IsWord word → ¬ word <+: text.drop offset) :
    ∃ log, (ref name).FailsAt rules text offset log := by
  obtain ⟨log, hfails⟩ := h.fails hnone
  exact ⟨log ++ log, (hfails.sequence.choice hfails).reference found⟩

/-- ... and otherwise it ends behind the last of the words that stand there one after the other. -/
theorem ReadsWords.endsAt_row (h : rule.ReadsWords rules text IsWord)
    (found : rules.get? name = some (.rule (.choice (.seq rule [.ref name]) rule [])))
    (hnone : ∀ word, IsWord word → ¬ word <+: rest) {words : List (List Char)} (hwords : words ≠ [])
    (hall : ∀ word ∈ words, IsWord word) (hrow : text.drop offset = words.flatten ++ rest) :
    ∃ log, (ref name).EndsAt rules text offset (offset + words.flatten.length) log := by
  induction words generalizing offset with
  | nil => exact absurd rfl hwords
  | cons word words ih =>
    obtain ⟨hword, hall⟩ := List.forall_mem_cons.1 hall
    rw [List.flatten_cons, List.append_assoc] at hrow
    have hbehind : text.drop (offset + word.length) = words.flatten ++ rest := by
      rw [← List.drop_drop, hrow, List.drop_left]
    obtain ⟨log, hends⟩ := h.ends hword hrow
    by_cases hlast : words = []
    · -- no row goes on behind the last word, so the second branch reads that word once more
      subst hlast
      rw [List.flatten_nil, List.nil_append] at hbehind
      rw [← hbehind] at hnone
      obtain ⟨log', hfails⟩ := h.failsAt_row found hnone
      rw [List.flatten_cons, List.flatten_nil, List.append_nil]
      exact ⟨_, ((hends.sequence_fails hfails).choice_ends hends).reference found⟩
    · obtain ⟨log', hmore⟩ := ih hlast hall hbehind
      rw [List.flatten_cons, List.length_append, ← Nat.add_assoc]
      exact ⟨_, (hends.sequence hmore).choice.reference found⟩

end Rule

namespace Grammar

/-! ## Any number of a's, and then a b -/

section List

variable {text rest : List Char} {offset n : Nat}

/-- Any number of a's, and then a b. -/
def list : Grammar where
  rules := .ofList [
    ("S", .rule (.choice (.seq (.character 'a') [.ref "S"]) (.character 'b') []))]
  start := "S"

theorem list_found : list.rules.get? "S" =
    some (.rule (.choice (.seq (.character 'a') [.ref "S"]) (.character 'b') [])) := rfl

/-- Behind the a's that it has read it ends with a b, ... -/
theorem list_endsAt (h : text.drop offset = List.replicate n 'a' ++ 'b' :: rest) :
    (Rule.ref "S").EndsAt list.rules text offset (offset + n + 1)
      [⟨offset + n, Rule.missing 'a'⟩] := by
  induction n generalizing offset with
  | zero =>
    have hnone : (text.drop offset).head? ≠ some 'a' := by simp [h]
    exact ((Rule.failsAt_character hnone).sequence.choice_ends
      (Rule.endsAt_character h)).reference list_found
  | succ n ih =>
    have hrest := ih (Text.drop_succ_of_cons h)
    rw [Nat.add_right_comm offset 1 n] at hrest
    exact ((Rule.endsAt_character h).sequence hrest).choice.reference list_found

/-- ... and where there is none it fails, first there and then at each of the a's on the way back. -/
theorem list_failsAt (h : text.drop offset = List.replicate n 'a' ++ rest)
    (hnoA : rest.head? ≠ some 'a') (hnoB : rest.head? ≠ some 'b') :
    ∃ back, (∀ m ∈ back, m.offset < offset + n) ∧
      (Rule.ref "S").FailsAt list.rules text offset
        (⟨offset + n, Rule.missing 'a'⟩ :: ⟨offset + n, Rule.missing 'b'⟩ :: back) := by
  induction n generalizing offset with
  | zero =>
    have hrest : text.drop offset = rest := h
    subst hrest
    exact ⟨[], nofun, ((Rule.failsAt_character hnoA).sequence.choice
      (Rule.failsAt_character hnoB)).reference list_found⟩
  | succ n ih =>
    obtain ⟨back, hback, hrest⟩ := ih (Text.drop_succ_of_cons h)
    rw [Nat.add_right_comm offset 1 n] at hback hrest
    -- with the rest of the branch failing, the b is missed at this a too, further back
    have hnoB' : (text.drop offset).head? ≠ some 'b' := by simp [h, List.replicate_succ]
    refine ⟨back ++ [⟨offset, Rule.missing 'b'⟩], ?_, ?_⟩
    · intro m hm
      rcases List.mem_append.1 hm with hm | hm
      · exact hback m hm
      · rw [List.mem_singleton.1 hm]
        exact Nat.lt_add_of_pos_right (Nat.succ_pos n)
    · exact (((Rule.endsAt_character h).sequence_fails hrest).choice
        (Rule.failsAt_character hnoB')).reference list_found

/-- The number of a's that a text begins with. -/
def leadingAs (text : List Char) : Nat := (text.takeWhile (· = 'a')).length

omit [RegexLibrary] in
/-- A text is the a's that it begins with and a rest. -/
theorem leadingAs_append (text : List Char) :
    ∃ rest, text = List.replicate (leadingAs text) 'a' ++ rest ∧ rest.head? ≠ some 'a' := by
  have hleading : text.takeWhile (· = 'a') = List.replicate (leadingAs text) 'a' :=
    List.eq_replicate_of_mem fun c hc => by simpa using List.all_eq_true.1 List.all_takeWhile c hc
  refine ⟨text.dropWhile (· = 'a'), ?_, ?_⟩
  · rw [← hleading, List.takeWhile_append_dropWhile]
  · intro hfirst
    have hnot := List.head?_dropWhile_not (· = 'a') text
    simp [hfirst] at hnot

omit [RegexLibrary] in
/-- A text is a word of the language if a single b stands behind the a's that it begins with. -/
theorem replicate_append_iff (hnoA : rest.head? ≠ some 'a') :
    (∃ m, List.replicate n 'a' ++ rest = List.replicate m 'a' ++ ['b']) ↔ rest = ['b'] := by
  refine ⟨?_, fun h => ⟨n, by rw [h]⟩⟩
  rintro ⟨m, h⟩
  induction n generalizing m with
  | zero =>
    cases m with
    | zero => exact h
    | succ m =>
      have hrest : rest = 'a' :: (List.replicate m 'a' ++ ['b']) := h
      simp [hrest] at hnoA
  | succ n ih =>
    cases m with
    | zero => simp [List.replicate_succ] at h
    | succ m => exact ih m (List.cons.inj h).2

omit [RegexLibrary] in
/-- A surplus is reported behind the word, ... -/
theorem recordAll_surplus (n : Nat) :
    FurthestFailures.empty.recordAll [⟨n, Rule.missing 'a'⟩, ⟨n + 1, endOfInputMessage⟩] =
      ⟨n + 1, .ofList ["expected end of input"]⟩ := by
  have hnext : (n : Int) < (n + 1 : Nat) := by omega
  simp only [FurthestFailures.recordAll, List.foldl_cons, List.foldl_nil]
  rw [FurthestFailures.record_empty, FurthestFailures.record_further hnext]
  rfl

omit [RegexLibrary] in
/-- ... and a missing b where it is missing, not at the a's before. -/
theorem recordAll_missing {back : List Mismatch} (hback : ∀ m ∈ back, m.offset < n) :
    FurthestFailures.empty.recordAll
      (⟨n, Rule.missing 'a'⟩ :: ⟨n, Rule.missing 'b'⟩ :: back) =
      ⟨n, .ofList ["expected match of 'a'", "expected match of 'b'"]⟩ := by
  have hboth : (StringSet.empty.insert (Rule.missing 'a')).insert (Rule.missing 'b') =
      .ofList ["expected match of 'a'", "expected match of 'b'"] := by decide
  calc FurthestFailures.empty.recordAll (⟨n, Rule.missing 'a'⟩ :: ⟨n, Rule.missing 'b'⟩ :: back)
    _ = ((FurthestFailures.empty.record n (Rule.missing 'a')).record n
          (Rule.missing 'b')).recordAll back := rfl
    _ = (⟨n, .ofList ["expected match of 'a'", "expected match of 'b'"]⟩ :
          FurthestFailures).recordAll back := by
      rw [FurthestFailures.record_empty, FurthestFailures.record_beside, hboth]
    _ = _ := FurthestFailures.recordAll_of_lt fun m hm => Int.ofNat_lt.2 (hback m hm)

/-- With a b behind its a's a text is accepted if nothing is left over, ... -/
theorem list_yields_of_b (n : Nat) (behind : List Char) :
    ∃ report, list.Yields (List.replicate n 'a' ++ 'b' :: behind) report ∧
      (report.accepted = true ↔ behind = []) ∧
      (behind ≠ [] → report.failures = ⟨n + 1, .ofList ["expected end of input"]⟩) := by
  have hends : (Rule.ref "S").EndsAt list.rules (List.replicate n 'a' ++ 'b' :: behind) 0
      (0 + n + 1) [⟨0 + n, Rule.missing 'a'⟩] := list_endsAt rfl
  rw [Nat.zero_add] at hends
  obtain ⟨report, hyields, haccepted, hfailures⟩ := yields_of_endsAt list hends
  have hwhole : n + 1 = (List.replicate n 'a' ++ 'b' :: behind).length ↔ behind = [] := by
    rw [← Text.length_succ_eq_iff (List.replicate n 'a'), List.length_replicate]
  refine ⟨report, hyields, haccepted.trans hwhole, fun hmore => ?_⟩
  rw [hfailures (mt hwhole.1 hmore)]
  exact recordAll_surplus n

/-- ... and without it is rejected. -/
theorem list_yields_of_no_b (n : Nat) (hnoA : rest.head? ≠ some 'a')
    (hnoB : rest.head? ≠ some 'b') :
    ∃ report, list.Yields (List.replicate n 'a' ++ rest) report ∧ report.accepted = false ∧
      report.failures = ⟨n, .ofList ["expected match of 'a'", "expected match of 'b'"]⟩ := by
  have hstands : (List.replicate n 'a' ++ rest).drop 0 = List.replicate n 'a' ++ rest := rfl
  obtain ⟨back, hback, hfails⟩ := list_failsAt hstands hnoA hnoB
  rw [Nat.zero_add] at hback hfails
  obtain ⟨report, hyields, hrejected, hfailures⟩ := yields_of_failsAt list hfails
  exact ⟨report, hyields, hrejected, hfailures.trans (recordAll_missing hback)⟩

/-- What is reported of a text: whether it is a word of the language and, if it is not, where the a's
at its beginning end, and what is left over behind the b that stands there, or what is missing. -/
structure ListReport (text : List Char) (report : Report) : Prop where
  accepts : report.accepted = true ↔ ∃ n, text = List.replicate n 'a' ++ ['b']
  leftOver : report.accepted = false → text[leadingAs text]? = some 'b' →
    report.failures = ⟨leadingAs text + 1, .ofList ["expected end of input"]⟩
  missing : report.accepted = false → text[leadingAs text]? ≠ some 'b' →
    report.failures = ⟨leadingAs text, .ofList ["expected match of 'a'", "expected match of 'b'"]⟩

theorem list_yields (text : List Char) :
    ∃ report, list.Yields text report ∧ ListReport text report := by
  obtain ⟨rest, htext, hnoA⟩ := leadingAs_append text
  have hwords : (∃ n, text = List.replicate n 'a' ++ ['b']) ↔ rest = ['b'] := by
    rw [htext]
    exact replicate_append_iff hnoA
  have hbehind : text[leadingAs text]? = rest.head? := by
    calc text[leadingAs text]?
      _ = (List.replicate (leadingAs text) 'a' ++ rest)[leadingAs text]? :=
        congrArg (·[leadingAs text]?) htext
      _ = rest.head? := by
        rw [List.getElem?_append_right (by simp), List.length_replicate, Nat.sub_self,
          List.head?_eq_getElem?]
  by_cases hb : rest.head? = some 'b'
  · obtain ⟨behind, rfl⟩ := List.head?_eq_some_iff.1 hb
    obtain ⟨report, hyields, haccepted, hfailures⟩ := list_yields_of_b (leadingAs text) behind
    rw [← htext] at hyields
    refine ⟨report, hyields, ?_, fun hrejected _ => ?_, fun _ hno => absurd (hbehind.trans hb) hno⟩
    · rw [haccepted, hwords, List.cons_eq_cons]
      exact (and_iff_right rfl).symm
    · exact hfailures (mt haccepted.2 (by rw [hrejected]; nofun))
  · obtain ⟨report, hyields, hrejected, hfailures⟩ := list_yields_of_no_b (leadingAs text) hnoA hb
    rw [← htext] at hyields
    refine ⟨report, hyields, ?_, fun _ hat => absurd (hbehind.symm.trans hat) hb,
      fun _ _ => hfailures⟩
    rw [hwords, hrejected]
    refine ⟨nofun, fun h => absurd ?_ hb⟩
    rw [h]
    rfl

end List

/-! ## One or more items, and then a full stop -/

section Items

variable {text rest : List Char} {offset n : Nat}

/-- One or more items, and then a full stop; an item is an a with a b, or a c. -/
def items : Grammar where
  rules := .ofList [
    ("S", .rule (.seq (.ref "Items") [.character '.'])),
    ("Items", .rule (.choice (.seq (.ref "Item") [.ref "Items"]) (.ref "Item") [])),
    ("Item", .rule (.choice (.seq (.character 'a') [.character 'b']) (.character 'c') []))]
  start := "S"

theorem items_start : items.rules.get? items.start =
    some (.rule (.seq (.ref "Items") [.character '.'])) := rfl

theorem items_found : items.rules.get? "Items" =
    some (.rule (.choice (.seq (.ref "Item") [.ref "Items"]) (.ref "Item") [])) := rfl

theorem item_found : items.rules.get? "Item" =
    some (.rule (.choice (.seq (.character 'a') [.character 'b']) (.character 'c') [])) := rfl

/-- The items. -/
def IsItem (word : List Char) : Prop := word = ['a', 'b'] ∨ word = ['c']

theorem readsWords_item (text : List Char) :
    (Rule.ref "Item").ReadsWords items.rules text IsItem where
  ends := by
    rintro offset word rest (rfl | rfl) h
    · exact ⟨_, ((Rule.endsAt_character h).sequence
        (Rule.endsAt_character (Text.drop_succ_of_cons h))).choice.reference item_found⟩
    · have hnoA : (text.drop offset).head? ≠ some 'a' := by simp [h]
      exact ⟨_, ((Rule.failsAt_character hnoA).sequence.choice_ends
        (Rule.endsAt_character h)).reference item_found⟩
  fails := by
    intro offset hnone
    have hnoC : (text.drop offset).head? ≠ some 'c' := by
      intro hc
      obtain ⟨rest, hrest⟩ := List.head?_eq_some_iff.1 hc
      exact hnone ['c'] (.inr rfl) ⟨rest, hrest.symm⟩
    by_cases ha : (text.drop offset).head? = some 'a'
    · obtain ⟨rest, hrest⟩ := List.head?_eq_some_iff.1 ha
      have hnoB : (text.drop (offset + 1)).head? ≠ some 'b' := by
        rw [Text.drop_succ_of_cons hrest]
        intro hb
        obtain ⟨behind, rfl⟩ := List.head?_eq_some_iff.1 hb
        exact hnone ['a', 'b'] (.inl rfl) ⟨behind, hrest.symm⟩
      exact ⟨_, (((Rule.endsAt_character hrest).sequence_fails
        (Rule.failsAt_character hnoB)).choice (Rule.failsAt_character hnoC)).reference item_found⟩
    · exact ⟨_, ((Rule.failsAt_character ha).sequence.choice
        (Rule.failsAt_character hnoC)).reference item_found⟩

/-- Without an item at its beginning a text is rejected, ... -/
theorem items_yields_of_none (hnone : ∀ word, IsItem word → ¬ word <+: text) :
    ∃ report, items.Yields text report ∧ report.accepted = false := by
  rw [← List.drop_zero (l := text)] at hnone
  obtain ⟨log, hfails⟩ := (readsWords_item text).failsAt_row items_found hnone
  obtain ⟨report, hyields, hrejected, -⟩ :=
    yields_of_failsAt items (hfails.sequence.reference items_start)
  exact ⟨report, hyields, hrejected⟩

/-- ... and with some it is accepted if nothing but a full stop stands behind the last of them. -/
theorem items_yields_of_row {words : List (List Char)} (hwords : words ≠ [])
    (hall : ∀ word ∈ words, IsItem word) (hnone : ∀ word, IsItem word → ¬ word <+: rest) :
    ∃ report, items.Yields (words.flatten ++ rest) report ∧
      (report.accepted = true ↔ rest = ['.']) := by
  have hstands : (words.flatten ++ rest).drop 0 = words.flatten ++ rest := rfl
  obtain ⟨log, hends⟩ :=
    (readsWords_item (words.flatten ++ rest)).endsAt_row items_found hnone hwords hall hstands
  have hrest : (words.flatten ++ rest).drop (0 + words.flatten.length) = rest := by
    rw [Nat.zero_add, List.drop_left]
  by_cases hstop : rest.head? = some '.'
  · obtain ⟨behind, rfl⟩ := List.head?_eq_some_iff.1 hstop
    obtain ⟨report, hyields, haccepted, -⟩ := yields_of_endsAt items
      ((hends.sequence (Rule.endsAt_character hrest)).reference items_start)
    refine ⟨report, hyields, ?_⟩
    rw [haccepted, Nat.zero_add, Text.length_succ_eq_iff, List.cons_eq_cons]
    exact (and_iff_right rfl).symm
  · rw [← hrest] at hstop
    obtain ⟨report, hyields, hrejected, -⟩ := yields_of_failsAt items
      ((hends.sequence_fails (Rule.failsAt_character hstop)).reference items_start)
    refine ⟨report, hyields, ?_⟩
    rw [hrejected]
    refine ⟨nofun, fun h => absurd ?_ hstop⟩
    rw [hrest, h]
    rfl

/-- The rows of one or more items with a full stop behind them are accepted, and nothing else. -/
theorem items_yields (text : List Char) :
    ∃ report, items.Yields text report ∧
      (report.accepted = true ↔ ∃ words, words ≠ [] ∧ (∀ word ∈ words, IsItem word) ∧
        text = words.flatten ++ ['.']) := by
  by_cases hmember : ∃ words, words ≠ [] ∧ (∀ word ∈ words, IsItem word) ∧
      text = words.flatten ++ ['.']
  · obtain ⟨words, hwords, hall, rfl⟩ := id hmember
    have hnone : ∀ word, IsItem word → ¬ word <+: ['.'] := by
      rintro word (rfl | rfl) <;> decide
    obtain ⟨report, hyields, haccepted⟩ := items_yields_of_row hwords hall hnone
    exact ⟨report, hyields, iff_of_true (haccepted.2 rfl) hmember⟩
  · suffices ∃ report, items.Yields text report ∧ report.accepted ≠ true by
      obtain ⟨report, hyields, hrejected⟩ := this
      exact ⟨report, hyields, iff_of_false hrejected hmember⟩
    have hnothing : ¬ IsItem [] := by rintro (h | h) <;> cases h
    obtain ⟨words, rest, rfl, hall, hnone⟩ := Text.exists_row hnothing text
    by_cases hwords : words = []
    · subst hwords
      obtain ⟨report, hyields, hrejected⟩ := items_yields_of_none hnone
      exact ⟨report, hyields, by rw [hrejected]; nofun⟩
    · obtain ⟨report, hyields, haccepted⟩ := items_yields_of_row hwords hall hnone
      refine ⟨report, hyields, mt haccepted.1 ?_⟩
      rintro rfl
      exact hmember ⟨words, hwords, hall, rfl⟩

end Items

/-! ## Both languages -/

/-- The two grammars accept their languages and nothing else, whatever the text: a's with a b behind
them, and items with a full stop behind them. Of a text that is no word of the first language it is
reported where its a's end, and what is missing there, or left over behind the b. -/
theorem languages_of_right_recursion (text : List Char) :
    (∃ report, list.Yields text report ∧ ListReport text report) ∧
      ∃ report, items.Yields text report ∧
        (report.accepted = true ↔ ∃ words, words ≠ [] ∧ (∀ word ∈ words, IsItem word) ∧
          text = words.flatten ++ ['.']) :=
  ⟨list_yields text, items_yields text⟩

end Grammar

end PegMachine
