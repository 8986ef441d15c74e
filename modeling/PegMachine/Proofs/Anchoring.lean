import PegMachine.Matcher.SignedOffset
import PegMachine.Proofs.Prefixing
import PegMachine.Regex.Backtracking

/-!
# What a matcher finds at an offset

Apart from regular expressions a matcher stands for a set of texts (`Matcher.Reads`): a literal for
itself, a class for the characters that it holds or, negated, for all others, any character for every
text of one character. What is found at an offset is one of these texts standing there
(`Matcher.matchEnd?_eq_some_iff`). So a match stays inside the text, nothing before the offset has a
say in it (`Matcher.Anchored`), and every character is found by a class or by its complement, but not
by both (`Matcher.found_by_class_or_complement`).
-/

namespace PegMachine

/-! ## Classes -/

namespace CharClass

variable {cls : CharClass} {c : Char}

/-- The code point of the character lies in one of the ranges, or the character is a member. -/
def Holds (cls : CharClass) (c : Char) : Prop :=
  (∃ r ∈ cls.ranges, r.1 ≤ c.toNat ∧ c.toNat ≤ r.2) ∨ String.singleton c ∈ cls.singles

/-- The class of all other characters. -/
def complement (cls : CharClass) : CharClass := { cls with negated := !cls.negated }

theorem lists_iff : cls.lists c = true ↔ cls.Holds c := by
  simp [lists, Holds]

/-- A class accepts what it holds or, negated, what it does not hold. -/
theorem accepts_iff : cls.accepts c = true ↔ (cls.Holds c ↔ cls.negated = false) := by
  rw [accepts, ← lists_iff]
  cases cls.lists c <;> cases cls.negated <;> decide

theorem accepts_complement : cls.complement.accepts c = !cls.accepts c := by
  show (cls.lists c != !cls.negated) = !(cls.lists c != cls.negated)
  cases cls.lists c <;> cases cls.negated <;> rfl

end CharClass

/-! ## Spans of a text -/

namespace Text

variable {text span : List Char} {offset stop : Nat} {c : Char}

theorem singleton_prefix_drop : [c] <+: text.drop offset ↔ text[offset]? = some c := by
  rw [← List.head?_drop]
  cases text.drop offset with
  | nil => simp
  | cons d rest => simp [eq_comm]

/-- A span that stands at an offset is what the text holds from there to where the span ends. -/
theorem prefix_drop_iff (hoffset : offset ≤ text.length) :
    (span <+: text.drop offset ∧ stop = offset + span.length) ↔
      offset ≤ stop ∧ stop ≤ text.length ∧ (text.drop offset).take (stop - offset) = span := by
  constructor
  · rintro ⟨hfront, rfl⟩
    have hlength := hfront.length_le
    rw [List.length_drop] at hlength
    rw [Nat.add_sub_cancel_left]
    exact ⟨Nat.le_add_right _ _, by omega, (List.prefix_iff_eq_take.1 hfront).symm⟩
  · rintro ⟨hle, hstop, rfl⟩
    refine ⟨List.take_prefix _ _, ?_⟩
    rw [List.length_take, List.length_drop]
    omega

end Text

section AnyLibrary

variable [RegexLibrary]

/-! ## Matchers -/

namespace Matcher

variable {matcher : Matcher} {cls : CharClass} {text : List Char} {offset stop : Nat}

/-- The texts that a matcher stands for, unless it is a regular expression. -/
inductive Reads : Matcher → List Char → Prop where
  | literal (s : String) : Reads (.literal s) s.toList
  | charClass {cls c} (held : cls.Holds c ↔ cls.negated = false) : Reads (.charClass cls) [c]
  | anyChar (c : Char) : Reads .anyChar [c]

/-- A class is found at an offset if the character there is accepted. -/
theorem matchEnd?_charClass_iff :
    (charClass cls).matchEnd? text offset = some stop ↔
      ∃ c, text[offset]? = some c ∧ cls.accepts c = true ∧ stop = offset + 1 := by
  simp only [matchEnd?]
  cases text[offset]? with
  | none => simp
  | some c => simp [@eq_comm _ stop]

/-- Any character is found at an offset if there is one. -/
theorem matchEnd?_anyChar_iff :
    anyChar.matchEnd? text offset = some stop ↔ ∃ c, text[offset]? = some c ∧ stop = offset + 1 := by
  simp only [matchEnd?]
  by_cases hinside : offset < text.length
  · simp [hinside, @eq_comm _ stop]
  · simp [hinside]

/-- What is found at an offset is a text that the matcher stands for and that stands there. -/
theorem matchEnd?_eq_some_iff (h : matcher.isRegex = false) (hoffset : offset ≤ text.length) :
    matcher.matchEnd? text offset = some stop ↔
      ∃ span, matcher.Reads span ∧ span <+: text.drop offset ∧ stop = offset + span.length := by
  cases matcher with
  | regex => cases h
  | literal s =>
    simp only [matchEnd?, List.isPrefixOf_iff_prefix, hoffset, true_and]
    constructor
    · intro hfound
      split at hfound
      · next hfront =>
        cases hfound
        exact ⟨s.toList, .literal s, hfront, by rw [String.length_toList]⟩
      · cases hfound
    · rintro ⟨_, ⟨⟩, hfront, rfl⟩
      rw [if_pos hfront, String.length_toList]
  | charClass cls =>
    rw [matchEnd?_charClass_iff]
    constructor
    · rintro ⟨c, hc, haccepts, rfl⟩
      exact ⟨[c], .charClass (CharClass.accepts_iff.1 haccepts), Text.singleton_prefix_drop.2 hc, rfl⟩
    · rintro ⟨_, hreads, hfront, rfl⟩
      cases hreads with
      | charClass held =>
        exact ⟨_, Text.singleton_prefix_drop.1 hfront, CharClass.accepts_iff.2 held, rfl⟩
  | anyChar =>
    rw [matchEnd?_anyChar_iff]
    constructor
    · rintro ⟨c, hc, rfl⟩
      exact ⟨[c], .anyChar c, Text.singleton_prefix_drop.2 hc, rfl⟩
    · rintro ⟨_, hreads, hfront, rfl⟩
      cases hreads with
      | anyChar c => exact ⟨c, Text.singleton_prefix_drop.1 hfront, rfl⟩

/-- What a matcher finds at an offset is what it reads between there and the end of the match, which
lies in the text, and nothing before the offset has a say in it. -/
structure Anchored (matcher : Matcher) (text : List Char) (offset : Nat) : Prop where
  /-- Asked at an integer the matcher says the same. -/
  asked : matcher.matchEndAt text offset = .ok ((matcher.matchEnd? text offset).map Int.ofNat)
  found : ∀ stop, matcher.matchEnd? text offset = some stop ↔
    offset ≤ stop ∧ stop ≤ text.length ∧ matcher.Reads ((text.drop offset).take (stop - offset))
  suffixLocal : ∀ before : List Char,
    matcher.matchEnd? (before ++ text) (before.length + offset) =
      (matcher.matchEnd? text offset).map (before.length + ·)

theorem anchored_of_not_regex (h : matcher.isRegex = false) (hoffset : offset ≤ text.length) :
    matcher.Anchored text offset where
  asked := matchEndAt_of_le hoffset
  found stop := by
    rw [matchEnd?_eq_some_iff h hoffset]
    constructor
    · rintro ⟨span, hreads, hstands⟩
      obtain ⟨hle, hstop, rfl⟩ := (Text.prefix_drop_iff hoffset).1 hstands
      exact ⟨hle, hstop, hreads⟩
    · rintro ⟨hle, hstop, hreads⟩
      exact ⟨_, hreads, (Text.prefix_drop_iff hoffset).2 ⟨hle, hstop, rfl⟩⟩
  suffixLocal before := by
    have hshift := matchEnd?_shift h before text offset
    simp only [Nat.add_comm _ before.length] at hshift
    exact hshift

/-- A character is found either by a class or by its complement. -/
theorem found_by_class_or_complement (cls : CharClass) (hoffset : offset < text.length) :
    (charClass cls).matchEnd? text offset = some (offset + 1) ∧
        (charClass cls.complement).matchEnd? text offset = none ∨
      (charClass cls).matchEnd? text offset = none ∧
        (charClass cls.complement).matchEnd? text offset = some (offset + 1) := by
  simp only [matchEnd?, List.getElem?_eq_getElem hoffset, CharClass.accepts_complement]
  cases cls.accepts text[offset] with
  | true => exact Or.inl ⟨rfl, rfl⟩
  | false => exact Or.inr ⟨rfl, rfl⟩

/-- Where the text ends no class finds anything. -/
theorem matchEnd?_charClass_length (cls : CharClass) (text : List Char) :
    (charClass cls).matchEnd? text text.length = none := by
  simp [matchEnd?]

/-- At an offset inside the text a matcher that is no regular expression finds exactly what it reads
there, inside the text and whatever stands before. A class that finds nothing there leaves it to its
complement, and the other way round, except that neither finds anything at the end of the text. -/
theorem found_where_read {matcher : Matcher} (h : matcher.isRegex = false) (text : List Char)
    {offset : Nat} (hoffset : offset ≤ text.length) :
    matcher.Anchored text offset ∧ ∀ cls, matcher = charClass cls →
      (offset < text.length →
        matcher.matchEnd? text offset = some (offset + 1) ∧
            (charClass cls.complement).matchEnd? text offset = none ∨
          matcher.matchEnd? text offset = none ∧
            (charClass cls.complement).matchEnd? text offset = some (offset + 1)) ∧
      (offset = text.length →
        matcher.matchEnd? text offset = none ∧
          (charClass cls.complement).matchEnd? text offset = none) := by
  refine ⟨anchored_of_not_regex h hoffset, ?_⟩
  rintro cls rfl
  refine ⟨found_by_class_or_complement cls, ?_⟩
  rintro rfl
  exact ⟨matchEnd?_charClass_length cls text, matchEnd?_charClass_length cls.complement text⟩

end Matcher

end AnyLibrary

namespace Matcher

theorem found_where_read_sample :
    (charClass ⟨true, [(98, 100), (122, 97)], ["x", "yz", ""]⟩).isRegex = false ∧
      1 ≤ ['c', 'a'].length ∧
      (charClass ⟨true, [(98, 100), (122, 97)], ["x", "yz", ""]⟩).Anchored ['c', 'a'] 1 ∧
      ((charClass ⟨true, [(98, 100), (122, 97)], ["x", "yz", ""]⟩).matchEnd? ['c', 'a'] 1 = some 2 ∧
          (charClass ⟨false, [(98, 100), (122, 97)], ["x", "yz", ""]⟩).matchEnd? ['c', 'a'] 1 =
            none ∨
        (charClass ⟨true, [(98, 100), (122, 97)], ["x", "yz", ""]⟩).matchEnd? ['c', 'a'] 1 = none ∧
          (charClass ⟨false, [(98, 100), (122, 97)], ["x", "yz", ""]⟩).matchEnd? ['c', 'a'] 1 =
            some 2) :=
  have hplain : (charClass ⟨true, [(98, 100), (122, 97)], ["x", "yz", ""]⟩).isRegex = false := rfl
  have hoffset : 1 ≤ ['c', 'a'].length := by decide
  have hfound := found_where_read hplain ['c', 'a'] hoffset
  ⟨hplain, hoffset, hfound.1, (hfound.2 _ rfl).1 (by decide)⟩

end Matcher

end PegMachine
