import Mathlib.Algebra.Group.Nat.Defs
import PegMachine.Matcher
import PegMachine.Proofs.Framing
import PegMachine.Proofs.Histories
import PegMachine.Regex.Backtracking

/-!
# What quoting keeps

Between the quotes each character is written in one of a few ways (`Writes`), and reading starts anew
behind it (`unescape_escapeChar`). So the text between the quotes gives back what was quoted without
the quotes around it, whichever they were (`unescape_body`), and none of its characters ends a line as
long as those that would are not shown (`not_breaks_of_mem_body`). Which other characters above ASCII
are shown has no say.

The messages of literals are therefore as different as the literals (`Matcher.literals_told_apart`).
-/

namespace PegMachine.Text.Quoted

variable {shown : Char → Bool} {quote c : Char}

/-! ## How a character is written -/

section Writing

/-- The character is one of those of ASCII that can be seen, or the space. -/
def Visible (c : Char) : Prop := 0x20 ≤ c.toNat ∧ c.toNat < 0x7F

instance (c : Char) : Decidable (Visible c) := inferInstanceAs (Decidable (_ ∧ _))

/-- The ways in which a character is written: behind a backslash by itself or by a letter for it, by its
code point, or by itself. -/
inductive Writes (shown : Char → Bool) (quote c : Char) : List Char → Prop where
  | marked (mark : c = quote ∨ c = '\\') : Writes shown quote c ['\\', c]
  | named {letter : Char}
    (letterFor : c = '\n' ∧ letter = 'n' ∨ c = '\r' ∧ letter = 'r' ∨ c = '\t' ∧ letter = 't') :
    Writes shown quote c ['\\', letter]
  | coded : Writes shown quote c (codeEscape c)
  | plain (noMark : ¬ (c = quote ∨ c = '\\'))
    (seen : Visible c ∨ 0x7F < c.toNat ∧ shown c = true) : Writes shown quote c [c]

theorem writes_escapeChar (shown : Char → Bool) (quote c : Char) :
    Writes shown quote c (escapeChar shown quote c) := by
  unfold escapeChar
  split
  · next hmark => exact .marked hmark
  · next hmark =>
    split
    · next h => exact .named (Or.inl ⟨h, rfl⟩)
    · split
      · next h => exact .named (Or.inr (Or.inl ⟨h, rfl⟩))
      · split
        · next h => exact .named (Or.inr (Or.inr ⟨h, rfl⟩))
        · split
          · exact .coded
          · next hcontrol =>
            split
            · next hshow =>
              refine .plain hmark ?_
              unfold Visible
              by_cases hlow : c.toNat < 0x7F
              · exact Or.inl (by omega)
              · exact Or.inr ⟨by omega, hshow.resolve_left hlow⟩
            · exact .coded

end Writing

/-! ## Reading back -/

section Reading

/-- The digits of a number give it back, without the part for which the width is too narrow. -/
theorem hexNumber?_hexDigits (width n : Nat) :
    hexNumber? 0 (hexDigits width n) = some (n % 16 ^ width) := by
  induction width generalizing n with
  | zero => rw [Nat.pow_zero, Nat.mod_one, hexDigits, hexNumber?]
  | succ width ih =>
    have hlast := hexValue?_hexDigit (Nat.mod_lt n (by decide : 0 < 16))
    rw [hexDigits, hexNumber?_append, ih, Option.bind_some, hexNumber?, hlast]
    show some (16 * (n / 16 % 16 ^ width) + n % 16) = _
    rw [Nat.pow_succ', Nat.mod_mul, Nat.add_comm]

theorem charOfHex?_hexDigits (width : Nat) (h : c.toNat < 16 ^ width) :
    charOfHex? (hexDigits width c.toNat) = some c := by
  have hvalid : c.toNat.isValidChar := c.valid
  rw [charOfHex?, hexNumber?_hexDigits, Nat.mod_eq_of_lt h]
  show (if c.toNat.isValidChar then some (Char.ofNat c.toNat) else none) = some c
  rw [if_pos hvalid, Char.ofNat_toNat]

theorem toNat_lt (c : Char) : c.toNat < 0x110000 := by
  have hvalid : c.toNat < 0xD800 ∨ 0xDFFF < c.toNat ∧ c.toNat < 0x110000 := c.valid
  omega

theorem unescape_cons (h : c ≠ '\\') (rest : List Char) :
    unescape (c :: rest) = (unescape rest).map (c :: ·) := by
  rw [unescape] <;> intros <;> contradiction

theorem unescape_codeEscape (c : Char) (rest : List Char) :
    unescape (codeEscape c ++ rest) = (unescape rest).map (c :: ·) := by
  unfold codeEscape
  split
  · next h =>
    have hread := charOfHex?_hexDigits 2 (c := c) (by omega)
    simp only [hexDigits, List.nil_append, List.cons_append] at hread ⊢
    rw [unescape, hread]
    rfl
  · split
    · next h =>
      have hread := charOfHex?_hexDigits 4 (c := c) (by omega)
      simp only [hexDigits, List.nil_append, List.cons_append] at hread ⊢
      rw [unescape, hread]
      rfl
    · have hread := charOfHex?_hexDigits 8 (c := c) (by have := toNat_lt c; omega)
      simp only [hexDigits, List.nil_append, List.cons_append] at hread ⊢
      rw [unescape, hread]
      rfl

/-- Reading takes in the written form of a character and goes on behind it. -/
theorem unescape_escapeChar (hquote : quote = '\'' ∨ quote = '"') (c : Char) (rest : List Char) :
    unescape (escapeChar shown quote c ++ rest) = (unescape rest).map (c :: ·) := by
  have hwrites := writes_escapeChar shown quote c
  generalize escapeChar shown quote c = written at hwrites
  cases hwrites with
  | marked mark =>
    have hmark : c = '\'' ∨ c = '"' ∨ c = '\\' := by
      rcases mark with rfl | h
      · exact hquote.imp_right Or.inl
      · exact Or.inr (Or.inr h)
    rcases hmark with rfl | rfl | rfl <;> rfl
  | named letterFor => rcases letterFor with ⟨rfl, rfl⟩ | ⟨rfl, rfl⟩ | ⟨rfl, rfl⟩ <;> rfl
  | coded => exact unescape_codeEscape c rest
  | plain noMark => exact unescape_cons (mt Or.inr noMark) rest

theorem quoteFor_eq (s : List Char) : quoteFor s = '\'' ∨ quoteFor s = '"' := by
  unfold quoteFor
  split
  · exact Or.inr rfl
  · exact Or.inl rfl

/-- What stands between the quotes gives back what was quoted. -/
theorem unescape_body (shown : Char → Bool) (s : List Char) :
    unescape (body shown s) = some s := by
  have hquote := quoteFor_eq s
  unfold body
  generalize quoteFor s = quote at hquote
  induction s with
  | nil => rfl
  | cons c rest ih => rw [List.flatMap_cons, unescape_escapeChar hquote, ih, Option.map_some]

/-- Texts that are written alike between the quotes are equal. -/
theorem body_inj {s t : List Char} : body shown s = body shown t ↔ s = t := by
  refine ⟨fun h => ?_, congrArg _⟩
  have hread := unescape_body shown s
  rw [h, unescape_body] at hread
  exact (Option.some.inj hread).symm

end Reading

/-! ## Quoted texts with something behind them -/

section Behind

theorem eq_nil_of_unescape {s : List Char} (h : unescape s = some []) : s = [] := by
  unfold unescape at h
  split at h <;> simp_all [Option.bind_eq_some_iff]

/-- Where the written form of a character ends does not depend on what stands behind it. -/
theorem escapeChar_append_inj (hquote : quote = '\'' ∨ quote = '"') {d : Char} {x y : List Char}
    (h : escapeChar shown quote c ++ x = escapeChar shown quote d ++ y) : c = d ∧ x = y := by
  -- one of the two written forms begins the other, of which nothing is left to be read
  have hbegins : ∀ {c d : Char} {rest : List Char},
      escapeChar shown quote d = escapeChar shown quote c ++ rest → c = d ∧ rest = [] := by
    intro c d rest h
    have hread : unescape (escapeChar shown quote d ++ []) = _ := unescape_escapeChar hquote d []
    rw [List.append_nil, h, unescape_escapeChar hquote] at hread
    obtain ⟨text, hrest, htext⟩ := Option.map_eq_some_iff.1 hread
    obtain ⟨rfl, rfl⟩ := List.cons.inj htext
    exact ⟨rfl, eq_nil_of_unescape hrest⟩
  rcases List.append_eq_append_iff.1 h with ⟨rest, hlonger, hbehind⟩ | ⟨rest, hlonger, hbehind⟩
  · obtain ⟨rfl, rfl⟩ := hbegins hlonger
    exact ⟨rfl, hbehind⟩
  · obtain ⟨rfl, rfl⟩ := hbegins hlonger
    exact ⟨rfl, hbehind.symm⟩

/-- No written form of a character begins with the quote in use. -/
theorem head_escapeChar (shown : Char → Bool) (hquote : quote = '\'' ∨ quote = '"') (c : Char) :
    ∃ first rest, escapeChar shown quote c = first :: rest ∧ first ≠ quote := by
  have hslash : '\\' ≠ quote := by
    rcases hquote with rfl | rfl <;> decide
  have hcode : ∃ first rest, codeEscape c = first :: rest ∧ first ≠ quote := by
    unfold codeEscape
    split
    · exact ⟨_, _, rfl, hslash⟩
    · split <;> exact ⟨_, _, rfl, hslash⟩
  have hwrites := writes_escapeChar shown quote c
  generalize escapeChar shown quote c = written at hwrites
  cases hwrites with
  | marked => exact ⟨_, _, rfl, hslash⟩
  | named => exact ⟨_, _, rfl, hslash⟩
  | coded => exact hcode
  | plain noMark => exact ⟨c, [], rfl, mt Or.inl noMark⟩

/-- Quoted texts are told apart, and where they end, whatever stands behind them. -/
theorem quoted_append_inj {s t x y : List Char}
    (h : quoted shown s ++ x = quoted shown t ++ y) : s = t ∧ x = y := by
  unfold quoted body at h
  rw [List.cons_append, List.cons_append, List.append_assoc, List.append_assoc] at h
  obtain ⟨hquote, hinside⟩ := List.cons.inj h
  rw [← hquote] at hinside
  have hstyle := quoteFor_eq s
  exact flatMap_append_inj (head_escapeChar shown hstyle)
    (fun _ _ _ _ _ _ => escapeChar_append_inj hstyle) hinside

end Behind

/-! ## One line -/

section OneLine

/-- The character is a control, newline and carriage return among them, or separates lines or
paragraphs. -/
def Breaks (c : Char) : Prop :=
  c.toNat < 0x20 ∨ 0x7F ≤ c.toNat ∧ c.toNat ≤ 0x9F ∨ c.toNat = 0x2028 ∨ c.toNat = 0x2029

/-- Of the characters above ASCII neither the controls and the first space nor the separators of lines
and paragraphs may be shown. -/
def Withholds (shown : Char → Bool) : Prop :=
  ∀ c : Char, 0x80 ≤ c.toNat ∧ c.toNat ≤ 0xA0 ∨ c.toNat = 0x2028 ∨ c.toNat = 0x2029 →
    shown c = false

theorem visible_of_mem_hexDigits {width n : Nat} (h : c ∈ hexDigits width n) : Visible c := by
  have hall : ∀ d < 16, Visible (hexDigit d) := by decide
  obtain ⟨d, hd, rfl⟩ := mem_hexDigits h
  exact hall d hd

theorem visible_of_mem_codeEscape {d : Char} (h : d ∈ codeEscape c) : Visible d := by
  have hmarks : Visible '\\' ∧ Visible 'x' ∧ Visible 'u' ∧ Visible 'U' := by decide
  have hrow : ∀ {kind : Char} {digits : List Char}, Visible kind →
      (∀ d ∈ digits, Visible d) → d ∈ '\\' :: kind :: digits → Visible d := by
    intro kind digits hkind hdigits hmem
    rcases List.mem_cons.1 hmem with rfl | hmem
    · exact hmarks.1
    · rcases List.mem_cons.1 hmem with rfl | hmem
      · exact hkind
      · exact hdigits d hmem
  unfold codeEscape at h
  split at h
  · exact hrow hmarks.2.1 (fun _ => visible_of_mem_hexDigits) h
  · split at h
    · exact hrow hmarks.2.2.1 (fun _ => visible_of_mem_hexDigits) h
    · exact hrow hmarks.2.2.2 (fun _ => visible_of_mem_hexDigits) h

theorem mem_escapeChar (hquote : quote = '\'' ∨ quote = '"') {d : Char}
    (h : d ∈ escapeChar shown quote c) : Visible d ∨ 0x7F < d.toNat ∧ shown d = true := by
  have hescape : ∀ e : Char, Visible e → d ∈ ['\\', e] → Visible d := by
    intro e he hmem
    rcases List.mem_cons.1 hmem with rfl | hmem
    · decide
    · exact List.mem_singleton.1 hmem ▸ he
  have hwrites := writes_escapeChar shown quote c
  generalize escapeChar shown quote c = written at hwrites h
  cases hwrites with
  | marked mark =>
    refine Or.inl (hescape c ?_ h)
    rcases mark with rfl | rfl
    · rcases hquote with rfl | rfl <;> decide
    · decide
  | named letterFor =>
    refine Or.inl (hescape _ ?_ h)
    rcases letterFor with ⟨-, rfl⟩ | ⟨-, rfl⟩ | ⟨-, rfl⟩ <;> decide
  | coded => exact Or.inl (visible_of_mem_codeEscape h)
  | plain _ seen => exact List.mem_singleton.1 h ▸ seen

/-- Between the quotes stand visible characters of ASCII, and those above it that may be shown. -/
theorem mem_body {s : List Char} {d : Char} (h : d ∈ body shown s) :
    Visible d ∨ 0x7F < d.toNat ∧ shown d = true := by
  obtain ⟨_, -, hd⟩ := List.mem_flatMap.1 h
  exact mem_escapeChar (quoteFor_eq s) hd

/-- What stands between the quotes is all on one line. -/
theorem not_breaks_of_mem_body (hshown : Withholds shown) {s : List Char} {d : Char}
    (h : d ∈ body shown s) : ¬ Breaks d := by
  unfold Breaks
  rcases mem_body h with ⟨hlow, hhigh⟩ | ⟨habove, hd⟩
  · omega
  · have hheld := hshown d
    rw [hd] at hheld
    simp only [Bool.true_eq_false, imp_false] at hheld
    omega

theorem withholds_isPrintable : Withholds isPrintable := by
  intro c h
  unfold isPrintable
  have habove : ¬ c.toNat < 0x80 := by omega
  rw [if_neg habove]
  rcases h with ⟨-, hfirst⟩ | h | h
  · -- the table starts behind the first space above ASCII
    unfold printableRanges
    rw [inRanges, if_pos (by omega)]
  · rw [h]
    decide +kernel
  · rw [h]
    decide +kernel

end OneLine

end PegMachine.Text.Quoted

/-! ## Literals -/

namespace PegMachine.Matcher

open Text

/-- The message for a match that was expected and failed, of something so described. -/
def expectation (description : String) : String := "expected match of '" ++ description ++ "'"

theorem expectation_inj {a b : String} : expectation a = expectation b ↔ a = b :=
  (String.append_left_inj _).trans (String.append_right_inj _)

/-- The description of a literal when of the characters above ASCII those in `shown` may be shown. -/
def literalDescription (shown : Char → Bool) (s : String) : String :=
  String.ofList (Quoted.body shown s.toList)

/-- Literals that are described so are told apart by what is said of them, which is all on one line. -/
structure TellsApart (describe : String → String) : Prop where
  /-- The literal is read back from its description. -/
  readsBack : ∀ s, Quoted.unescape (describe s).toList = some s.toList
  oneLine : ∀ s, ∀ c ∈ (describe s).toList, ¬ Quoted.Breaks c
  messages : ∀ a b, expectation (describe a) = expectation (describe b) ↔ a = b
  /-- Of different literals that failed furthest each has a message of its own in the record. -/
  kept : ∀ (operations : List FurthestFailures.Operation) (literals : List String),
    literals.Nodup →
    (∀ s ∈ literals, ((FurthestFailures.after operations).offset, expectation (describe s)) ∈
      FurthestFailures.sinceClear operations) →
    (literals.map fun s => expectation (describe s)).Nodup ∧
      ∀ s ∈ literals, expectation (describe s) ∈ (FurthestFailures.after operations).messages

theorem tellsApart_of_withholds {shown : Char → Bool} (hshown : Quoted.Withholds shown) :
    TellsApart (literalDescription shown) := by
  have hinj : ∀ a b,
      expectation (literalDescription shown a) = expectation (literalDescription shown b) ↔
        a = b := by
    intro a b
    rw [expectation_inj, literalDescription, literalDescription, String.ofList_inj,
      Quoted.body_inj, String.toList_inj]
  refine ⟨fun s => ?_, fun s c hc => ?_, hinj, fun operations literals hdistinct hfailed => ?_⟩
  · rw [literalDescription, String.toList_ofList, Quoted.unescape_body]
  · rw [literalDescription, String.toList_ofList] at hc
    exact Quoted.not_breaks_of_mem_body hshown hc
  · have hkeeps := FurthestFailures.keeps_after operations
    refine ⟨?_, fun s hs => (hkeeps.mem_messages _).2 (hfailed s hs)⟩
    rw [List.Nodup, List.pairwise_map]
    exact hdistinct.imp fun hdiffer => mt (hinj _ _).1 hdiffer

section AnyLibrary

variable [RegexLibrary]

/-- Whichever characters above ASCII are shown, as long as no control and no separator of lines or
paragraphs is, literals are told apart by their descriptions on one line. They are described so with
the printable characters shown, so that two literals have the same failure message only if they are the
same. -/
theorem literals_told_apart :
    (∀ shown, Quoted.Withholds shown → TellsApart (literalDescription shown)) ∧
      Quoted.Withholds isPrintable ∧
      (∀ s : String, (literal s).describe = .ok (literalDescription isPrintable s) ∧
        (literal s).failureMessage = .ok (expectation (literalDescription isPrintable s))) ∧
      ∀ a b : String,
        (literal a).failureMessage = (literal b).failureMessage ↔ literal a = literal b := by
  have hprintable := tellsApart_of_withholds Quoted.withholds_isPrintable
  refine ⟨fun _ => tellsApart_of_withholds, Quoted.withholds_isPrintable, fun _ => ⟨rfl, rfl⟩,
    fun a b => ?_⟩
  rw [literal.injEq, ← hprintable.messages a b]
  exact iff_of_eq (Except.ok.injEq _ _)

end AnyLibrary

theorem literals_told_apart_sample :
    Quoted.Withholds (fun c => 0x2029 < c.toNat) ∧
      TellsApart (literalDescription fun c => 0x2029 < c.toNat) ∧
      literalDescription (fun c => 0x2029 < c.toNat) "it's\n\"\\u0020\u2028中" =
        "it\\'s\\n\"\\\\u0020\\u2028中" :=
  have hshown : Quoted.Withholds (fun c => 0x2029 < c.toNat) := by
    intro c hc
    exact decide_eq_false (by omega)
  ⟨hshown, literals_told_apart.1 _ hshown, by decide⟩

end PegMachine.Matcher
