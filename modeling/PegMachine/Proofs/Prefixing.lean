import PegMachine.Proofs.Correspondence
import PegMachine.Proofs.Diagnostics
import PegMachine.Proofs.Endings
import PegMachine.Regex.Backtracking
import PegMachine.Semantics.Rewriting

/-!
# A literal in front

Without regular expressions a matcher looks at nothing but the text from its offset on, so with more
text in front everything happens further on by as much (`Matcher.comesTo_shift`): the run of a fresh
name that stands for a literal and an old name is, after that literal, the run of the old name
(`Run.matches_of_leading_literal`). It takes three steps more, one for each of the fresh name, the
sequence under it and the literal.
-/

namespace PegMachine

section AnyLibrary

variable [RegexLibrary]

/-! ## Matchers that look ahead only -/

/-- Is the matcher a regular expression? It may look at the text before its offset. -/
def Matcher.isRegex : Matcher → Bool
  | .regex _ => true
  | _ => false

/-- There is no regular expression in the rule. -/
def Rule.RegexFree (rule : Rule) : Prop := ∀ matcher ∈ rule.matchers, matcher.isRegex = false

/-- There is no regular expression in the rules of the map. -/
def RuleMap.RegexFree (rules : RuleMap) : Prop :=
  ∀ rule ∈ rules.items.filterMap Item.rule?, rule.RegexFree

instance (rules : RuleMap) : Decidable rules.RegexFree :=
  inferInstanceAs (Decidable (∀ rule ∈ rules.items.filterMap Item.rule?,
    ∀ matcher ∈ rule.matchers, matcher.isRegex = false))

/-- The same mismatch elsewhere. -/
def Mismatch.move (place : Nat → Nat) (mismatch : Mismatch) : Mismatch :=
  { mismatch with offset := place mismatch.offset }

namespace Matcher

variable {matcher : Matcher}

/-- What stands before the offset has no say in where a match ends. -/
theorem matchEnd?_shift (h : matcher.isRegex = false) (before text : List Char) (offset : Nat) :
    matcher.matchEnd? (before ++ text) (offset + before.length) =
      (matcher.matchEnd? text offset).map (· + before.length) := by
  have hdrop : (before ++ text).drop (offset + before.length) = text.drop offset := by
    rw [Nat.add_comm, List.drop_length_add_append]
  cases matcher with
  | regex => cases h
  | literal s =>
    have hle : offset + before.length ≤ (before ++ text).length ↔ offset ≤ text.length := by
      rw [List.length_append]
      omega
    simp only [matchEnd?, hdrop, hle]
    split
    · rw [Option.map_some, Nat.add_right_comm]
    · rfl
  | charClass cls =>
    have hget : (before ++ text)[offset + before.length]? = text[offset]? := by
      rw [List.getElem?_append_right (Nat.le_add_left _ _), Nat.add_sub_cancel]
    simp only [matchEnd?, hget]
    cases text[offset]? with
    | none => rfl
    | some c =>
      simp only
      split
      · rw [Option.map_some, Nat.add_right_comm]
      · rfl
  | anyChar =>
    have hlt : offset + before.length < (before ++ text).length ↔ offset < text.length := by
      rw [List.length_append]
      omega
    simp only [matchEnd?, hlt]
    split
    · rw [Option.map_some, Nat.add_right_comm]
    · rfl

/-- With more text in front a matcher comes to the same, further on. -/
theorem comesTo_shift (h : matcher.isRegex = false) (before text : List Char) (offset : Nat) :
    matcher.comesTo (before ++ text) (offset + before.length) =
      ((matcher.comesTo text offset).1.move (· + before.length),
        (matcher.comesTo text offset).2.map (Mismatch.move (· + before.length))) := by
  have hdrop : (before ++ text).drop (offset + before.length) = text.drop offset := by
    rw [Nat.add_comm, List.drop_length_add_append]
  simp only [comesTo, matchEnd?_shift h]
  cases matcher.matchEnd? text offset with
  | some stop =>
    have hlength : stop + before.length - (offset + before.length) = stop - offset := by omega
    simp [Gist.move, Reading.move, hdrop, hlength]
  | none =>
    cases matcher.failureMessage with
    | ok message => rfl
    | error error => rfl

/-- A literal reads itself in front of a text. -/
theorem comesTo_literal (s : String) (text : List Char) :
    (Matcher.literal s).comesTo (s.toList ++ text) 0 =
      (.success [⟨0, s.toList⟩] s.toList.length, []) := by
  have hends : (Matcher.literal s).matchEnd? (s.toList ++ text) 0 = some s.toList.length := by
    simp [matchEnd?, String.length_toList]
  simp [comesTo, hends]

end Matcher

/-! ## Everything further on -/

namespace Correspondence

/-- Offsets belong together that are the distance apart, and logs that are the same but for it. -/
def shifted (distance : Nat) : Correspondence where
  offsets offset offset' := offset' = offset + distance
  trails log visits log' visits' := log' = log.map (Mismatch.move (· + distance)) ∧ visits' = visits
  nothing := ⟨rfl, rfl⟩
  visit := by
    rintro _ _ _ _ ⟨hlog, rfl⟩
    exact ⟨hlog, rfl⟩
  append := by
    rintro _ _ _ _ _ _ _ _ ⟨rfl, rfl⟩ ⟨rfl, rfl⟩
    exact ⟨List.map_append.symm, rfl⟩

theorem gists_shifted {distance : Nat} {gist gist' : Gist} :
    (shifted distance).Gists gist gist' ↔ gist' = gist.move (· + distance) :=
  gists_iff_of_moves Iff.rfl

section Terminals

variable {rules rules' : RuleMap} {before text : List Char} {bound : Nat} {matcher : Matcher}

theorem carries_terminal_ahead (h : matcher.isRegex = false) :
    (shifted before.length).Carries bound ((Rule.terminal matcher).meaning rules text)
      ((Rule.terminal matcher).meaning rules' (before ++ text)) := by
  rintro offset _ gist log visits rfl - hmeaning
  obtain ⟨hcomes, rfl⟩ := Rule.meaning_terminal.1 hmeaning
  have hcomes' := Matcher.comesTo_shift h before text offset
  rw [hcomes] at hcomes'
  exact ⟨_, _, 1, Rule.meaning_terminal.2 ⟨hcomes', rfl⟩, gists_shifted.2 rfl, rfl, rfl⟩

theorem carries_terminal_back (h : matcher.isRegex = false) :
    (shifted before.length).flip.Carries bound
      ((Rule.terminal matcher).meaning rules (before ++ text))
      ((Rule.terminal matcher).meaning rules' text) := by
  rintro _ offset gist' log' visits' rfl - hmeaning
  obtain ⟨hcomes', rfl⟩ := Rule.meaning_terminal.1 hmeaning
  rw [Matcher.comesTo_shift h] at hcomes'
  cases hcomes'
  have hmeaning' : (Rule.terminal matcher).meaning rules' text offset _ _ 1 :=
    Rule.meaning_terminal.2 ⟨rfl, rfl⟩
  exact ⟨_, _, 1, hmeaning', gists_flip (gists_shifted.2 rfl), rfl, rfl⟩

end Terminals

/-- Names are exchanged with themselves when one that none of the rules refers to is defined. -/
theorem exchanges_beside {rules : RuleMap} (hrules : rules.RegexFree) {name fresh : String}
    (unused : fresh ∉ rules.references) (item : Item) (hname : name ≠ fresh)
    (before text : List Char) (bound : Nat) :
    (shifted before.length).Exchanges bound ((Rule.ref name).meaning rules text)
      ((Rule.ref name).meaning (rules.define fresh item) (before ++ text)) := by
  refine exchanges_names (· ≠ fresh) (fun bound hnames name hname => ?_) bound name hname
  rw [RuleMap.get?_define, if_neg hname]
  refine rel_of_rules fun rule found => ?_
  have hitem := RuleMap.mem_items_of_get? found
  refine exchanges_rule (fun matcher hmatcher => ?_) fun called hcalled => ?_
  · have hfree := hrules rule (List.mem_filterMap.2 ⟨_, hitem, rfl⟩) matcher hmatcher
    exact ⟨carries_terminal_ahead hfree, carries_terminal_back hfree⟩
  · refine hnames called ?_
    rintro rfl
    exact unused (RuleMap.mem_references hitem hcalled)

end Correspondence

/-! ## The literal in front -/

/-- A name that stands for a literal and another name means that other name after the literal. -/
theorem Rule.meaning_of_literalThen {rules : RuleMap} {fresh name before : String}
    (found : rules.get? fresh = some (.rule (.literalThen before name))) {text : List Char}
    {gist : Gist} {log : List Mismatch} {visits : Nat} :
    (Rule.ref fresh).meaning rules (before.toList ++ text) 0 gist log visits ↔
      ∃ gist' visits', (Rule.ref name).meaning rules (before.toList ++ text) before.toList.length
        gist' log visits' ∧ gist = gist'.after [⟨0, before.toList⟩] ∧ visits = visits' + 3 := by
  have hsequence : (Rule.literalThen before name).meaning rules (before.toList ++ text) =
      (Meaning.join .sequence
        ((Rule.terminal (.literal before)).meaning rules (before.toList ++ text))
        ((Rule.ref name).meaning rules (before.toList ++ text))).visit :=
    Rule.meaning_of_pair rfl rfl
  have hliteral := Matcher.comesTo_literal before text
  rw [Rule.meaning_of_found found, ← Rule.meaning, hsequence]
  constructor
  · rintro ⟨⟨h⟩⟩
    obtain ⟨gist', visits', tail, rfl, rfl⟩ := (Rule.terminal_andThen hliteral).1 h
    exact ⟨gist', visits', tail, rfl, rfl⟩
  · rintro ⟨gist', visits', tail, rfl, rfl⟩
    refine .visited (.visited ?_)
    exact (Rule.terminal_andThen hliteral).2 ⟨gist', visits', tail, rfl, rfl⟩

namespace Gist

variable {gist : Gist} {length : Nat} {before : List Char}

theorem status_prefixed :
    ((gist.move (· + before.length)).after [⟨0, before⟩]).status (before.length + length) =
      gist.status length := by
  cases gist with
  | success readings stop =>
    simp [move, after, status, Nat.add_comm]
  | failure => rfl
  | fault => rfl

theorem leftOver_prefixed :
    ((gist.move (· + before.length)).after [⟨0, before⟩]).leftOver (before.length + length) =
      (gist.leftOver length).map (Mismatch.move (· + before.length)) := by
  cases gist with
  | success readings stop =>
    rw [move, after, leftOver, leftOver]
    have hiff : stop + before.length = before.length + length ↔ stop = length := by omega
    simp only [hiff]
    split
    · rfl
    · rfl
  | failure => rfl
  | fault => rfl

end Gist

namespace FurthestFailures

omit [RegexLibrary]

/-- The same record further on. -/
def shift (distance : Nat) (failures : FurthestFailures) : FurthestFailures :=
  { failures with offset := failures.offset + distance }

theorem record_shift (failures : FurthestFailures) (distance : Nat) (offset : Int)
    (message : String) :
    (failures.shift distance).record (offset + distance) message =
      (failures.record offset message).shift distance := by
  simp only [record, shift, Int.add_lt_add_iff_right]
  split
  · rfl
  · split <;> rfl

/-- The first mismatch is the furthest. -/
theorem record_empty (offset : Nat) (message : String) :
    empty.record offset message = ⟨offset, StringSet.empty.insert message⟩ := by
  have hback : ¬ (offset : Int) < -1 := by omega
  have hfurther : (-1 : Int) < offset := by omega
  simp [record, empty, hback, hfurther]

/-- Mismatches further on are recorded further on, ... -/
theorem recordAll_shift (failures : FurthestFailures) (distance : Nat) (log : List Mismatch) :
    (failures.shift distance).recordAll (log.map (Mismatch.move (· + distance))) =
      (failures.recordAll log).shift distance := by
  induction log generalizing failures with
  | nil => rfl
  | cons m rest ih =>
    have hrecord := record_shift failures distance m.offset m.message
    rw [← Int.natCast_add] at hrecord
    rw [List.map_cons, recordAll, List.foldl_cons, Mismatch.move, hrecord]
    exact ih _

/-- ... also by a record of nothing, if there is any. -/
theorem recordAll_empty_shift (distance : Nat) {log : List Mismatch} (h : log ≠ []) :
    empty.recordAll (log.map (Mismatch.move (· + distance))) =
      (empty.recordAll log).shift distance := by
  cases log with
  | nil => exact absurd rfl h
  | cons m rest =>
    have hfirst : empty.record (m.move (· + distance)).offset m.message =
        (empty.record m.offset m.message).shift distance := by
      rw [record_empty, record_empty, shift, Mismatch.move, Int.natCast_add]
    exact (congrArg (recordAll · _) hfirst).trans (recordAll_shift _ distance rest)

theorem messages_recordAll_shift (distance : Nat) (log : List Mismatch) :
    (empty.recordAll (log.map (Mismatch.move (· + distance)))).messages =
      (empty.recordAll log).messages := by
  by_cases h : log = []
  · rw [h, List.map_nil]
  · rw [recordAll_empty_shift distance h, shift]

end FurthestFailures

/-- A run that rejects the text is told of something. -/
theorem Run.told_ne_nil {run : Run} {gist : Gist} {log : List Mismatch} {visits : Nat}
    (h : run.meaning 0 gist log visits) (hrejected : gist.status run.text.length = .rejected) :
    log ++ gist.leftOver run.text.length ≠ [] := by
  obtain ⟨verdict, hverdict, rfl⟩ := h
  cases verdict with
  | success trees stop =>
    have hstop : stop ≠ run.text.length := by
      rintro rfl
      simp [Verdict.gist, Gist.status] at hrejected
    exact hverdict.told_ne_nil hstop
  | failure => exact hverdict.told_ne_nil trivial
  | fault => cases hrejected

/-- Endings are shifted if what they show is. -/
theorem Gist.Shown.shifted {gist : Gist} {length visits steps : Nat} {log : List Mismatch}
    {before : List Char} {ending ending' : Ending}
    (htold : gist.status length = .rejected → log ++ gist.leftOver length ≠ [])
    (h : gist.Shown length log visits ending)
    (h' : ((gist.move (· + before.length)).after [⟨0, before⟩]).Shown (before.length + length)
      (log.map (Mismatch.move (· + before.length))) (visits + steps) ending') :
    ending.Shifted before steps ending' := by
  have hstatus : ending'.machine.status = ending.machine.status := by
    rw [h'.status, h.status, status_prefixed]
  have hfailures' := h'.failures
  rw [status_prefixed, leftOver_prefixed, ← List.map_append] at hfailures'
  constructor
  case fault =>
    rw [h'.fault, h.fault]
    cases gist <;> rfl
  case status => exact hstatus
  case offset =>
    intro hrejected
    rw [h.status] at hrejected
    rw [h.failures, hfailures', hrejected, if_neg nofun, if_neg nofun,
      FurthestFailures.recordAll_empty_shift _ (htold hrejected)]
    rfl
  case messages =>
    rw [h.failures, hfailures']
    split
    · rfl
    · exact FurthestFailures.messages_recordAll_shift _ _
  case readings =>
    intro haccepted
    rw [h'.readings (hstatus.trans haccepted), h.readings haccepted]
    rw [h.status] at haccepted
    cases gist with
    | success readings stop => rfl
    | failure => cases haccepted
    | fault => cases haccepted
  case steps => rw [h'.steps, h.steps]

/-- A literal in front shifts a parse: the run of a fresh name, which stands for a literal and a name
of the map, over that literal and a text matches the run of the name over the text. All that it shows
is as much further on as the literal is long, and it has taken three steps more. Fresh is a name that
the map neither defines nor refers to. -/
theorem Run.matches_of_leading_literal {rules : RuleMap} (hrules : rules.RegexFree)
    {name fresh : String} (hname : rules.contains name = true)
    (undefined : rules.get? fresh = none) (unused : fresh ∉ rules.references) (before : String)
    (text : List Char) :
    Run.Matches (Ending.Shifted before.toList 3) { rules, text, name }
      { rules := rules.define fresh (.rule (.literalThen before name)),
        text := before.toList ++ text, name := fresh } := by
  have hother : name ≠ fresh := by
    rintro rfl
    simp [RuleMap.contains, undefined] at hname
  have hnames := Correspondence.exchanges_beside hrules unused (.rule (.literalThen before name))
    hother before.toList text
  have found : (rules.define fresh (.rule (.literalThen before name))).get? fresh =
      some (.rule (.literalThen before name)) := by
    rw [RuleMap.get?_define, if_pos rfl]
  have hoffset : before.toList.length = 0 + before.toList.length := (Nat.zero_add _).symm
  refine matches_of_meanings (fun gist log visits gist' log' visits' =>
    (gist.status text.length = .rejected → log ++ gist.leftOver text.length ≠ []) ∧
      gist' = (gist.move (· + before.toList.length)).after [⟨0, before.toList⟩] ∧
      log' = log.map (Mismatch.move (· + before.toList.length)) ∧ visits' = visits + 3) ?_ ?_ ?_
  · intro gist log visits h
    obtain ⟨_, _, _, h', hgist, rfl, rfl⟩ := (hnames visits).ahead hoffset (Nat.le_refl _) h
    obtain rfl := Correspondence.gists_shifted.1 hgist
    have hrun := (Rule.meaning_of_literalThen found).2 ⟨_, _, h', rfl, rfl⟩
    exact ⟨_, _, _, hrun, told_ne_nil h, rfl, rfl, rfl⟩
  · intro gist' log' visits' h'
    obtain ⟨_, visits, htail, rfl, rfl⟩ := (Rule.meaning_of_literalThen found).1 h'
    obtain ⟨gist, log, _, h, hgist, rfl, rfl⟩ :=
      (hnames visits).back hoffset (Nat.le_refl _) htail
    obtain rfl := Correspondence.gists_shifted.1 (Correspondence.gists_flip hgist)
    have hrun : Run.meaning { rules, text, name } 0 gist log _ := h
    exact ⟨gist, log, _, hrun, told_ne_nil hrun, rfl, rfl, rfl⟩
  · rintro gist log visits _ _ _ ending ending' ⟨htold, rfl, rfl, rfl⟩ hshown hshown'
    rw [List.length_append] at hshown'
    exact hshown.shifted htold hshown'

end AnyLibrary

theorem Run.matches_of_leading_literal_sample :
    let rules := RuleMap.sample.define "Shifted" (.rule (.literalThen "aab" "S"))
    let run : Run := ⟨RuleMap.sample, "ab".toList, "S"⟩
    let prefixed : Run := ⟨rules, "aab".toList ++ "ab".toList, "Shifted"⟩
    RuleMap.sample.RegexFree ∧ run.Matches (Ending.Shifted "aab".toList 3) prefixed ∧
      run.AcceptsIn 9 ∧ prefixed.AcceptsIn 12 := by
  have hrules : RuleMap.sample.RegexFree := by decide
  have hname : RuleMap.sample.contains "S" = true := by decide
  have undefined : RuleMap.sample.get? "Shifted" = none := by decide
  have unused : "Shifted" ∉ RuleMap.sample.references := by decide
  refine ⟨hrules, matches_of_leading_literal hrules hname undefined unused "aab" "ab".toList,
    ?_, ?_⟩
  · exact @acceptsIn_of_outcome _ _ 9 _ (by decide) (by decide)
  · exact @acceptsIn_of_outcome _ _ 12 _ (by decide) (by decide)

end PegMachine
