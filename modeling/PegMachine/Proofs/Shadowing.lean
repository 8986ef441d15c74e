import PegMachine.Proofs.Diagnostics
import PegMachine.Proofs.Rewriting
import PegMachine.Regex.Backtracking

/-!
# Branches that an earlier one shadows

A branch of a choice is tried only where all branches before it have failed. Where a literal has
failed, one that it is a prefix of fails too (`Matcher.matchEnd?_of_isPrefix`), so behind the first the
second never stands, and may be left out (`Run.matches_of_shadowing`). All that gets lost are the
mismatches with its message. None of them is the only one at its offset, because the earlier literal
has failed there as well (`Thins`); so the furthest offset stays, and with it all other messages.
-/

namespace PegMachine

/-! ## Mismatches that may be left out -/

/-- The second log may lack mismatches with the message, where it tells of another at the offset. -/
structure Thins (message : String) (log log' : List Mismatch) : Prop where
  subset : ∀ m ∈ log', m ∈ log
  covered : ∀ m ∈ log, m ∈ log' ∨ m.message = message ∧ ∃ other ∈ log', other.offset = m.offset

namespace Thins

variable {message : String} {log log' more more' : List Mismatch}

theorem refl (log : List Mismatch) : Thins message log log where
  subset _ hm := hm
  covered _ hm := Or.inl hm

theorem append (h : Thins message log log') (h' : Thins message more more') :
    Thins message (log ++ more) (log' ++ more') where
  subset m hm := by
    rcases List.mem_append.1 hm with hm | hm
    · exact List.mem_append_left _ (h.subset m hm)
    · exact List.mem_append_right _ (h'.subset m hm)
  covered m hm := by
    rcases List.mem_append.1 hm with hm | hm
    · rcases h.covered m hm with hkept | ⟨hmessage, other, hother, hoffset⟩
      · exact Or.inl (List.mem_append_left _ hkept)
      · exact Or.inr ⟨hmessage, other, List.mem_append_left _ hother, hoffset⟩
    · rcases h'.covered m hm with hkept | ⟨hmessage, other, hother, hoffset⟩
      · exact Or.inl (List.mem_append_right _ hkept)
      · exact Or.inr ⟨hmessage, other, List.mem_append_right _ hother, hoffset⟩

/-- A mismatch with the message may be left out after one at its offset. -/
theorem leaveOut {offset : Nat} {first : List Mismatch} (told : ∃ m ∈ first, m.offset = offset)
    (h : Thins message log log') (h' : Thins message more more') :
    Thins message (first ++ (log ++ ([⟨offset, message⟩] ++ more))) (first ++ (log' ++ more')) := by
  have hkept := (refl first).append (h.append h')
  constructor
  · intro m hm
    have hsome := hkept.subset m hm
    simp only [List.mem_append] at hsome ⊢
    exact hsome.imp_right (Or.imp_right Or.inr)
  · intro m hm
    obtain rfl | hm : m = ⟨offset, message⟩ ∨ m ∈ first ++ (log ++ more) := by
      simp only [List.mem_append, List.mem_singleton] at hm ⊢
      tauto
    · obtain ⟨other, hother, hoffset⟩ := told
      exact Or.inr ⟨rfl, other, List.mem_append_left _ hother, hoffset⟩
    · exact hkept.covered m hm

section Record

open FurthestFailures

/-- The furthest offset stays. -/
theorem offset_recordAll (h : Thins message log log') :
    (empty.recordAll log').offset = (empty.recordAll log).offset := by
  have hkeeps := keeps_recordAll log
  have hkeeps' := keeps_recordAll log'
  apply Int.le_antisymm
  · apply hkeeps'.offset_le hkeeps
    exact List.map_subset _ h.subset
  · rcases hkeeps.attained with hnone | ⟨_, hentry, hoffset⟩
    · rw [hnone]
      exact hkeeps'.least
    · obtain ⟨m, hm, rfl⟩ := List.mem_map.1 hentry
      obtain ⟨other, hother, hsame⟩ : ∃ other ∈ log', other.offset = m.offset := by
        rcases h.covered m hm with hkept | ⟨-, hother⟩
        · exact ⟨m, hkept, rfl⟩
        · exact hother
      have hle := hkeeps'.greatest other.entry (List.mem_map_of_mem hother)
      rw [← hoffset]
      simpa [Mismatch.entry, hsame] using hle

/-- No message comes in. -/
theorem mem_recordAll (h : Thins message log log') {m : String}
    (hm : m ∈ (empty.recordAll log').messages) : m ∈ (empty.recordAll log).messages := by
  rw [(keeps_recordAll log').mem_messages, h.offset_recordAll] at hm
  rw [(keeps_recordAll log).mem_messages]
  exact List.map_subset _ h.subset hm

/-- No other message gets lost. -/
theorem mem_recordAll_or (h : Thins message log log') {m : String}
    (hm : m ∈ (empty.recordAll log).messages) :
    m ∈ (empty.recordAll log').messages ∨ m = message := by
  rw [(keeps_recordAll log).mem_messages] at hm
  obtain ⟨mismatch, hmem, hentry⟩ := List.mem_map.1 hm
  rw [(keeps_recordAll log').mem_messages, h.offset_recordAll, ← hentry]
  have hmessage : mismatch.message = m := congrArg Prod.snd hentry
  rcases h.covered mismatch hmem with hkept | ⟨hlost, -⟩
  · exact Or.inl (List.mem_map_of_mem hkept)
  · exact Or.inr (hmessage.symm.trans hlost)

end Record

end Thins

section AnyLibrary

variable [RegexLibrary]

/-- Endings that show the same, but for mismatches that may be left out, are alike but for their
message. -/
theorem Gist.Shown.alikeBut {message : String} {gist : Gist} {length visits visits' : Nat}
    {log log' : List Mismatch} {ending ending' : Ending} (hlog : Thins message log log')
    (h : gist.Shown length log visits ending) (h' : gist.Shown length log' visits' ending') :
    ending.AlikeBut message ending' := by
  have hthins := hlog.append (Thins.refl (gist.leftOver length))
  have hstatus : ending'.machine.status = ending.machine.status := by rw [h'.status, h.status]
  constructor
  case fault => rw [h'.fault, h.fault]
  case status => exact hstatus
  case offset =>
    rw [h'.failures, h.failures]
    split
    · rfl
    · exact hthins.offset_recordAll
  case subset =>
    rw [h'.failures, h.failures]
    split
    · exact fun _ hm => hm
    · exact fun _ hm => hthins.mem_recordAll hm
  case lacks =>
    rw [h'.failures, h.failures]
    split
    · exact fun _ hm => Or.inl hm
    · exact fun _ hm => hthins.mem_recordAll_or hm
  case readings =>
    intro haccepted
    rw [h'.readings (hstatus.trans haccepted), h.readings haccepted]

/-! ## The branch never stands -/

/-- Where a literal is not found, one that it is a prefix of is not found. -/
theorem Matcher.matchEnd?_of_isPrefix {earlier later : String}
    (hbegins : earlier.toList <+: later.toList) {text : List Char} {offset : Nat}
    (h : (Matcher.literal earlier).matchEnd? text offset = none) :
    (Matcher.literal later).matchEnd? text offset = none := by
  simp only [matchEnd?, List.isPrefixOf_iff_prefix] at h ⊢
  split at h
  · cases h
  · next hnot =>
    refine if_neg fun hlater => hnot ⟨hlater.1, ?_⟩
    exact hbegins.trans hlater.2

/-- Wherever `first` fails it tells of a mismatch at that offset, and `dead` does nothing but fail with
the message. -/
structure Shadows (message : String) (first dead : Meaning) : Prop where
  told : ∀ {offset log visits}, first offset .failure log visits → ∃ m ∈ log, m.offset = offset
  fails : ∀ {offset log visits}, first offset .failure log visits →
    ∀ {gist log' visits'}, dead offset gist log' visits' ↔
      gist = .failure ∧ log' = [⟨offset, message⟩] ∧ visits' = 1

/-- A literal shadows all that it is a prefix of. -/
theorem shadows_of_isPrefix {earlier later message : String}
    (hbegins : earlier.toList <+: later.toList)
    (hmessage : (Matcher.literal later).failureMessage = .ok message) (rules : RuleMap)
    (text : List Char) :
    Shadows message ((Rule.terminal (.literal earlier)).meaning rules text)
      ((Rule.terminal (.literal later)).meaning rules text) := by
  have hrefused : ∀ {offset log visits},
      (Rule.terminal (.literal earlier)).meaning rules text offset .failure log visits →
      (Matcher.literal earlier).matchEnd? text offset = none ∧
        ∃ m ∈ log, m.offset = offset := by
    intro offset log visits h
    obtain ⟨hcomes, -⟩ := Rule.meaning_terminal.1 h
    unfold Matcher.comesTo at hcomes
    split at hcomes
    · cases hcomes
    · next refused described =>
      cases hcomes
      exact ⟨refused, _, List.mem_singleton_self _, rfl⟩
    · cases hcomes
  constructor
  · intro offset log visits h
    exact (hrefused h).2
  · intro offset log visits h gist log' visits'
    rw [Rule.meaning_terminal, Matcher.comesTo,
      Matcher.matchEnd?_of_isPrefix hbegins (hrefused h).1, hmessage]
    simp only [Prod.mk.injEq, and_assoc, eq_comm]

namespace Correspondence

/-- Offsets belong to themselves only, and logs together if the second is the first, but for mismatches
that it may lack. -/
def thinned (message : String) : Correspondence where
  offsets offset offset' := offset' = offset
  trails log _ log' _ := Thins message log log'
  nothing := Thins.refl []
  visit h := h
  append h h' := h.append h'

variable {message : String}

omit [RegexLibrary] in
theorem inPlace_thinned : (thinned message).InPlace where
  offsets := Iff.rfl
  trails log _ := Thins.refl log

omit [RegexLibrary] in
theorem uncounted_thinned : (thinned message).Uncounted := fun h _ _ => h

section Places

variable {bound : Nat} {first dead middle middle' last last' : Meaning}

/-- Behind a branch that shadows it a branch may be left out, ... -/
theorem carries_leaveOut (hdead : Shadows message first dead)
    (hmiddle : (thinned message).Carries bound middle middle')
    (hlast : (thinned message).Carries bound last last') :
    (thinned message).Carries bound
      (.join .choice first (.join .choice middle (.join .choice dead last)))
      (.join .choice first (.join .choice middle' last')) := by
  intro offset offset' gist log visits hoffset hvisits h
  obtain rfl : offset' = offset := hoffset
  cases h with
  | stands stands head =>
    exact ⟨gist, log, visits, .stands stands head, inPlace_thinned.gists_iff.2 rfl, Thins.refl log⟩
  | @fails log₁ _ _ _ head tail =>
    cases tail with
    | stands stands inner =>
      obtain ⟨gist', log', visits', inner', hgist, htrail⟩ := hmiddle rfl (by omega) inner
      refine ⟨gist', _, _, .fails head (.stands ?_ inner'), hgist, (Thins.refl log₁).append htrail⟩
      exact mt hgist.failure_iff.2 stands
    | fails inner tail =>
      obtain ⟨_, log', visits', inner', hgist, htrail⟩ := hmiddle rfl (by omega) inner
      cases hgist
      cases tail with
      | stands stands inner => exact absurd ((hdead.fails head).1 inner).1 stands
      | fails unmatched tail =>
        obtain ⟨-, rfl, rfl⟩ := (hdead.fails head).1 unmatched
        obtain ⟨gist', more', count', tail', hgist, htrail'⟩ := hlast rfl (by omega) tail
        exact ⟨gist', _, _, .fails head (.fails inner' tail'), hgist,
          Thins.leaveOut (hdead.told head) htrail htrail'⟩

/-- ... and put in again. -/
theorem carries_putIn (hdead : Shadows message first dead)
    (hmiddle : (thinned message).flip.Carries bound middle' middle)
    (hlast : (thinned message).flip.Carries bound last' last) :
    (thinned message).flip.Carries bound
      (.join .choice first (.join .choice middle' last'))
      (.join .choice first (.join .choice middle (.join .choice dead last))) := by
  intro offset offset' gist log visits hoffset hvisits h
  obtain rfl : offset = offset' := hoffset
  cases h with
  | stands stands head =>
    exact ⟨gist, log, visits, .stands stands head, inPlace_thinned.flip.gists_iff.2 rfl,
      Thins.refl log⟩
  | @fails log₁ _ _ _ head tail =>
    cases tail with
    | stands stands inner =>
      obtain ⟨gist', log', visits', inner', hgist, htrail⟩ := hmiddle rfl (by omega) inner
      refine ⟨gist', _, _, .fails head (.stands ?_ inner'), hgist, (Thins.refl log₁).append htrail⟩
      exact mt hgist.failure_iff.2 stands
    | fails inner tail =>
      obtain ⟨_, log', visits', inner', hgist, htrail⟩ := hmiddle rfl (by omega) inner
      cases hgist
      obtain ⟨gist', more', count', tail', hgist, htrail'⟩ := hlast rfl (by omega) tail
      have unmatched : dead offset .failure [⟨offset, message⟩] 1 :=
        (hdead.fails head).2 ⟨rfl, rfl, rfl⟩
      exact ⟨gist', _, _, .fails head (.fails inner' (.fails unmatched tail')), hgist,
        Thins.leaveOut (hdead.told head) htrail htrail'⟩

/-- So it makes no difference whether the branch is there. -/
theorem exchanges_leaveOut (hdead : Shadows message first dead)
    (hmiddle : (thinned message).Exchanges bound middle middle')
    (hlast : (thinned message).Exchanges bound last last') :
    (thinned message).Exchanges bound
      (.join .choice first (.join .choice middle (.join .choice dead last)))
      (.join .choice first (.join .choice middle' last')) where
  ahead := carries_leaveOut hdead hmiddle.ahead hlast.ahead
  back := carries_putIn hdead hmiddle.back hlast.back

end Places

section Choices

variable {rules rules' : RuleMap} {text : List Char} {bound : Nat} {earlier later : String}
  {choice fewer : Rule}

/-- A choice is exchanged with what is left of it if all rules are exchanged with themselves. -/
theorem exchanges_fewer (hbegins : earlier.toList <+: later.toList)
    (hmessage : (Matcher.literal later).failureMessage = .ok message)
    (h : Rule.DropsBranch earlier later choice fewer)
    (hall : ∀ rule : Rule,
      (thinned message).Exchanges bound (rule.meaning rules text) (rule.meaning rules' text)) :
    (thinned message).Exchanges bound (choice.meaning rules text) (fewer.meaning rules' text) := by
  have hdead := shadows_of_isPrefix hbegins hmessage rules text
  have hsame := @Rule.meaning_terminal_eq _ text (.literal earlier) rules' rules
  cases h with
  | choice whole whole' parts parts' =>
    rw [Rule.meaning_of_place whole parts, Rule.meaning_of_place whole' parts', hsame]
    simp only [List.map_append, List.map_cons, Meaning.row_append, Meaning.row_cons]
    refine Exchanges.visit (.join _ (exchanges_row hall _ _) ?_)
    exact exchanges_leaveOut hdead (exchanges_row hall _ _) (exchanges_row hall _ _)
  | last =>
    rw [Rule.meaning_of_pair rfl rfl, hsame]
    have hnone : (thinned message).Exchanges bound (.unit .choice) (.unit .choice) :=
      .row .choice .nil
    have hpair := exchanges_leaveOut hdead hnone hnone
    simp only [Meaning.unit_join, Meaning.join_unit] at hpair
    exact hpair.of_visit uncounted_thinned

end Choices

end Correspondence

/-- A branch that an earlier one shadows is not missed: a run over a map in which a choice has lost a
literal, behind a literal that it begins with, matches the run over the map, except that its
failure may lack the message of the lost literal. -/
theorem Run.matches_of_shadowing {rules : RuleMap} {name : String} {rule edited choice fewer : Rule}
    {earlier later : String} (found : rules.get? name = some (.rule rule))
    (hbegins : earlier.toList <+: later.toList)
    (drops : Rule.DropsBranch earlier later choice fewer)
    (replaced : Rule.Replaced choice fewer rule edited) (text : List Char) (start : String) :
    ∃ message, (Matcher.literal later).failureMessage = .ok message ∧
      Run.Matches (Ending.AlikeBut message) { rules, text, name := start }
        { rules := rules.define name (.rule edited), text, name := start } := by
  obtain ⟨message, hmessage⟩ : ∃ message, (Matcher.literal later).failureMessage = .ok message :=
    ⟨_, rfl⟩
  refine ⟨message, hmessage, ?_⟩
  have hplace : (Correspondence.thinned message).InPlace := Correspondence.inPlace_thinned
  refine matches_of_rewriting hplace found replaced ?_ ?_ start
  · intro bound hall
    exact Correspondence.exchanges_fewer hbegins hmessage drops hall
  · intro gist log visits log' visits' ending ending' hthins hshown hshown'
    exact hshown.alikeBut hthins hshown'

/-- An a, an ab or a c, and a d. -/
def Rule.shadowing : Rule :=
  .seq (.choice (.terminal (.literal "a")) (.terminal (.literal "ab")) [.terminal (.literal "c")])
    [.terminal (.literal "d")]

end AnyLibrary

theorem Run.matches_of_shadowing_sample :
    let rules := RuleMap.ofList [("S", .rule .shadowing)]
    let edited := Rule.seq (.choice (.terminal (.literal "a")) (.terminal (.literal "c")) [])
      [.terminal (.literal "d")]
    let run (text : String) : Run := ⟨rules, text.toList, "S"⟩
    let shorter (text : String) : Run := ⟨rules.define "S" (.rule edited), text.toList, "S"⟩
    ∃ message, (Matcher.literal "ab").failureMessage = .ok message ∧
      (∀ text, (run text).Matches (Ending.AlikeBut message) (shorter text)) ∧
      (run "cd").AcceptsIn 7 ∧ (shorter "cd").AcceptsIn 6 ∧
      (∃ ending, (run "x").EndsIn ending ∧ ending.machine.status = .rejected ∧
        ending.machine.failures.messages.toList = ["expected match of 'a'", message,
          "expected match of 'c'"]) ∧
      ∃ ending, (shorter "x").EndsIn ending ∧ ending.machine.status = .rejected ∧
        ending.machine.failures.messages.toList = ["expected match of 'a'",
          "expected match of 'c'"] := by
  intro rules edited run shorter
  have drops : Rule.DropsBranch "a" "ab" _ _ :=
    @Rule.DropsBranch.choice _ _ _
      (.choice (.terminal (.literal "a")) (.terminal (.literal "ab")) [.terminal (.literal "c")])
      (.choice (.terminal (.literal "a")) (.terminal (.literal "c")) [])
      [] [] [.terminal (.literal "c")] rfl rfl rfl rfl
  have replaced : Rule.Replaced _ _ Rule.shadowing edited :=
    @Rule.Replaced.inside _ _ _ _ _ _ _ [] [.terminal (.literal "d")] .sequence rfl rfl rfl rfl
      .here
  have found : rules.get? "S" = some (.rule .shadowing) := by decide
  have hmessage : (Matcher.literal "ab").failureMessage = .ok "expected match of 'ab'" := by decide
  refine ⟨_, hmessage, fun text => ?_, ?_, ?_, ?_, ?_⟩
  · obtain ⟨message, hmessage', hmatches⟩ :=
      Run.matches_of_shadowing found (by decide) drops replaced text.toList "S"
    cases hmessage.symm.trans hmessage'
    exact hmatches
  · exact @acceptsIn_of_outcome _ _ 7 _ (by decide) (by decide)
  · exact @acceptsIn_of_outcome _ _ 6 _ (by decide) (by decide)
  · exact ⟨_, endsIn_iff_outcome.2 ⟨6, Or.inr (by decide), rfl⟩, by decide, by decide⟩
  · exact ⟨_, endsIn_iff_outcome.2 ⟨6, Or.inr (by decide), rfl⟩, by decide, by decide⟩

end PegMachine
