import PegMachine.Semantics.Meaning

/-!
# The meaning of a rule is that of its parts

The recursive evaluation, read as equations between meanings. A sequence or choice means the row of
its parts with one evaluation around it (`Rule.meaning_of_kind`), a defined name what stands under it,
with one evaluation around that (`Rule.meaning_of_found`). What a terminal comes to is up to its
matcher and the text alone (`Rule.meaning_terminal`).
-/

namespace PegMachine

variable [RegexLibrary]

namespace Verdict

theorem gist_under {frame : Frame} (h : frame.value = none) (verdict : Verdict) :
    (verdict.under frame).gist = verdict.gist := by
  cases verdict with
  | success trees stop => simp [under, gist, Frame.reading?, h]
  | failure => rfl
  | fault f => rfl

theorem gist_after (trees : List Derivation) (verdict : Verdict) :
    (verdict.after trees).gist =
      verdict.gist.after ((Derivation.listingAll trees).filterMap Frame.reading?) := by
  cases verdict with
  | success more stop => simp [after, gist, Gist.after, Derivation.listingAll_append]
  | failure => rfl
  | fault f => rfl

theorem isSuccess_gist {verdict : Verdict} : verdict.gist.IsSuccess ↔ verdict.IsSuccess := by
  cases verdict <;> exact Iff.rfl

theorem gist_eq_success {verdict : Verdict} {readings : List Reading} {stop : Nat}
    (h : verdict.gist = .success readings stop) :
    ∃ trees, verdict = .success trees stop ∧
      (Derivation.listingAll trees).filterMap Frame.reading? = readings := by
  cases verdict with
  | success trees stop' =>
    cases h
    exact ⟨trees, rfl, rfl⟩
  | failure => cases h
  | fault => cases h

theorem gist_eq_failure {verdict : Verdict} : verdict.gist = .failure ↔ verdict = .failure := by
  cases verdict <;> simp [gist]

end Verdict

section Equations

variable (rules : RuleMap) (text : List Char)

/-! ## Sequences -/

theorem Goal.meaning_noElements :
    (Goal.elements []).meaning rules text = Meaning.unit .sequence := by
  ext
  constructor
  · rintro ⟨_, ⟨⟩, rfl⟩
    exact .done
  · rintro ⟨⟩
    exact ⟨_, .noElements, rfl⟩

theorem Goal.meaning_elements_cons (part : Rule) (parts : List Rule) :
    (Goal.elements (part :: parts)).meaning rules text =
      Meaning.join .sequence (part.meaning rules text) ((Goal.elements parts).meaning rules text) := by
  ext offset gist log visits
  constructor
  · rintro ⟨verdict, h, rfl⟩
    cases h with
    | element head tail =>
      rw [Verdict.gist_after]
      exact .both ⟨_, head, rfl⟩ ⟨_, tail, rfl⟩
    | elementStops stops head => exact .stops (mt Verdict.isSuccess_gist.1 stops) ⟨_, head, rfl⟩
  · intro h
    cases h with
    | both head tail =>
      obtain ⟨_, head, hgist⟩ := head
      obtain ⟨trees, rfl, rfl⟩ := Verdict.gist_eq_success hgist
      obtain ⟨verdict, tail, rfl⟩ := tail
      exact ⟨_, .element head tail, Verdict.gist_after trees verdict⟩
    | stops stops head =>
      obtain ⟨verdict, head, rfl⟩ := head
      exact ⟨verdict, .elementStops (mt Verdict.isSuccess_gist.2 stops) head, rfl⟩

/-- Elements mean the row of their meanings. -/
theorem Goal.meaning_elements (parts : List Rule) :
    (Goal.elements parts).meaning rules text =
      Meaning.row .sequence (parts.map (Rule.meaning rules text)) := by
  induction parts with
  | nil => exact meaning_noElements rules text
  | cons part parts ih => rw [meaning_elements_cons, ih, List.map_cons, Meaning.row_cons]

/-! ## Choices -/

theorem Goal.meaning_noBranch {choice : Rule} {branch : Nat}
    (beyond : choice.parts[branch]? = none) :
    (Goal.branches choice branch).meaning rules text = Meaning.unit .choice := by
  ext
  constructor
  · rintro ⟨_, h, rfl⟩
    cases h with
    | noBranch => exact .exhausted
    | branch here => simp [beyond] at here
    | branchFault here => simp [beyond] at here
    | branchFails here => simp [beyond] at here
  · rintro ⟨⟩
    exact ⟨_, .noBranch beyond, rfl⟩

theorem Goal.meaning_branch {choice part : Rule} {branch : Nat}
    (here : choice.parts[branch]? = some part) :
    (Goal.branches choice branch).meaning rules text =
      Meaning.join .choice (part.meaning rules text)
        ((Goal.branches choice (branch + 1)).meaning rules text) := by
  ext offset gist log visits
  constructor
  · rintro ⟨verdict, h, rfl⟩
    rcases h.of_branches here with ⟨trees, stop, head, rfl⟩ | ⟨fault, head, rfl⟩ |
      ⟨_, _, _, _, head, tail, rfl, rfl⟩
    · refine .stands nofun ⟨_, head, ?_⟩
      exact (Verdict.gist_under rfl (.success trees stop)).symm
    · exact .stands nofun ⟨_, head, rfl⟩
    · exact .fails ⟨_, head, rfl⟩ ⟨_, tail, rfl⟩
  · intro h
    cases h with
    | stands stands head =>
      obtain ⟨verdict, head, rfl⟩ := head
      cases verdict with
      | success trees stop =>
        exact ⟨_, .branch here head, Verdict.gist_under rfl (.success trees stop)⟩
      | failure => exact absurd rfl stands
      | fault f => exact ⟨_, .branchFault here head, rfl⟩
    | fails head tail =>
      obtain ⟨_, head, hgist⟩ := head
      obtain rfl := Verdict.gist_eq_failure.1 hgist
      obtain ⟨verdict, tail, rfl⟩ := tail
      exact ⟨verdict, .branchFails here head tail, rfl⟩

/-- A choice means, from a branch on, the row of the meanings of its branches from that one on. -/
theorem Goal.meaning_branches (choice : Rule) (branch : Nat) :
    (Goal.branches choice branch).meaning rules text =
      Meaning.row .choice ((choice.parts.drop branch).map (Rule.meaning rules text)) := by
  -- on the branches that are left
  induction hleft : choice.parts.drop branch generalizing branch with
  | nil =>
    have hbeyond : choice.parts[branch]? = none := by
      rw [List.getElem?_eq_none_iff]
      exact List.drop_eq_nil_iff.1 hleft
    exact meaning_noBranch rules text hbeyond
  | cons part parts ih =>
    have hhere : choice.parts[branch]? = some part := by
      rw [← List.head?_drop, hleft, List.head?_cons]
    have hnext : choice.parts.drop (branch + 1) = parts := by
      rw [← List.tail_drop, hleft, List.tail_cons]
    rw [meaning_branch rules text hhere, ih (branch + 1) hnext, List.map_cons, Meaning.row_cons]

/-! ## Rules -/

variable {rules text}

/-- A terminal comes to what its matcher does, in one evaluation. -/
theorem Rule.meaning_terminal {matcher : Matcher} {offset : Nat} {gist : Gist}
    {log : List Mismatch} {visits : Nat} :
    (Rule.terminal matcher).meaning rules text offset gist log visits ↔
      matcher.comesTo text offset = (gist, log) ∧ visits = 1 := by
  constructor
  · rintro ⟨verdict, h, rfl⟩
    cases h with
    | matched ends =>
      rw [Matcher.comesTo, ends]
      exact ⟨rfl, rfl⟩
    | mismatched refused described =>
      rw [Matcher.comesTo, refused, described]
      exact ⟨rfl, rfl⟩
    | indescribable refused undescribed =>
      rw [Matcher.comesTo, refused, undescribed]
      exact ⟨rfl, rfl⟩
  · rintro ⟨h, rfl⟩
    unfold Matcher.comesTo at h
    split at h
    · next ends =>
      cases h
      exact ⟨_, .matched ends, rfl⟩
    · next refused described =>
      cases h
      exact ⟨_, .mismatched refused described, rfl⟩
    · next refused undescribed =>
      cases h
      exact ⟨_, .indescribable refused undescribed, rfl⟩

/-- A terminal does not look at the rules. -/
theorem Rule.meaning_terminal_eq (matcher : Matcher) (rules other : RuleMap) :
    (Rule.terminal matcher).meaning rules text = (Rule.terminal matcher).meaning other text := by
  ext offset gist log visits
  rw [meaning_terminal, meaning_terminal]

/-- A rule with parts means the row of its parts. -/
theorem Rule.meaning_of_kind {rule : Rule} {kind : Kind} (h : rule.kind? = some kind) :
    rule.meaning rules text =
      (Meaning.row kind (rule.parts.map (meaning rules text))).visit := by
  cases rule with
  | ref => cases h
  | terminal => cases h
  | seq first rest =>
    cases h
    rw [← Goal.meaning_elements]
    ext offset gist log visits
    constructor
    · rintro ⟨verdict, h, rfl⟩
      cases h with
      | sequence body =>
        rw [Verdict.gist_under rfl]
        exact .visited ⟨_, body, rfl⟩
    · rintro ⟨verdict, h, rfl⟩
      exact ⟨_, .sequence h, Verdict.gist_under rfl verdict⟩
  | choice first second rest =>
    cases h
    have hall := Goal.meaning_branches rules text (.choice first second rest) 0
    rw [List.drop_zero] at hall
    rw [← hall]
    ext offset gist log visits
    constructor
    · rintro ⟨verdict, h, rfl⟩
      cases h with
      | choice body => exact .visited ⟨_, body, rfl⟩
    · rintro ⟨verdict, h, rfl⟩
      exact ⟨_, .choice h, rfl⟩

/-- The same, seen from one of the parts. -/
theorem Rule.meaning_of_place {rule part : Rule} {before after : List Rule} {kind : Kind}
    (h : rule.kind? = some kind) (parts : rule.parts = before ++ part :: after) :
    rule.meaning rules text =
      (Meaning.row kind (before.map (meaning rules text) ++
        part.meaning rules text :: after.map (meaning rules text))).visit := by
  rw [meaning_of_kind h, parts, List.map_append, List.map_cons]

/-- A rule of one part means that part with one evaluation around it. -/
theorem Rule.meaning_of_single {rule part : Rule} {kind : Kind} (h : rule.kind? = some kind)
    (parts : rule.parts = [part]) :
    rule.meaning rules text = (part.meaning rules text).visit := by
  rw [meaning_of_kind h, parts, List.map_singleton, Meaning.row_cons, Meaning.row_nil,
    Meaning.join_unit]

/-- A rule of two parts means one after the other, or one behind the other. -/
theorem Rule.meaning_of_pair {rule first second : Rule} {kind : Kind}
    (h : rule.kind? = some kind) (parts : rule.parts = [first, second]) :
    rule.meaning rules text =
      (Meaning.join kind (first.meaning rules text) (second.meaning rules text)).visit := by
  rw [meaning_of_kind h, parts]
  rw [List.map_cons, List.map_singleton, Meaning.row_cons, Meaning.row_cons, Meaning.row_nil,
    Meaning.join_unit]

/-- A terminal that matches and something else mean what that means where the match ends. -/
theorem Rule.terminal_andThen {matcher : Matcher} {m : Meaning} {offset stop : Nat}
    {readings : List Reading} (h : matcher.comesTo text offset = (.success readings stop, []))
    {gist : Gist} {log : List Mismatch} {visits : Nat} :
    Meaning.AndThen ((Rule.terminal matcher).meaning rules text) m offset gist log visits ↔
      ∃ gist' visits', m stop gist' log visits' ∧ gist = gist'.after readings ∧
        visits = visits' + 1 := by
  constructor
  · rintro (⟨head, tail⟩ | ⟨stops, head⟩)
    · obtain ⟨hcomes, rfl⟩ := meaning_terminal.1 head
      cases h.symm.trans hcomes
      exact ⟨_, _, tail, rfl, Nat.add_comm _ _⟩
    · obtain ⟨hcomes, -⟩ := meaning_terminal.1 head
      cases h.symm.trans hcomes
      exact absurd trivial stops
  · rintro ⟨gist', visits', tail, rfl, rfl⟩
    have head : (Rule.terminal matcher).meaning rules text offset _ _ 1 :=
      meaning_terminal.2 ⟨h, rfl⟩
    rw [Nat.add_comm]
    exact .both head tail

/-- A defined name means what stands under it. -/
theorem Rule.meaning_of_found {name : String} {item : Item} (found : rules.get? name = some item) :
    (Rule.ref name).meaning rules text = ((Goal.item item).meaning rules text).visit := by
  ext offset gist log visits
  constructor
  · rintro ⟨verdict, h, rfl⟩
    obtain ⟨verdict, visits, body, rfl, rfl⟩ := h.of_reference found
    rw [Verdict.gist_under rfl]
    exact .visited ⟨verdict, body, rfl⟩
  · rintro ⟨verdict, h, rfl⟩
    exact ⟨_, .reference found h, Verdict.gist_under rfl verdict⟩

end Equations

end PegMachine
