import PegMachine.Proofs.Rewriting
import PegMachine.Regex.Backtracking

/-!
# Regrouping and inlining

Two ways to rewrite a rule that callers do not see. A sequence in a sequence may give way to its
elements, a choice in a choice to its branches, and a sequence of one element to that element
(`Run.matches_of_regrouping`); a name may give way to what stands under it
(`Run.matches_of_inlining`), also within the rule of that name itself.

The same terminals are tried at the same offsets, so what is met is the same. Only evaluations of
sequences, choices and names are saved: in the row of its surroundings a nested rule means its own row
with one evaluation around it, and rows may be grouped in any way.
-/

namespace PegMachine

section AnyLibrary

variable [RegexLibrary]

namespace Correspondence

/-- Offsets and mismatches belong to themselves only, whatever the numbers of evaluations. -/
def same : Correspondence where
  offsets offset offset' := offset' = offset
  trails log _ log' _ := log' = log
  nothing := rfl
  visit h := h
  append := by
    rintro log _ _ _ more _ _ _ rfl rfl
    rfl

omit [RegexLibrary] in
theorem inPlace_same : same.InPlace where
  offsets := Iff.rfl
  trails _ _ := rfl

omit [RegexLibrary] in
theorem uncounted_same : same.Uncounted := fun h _ _ => h

section Places

variable {c : Correspondence} {rules rules' : RuleMap} {text : List Char} {bound : Nat}
  {old new : Rule}

/-- A rule into which another is spliced means a row with the row of the other in it. -/
theorem meaning_of_spliced {rule inner : Rule} {before after : List Rule} {kind : Rule.Kind}
    (whole : rule.kind? = some kind) (parts : rule.parts = before ++ (inner.parts ++ after)) :
    rule.meaning rules text =
      (Meaning.row kind (before.map (Rule.meaning rules text) ++
        Meaning.row kind (inner.parts.map (Rule.meaning rules text)) ::
          after.map (Rule.meaning rules text))).visit := by
  rw [Rule.meaning_of_kind whole, parts, List.map_append, List.map_append, Meaning.row_splice]

/-- A rule is exchanged with what it is regrouped to if all rules are exchanged with themselves. -/
theorem exchanges_regrouped (hc : c.Uncounted) (h : Rule.Regroups old new)
    (hall : ∀ rule : Rule, c.Exchanges bound (rule.meaning rules text) (rule.meaning rules' text)) :
    c.Exchanges bound (old.meaning rules text) (new.meaning rules' text) := by
  cases h with
  | splice whole nested whole' parts parts' =>
    rw [Rule.meaning_of_place whole parts, Rule.meaning_of_kind nested,
      meaning_of_spliced whole' parts']
    exact (exchanges_row_at hall _ _ _ ((exchanges_row hall _ _).of_visit hc)).visit
  | single =>
    rw [Rule.meaning_of_single rfl rfl]
    exact (hall _).of_visit hc

end Places

end Correspondence

/-- Endings that show the same, but for the numbers of evaluations, are alike. -/
theorem Gist.Shown.alike {gist : Gist} {length visits visits' : Nat} {log : List Mismatch}
    {ending ending' : Ending} (h : gist.Shown length log visits ending)
    (h' : gist.Shown length log visits' ending') : ending.Alike ending' where
  fault := by rw [h'.fault, h.fault]
  status := by rw [h'.status, h.status]
  failures := by rw [h'.failures, h.failures]
  readings haccepted := by
    have haccepted' : ending'.machine.status = .accepted := by
      rw [h'.status, ← h.status, haccepted]
    rw [h'.readings haccepted', h.readings haccepted]

/-- Brackets in brackets: an a, brackets and a b, or a c. The last two parts of the first branch are
grouped. -/
def Rule.bracketsGrouped : Rule :=
  .choice (.seq (.terminal (.literal "a")) [.seq (.ref "S") [.terminal (.literal "b")]])
    (.terminal (.literal "c")) []

/-- The same brackets without the group. -/
def Rule.brackets : Rule :=
  .choice (.seq (.terminal (.literal "a")) [.ref "S", .terminal (.literal "b")])
    (.terminal (.literal "c")) []

namespace Run

variable {rules : RuleMap} {name : String} {rule edited : Rule}

/-- Regrouping is not seen: a run over a map in which a rule is grouped in another way at one place
matches the run over the map. -/
theorem matches_of_regrouping {old new : Rule} (found : rules.get? name = some (.rule rule))
    (regroups : Rule.Regroups old new) (replaced : Rule.Replaced old new rule edited)
    (text : List Char) (start : String) :
    Run.Matches Ending.Alike { rules, text, name := start }
      { rules := rules.define name (.rule edited), text, name := start } := by
  refine matches_of_rewriting Correspondence.inPlace_same found replaced ?_ ?_ start
  · intro bound hall
    exact Correspondence.exchanges_regrouped Correspondence.uncounted_same regroups hall
  · rintro gist log visits _ visits' ending ending' rfl hshown hshown'
    exact hshown.alike hshown'

/-- Inlining is not seen: a run over a map in which a name has given way, at one place, to the rule
that stands under it matches the run over the map. The place may be in that rule itself. -/
theorem matches_of_inlining {called : String} {target : Rule}
    (found : rules.get? name = some (.rule rule))
    (foundTarget : rules.get? called = some (.rule target))
    (replaced : Rule.Replaced (.ref called) target rule edited) (text : List Char)
    (start : String) :
    Run.Matches Ending.Alike { rules, text, name := start }
      { rules := rules.define name (.rule edited), text, name := start } := by
  have hcalled : (Rule.ref called).meaning rules text = (target.meaning rules text).visit :=
    Rule.meaning_of_found foundTarget
  refine matches_of_rewriting Correspondence.inPlace_same found replaced ?_ ?_ start
  · intro bound hall
    rw [hcalled]
    exact (hall target).of_visit Correspondence.uncounted_same
  · rintro gist log visits _ visits' ending ending' rfl hshown hshown'
    exact hshown.alike hshown'

end Run

end AnyLibrary

namespace Run

theorem matches_of_regrouping_sample :
    let rules := RuleMap.ofList [("S", .rule .bracketsGrouped)]
    let run : Run := ⟨rules, "aacbb".toList, "S"⟩
    let regrouped : Run := ⟨rules.define "S" (.rule .brackets), "aacbb".toList, "S"⟩
    run.Matches Ending.Alike regrouped ∧ run.AcceptsIn 17 ∧ regrouped.AcceptsIn 15 := by
  have regroups : Rule.Regroups
      (.seq (.terminal (.literal "a")) [.seq (.ref "S") [.terminal (.literal "b")]])
      (.seq (.terminal (.literal "a")) [.ref "S", .terminal (.literal "b")]) :=
    @Rule.Regroups.splice _ _ (.seq (.ref "S") [.terminal (.literal "b")]) _
      [.terminal (.literal "a")] [] .sequence rfl rfl rfl rfl rfl
  have replaced : Rule.Replaced _ _ Rule.bracketsGrouped Rule.brackets :=
    @Rule.Replaced.inside _ _ _ _ _ _ _ [] [.terminal (.literal "c")] .choice rfl rfl rfl rfl .here
  refine ⟨matches_of_regrouping (by decide) regroups replaced "aacbb".toList "S", ?_, ?_⟩
  · exact @acceptsIn_of_outcome _ _ 17 _ (by decide) (by decide)
  · exact @acceptsIn_of_outcome _ _ 15 _ (by decide) (by decide)

theorem matches_of_inlining_sample :
    let rules := RuleMap.ofList [("S", .rule .brackets)]
    let unrolled := Rule.choice
      (.seq (.terminal (.literal "a")) [.brackets, .terminal (.literal "b")])
      (.terminal (.literal "c")) []
    let run : Run := ⟨rules, "aacbb".toList, "S"⟩
    let inlined : Run := ⟨rules.define "S" (.rule unrolled), "aacbb".toList, "S"⟩
    run.Matches Ending.Alike inlined ∧ run.AcceptsIn 15 ∧ inlined.AcceptsIn 14 := by
  intro rules unrolled run inlined
  have inBranch : Rule.Replaced (.ref "S") .brackets
      (.seq (.terminal (.literal "a")) [.ref "S", .terminal (.literal "b")])
      (.seq (.terminal (.literal "a")) [.brackets, .terminal (.literal "b")]) :=
    @Rule.Replaced.inside _ _ _ _ _ _ _ [.terminal (.literal "a")] [.terminal (.literal "b")]
      .sequence rfl rfl rfl rfl .here
  have replaced : Rule.Replaced (.ref "S") .brackets .brackets unrolled :=
    @Rule.Replaced.inside _ _ _ _ _ _ _ [] [.terminal (.literal "c")] .choice rfl rfl rfl rfl
      inBranch
  refine ⟨matches_of_inlining (by decide) (by decide) replaced "aacbb".toList "S", ?_, ?_⟩
  · exact @acceptsIn_of_outcome _ _ 15 _ (by decide) (by decide)
  · exact @acceptsIn_of_outcome _ _ 14 _ (by decide) (by decide)

end Run

end PegMachine
