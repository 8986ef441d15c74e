import PegMachine.Proofs.Correspondence
import PegMachine.Proofs.Endings
import PegMachine.Semantics.Rewriting

/-!
# Runs over a rewritten map

One rule of a map is rewritten at one place. Under a correspondence that moves no offset and takes
every trail for itself (`Correspondence.InPlace`) all terminals are exchanged with themselves, so the
two runs match as soon as what stood at the place is exchanged with what stands there now, as long as
all rules are with themselves (`Run.matches_of_rewriting`). Where the numbers of evaluations have no
say (`Correspondence.Uncounted`) one evaluation more makes no difference (`Exchanges.of_visit`).
-/

namespace PegMachine

variable [RegexLibrary]

namespace Correspondence

/-- An offset belongs to itself only, and every trail to itself. -/
structure InPlace (c : Correspondence) : Prop where
  offsets : ∀ {offset offset'}, c.offsets offset offset' ↔ offset' = offset
  trails : ∀ log visits, c.trails log visits log visits

/-- Trails belong together whatever the numbers of evaluations. -/
def Uncounted (c : Correspondence) : Prop :=
  ∀ {log visits log' visits'}, c.trails log visits log' visits' →
    ∀ other other', c.trails log other log' other'

section InPlace

variable {c : Correspondence}

omit [RegexLibrary] in
theorem InPlace.flip (hc : c.InPlace) : c.flip.InPlace where
  offsets := Iff.trans hc.offsets eq_comm
  trails := hc.trails

/-- Gists belong together if and only if they are the same. -/
theorem InPlace.gists_iff (hc : c.InPlace) {gist gist' : Gist} :
    c.Gists gist gist' ↔ gist' = gist := by
  have hmoves : ∀ {offset offset'}, c.offsets offset offset' ↔ offset' = id offset := hc.offsets
  rw [gists_iff_of_moves hmoves, Gist.move_id]

end InPlace

section Maps

variable {c : Correspondence} {rules rules' : RuleMap} {text : List Char} {bound : Nat}

theorem InPlace.carries_terminal (hc : c.InPlace) (matcher : Matcher) :
    c.Carries bound ((Rule.terminal matcher).meaning rules text)
      ((Rule.terminal matcher).meaning rules' text) := by
  intro offset offset' gist log visits hoffset _ h
  obtain rfl := hc.offsets.1 hoffset
  rw [Rule.meaning_terminal_eq matcher rules rules'] at h
  exact ⟨gist, log, visits, h, hc.gists_iff.2 rfl, hc.trails log visits⟩

/-- All rules are exchanged with themselves if all names are. -/
theorem InPlace.exchanges_all (hc : c.InPlace)
    (hnames : ∀ name, c.Exchanges bound ((Rule.ref name).meaning rules text)
      ((Rule.ref name).meaning rules' text)) (rule : Rule) :
    c.Exchanges bound (rule.meaning rules text) (rule.meaning rules' text) := by
  refine exchanges_rule (fun matcher _ => ?_) fun name _ => hnames name
  exact ⟨hc.carries_terminal matcher, hc.flip.carries_terminal matcher⟩

/-- A rule is exchanged with what it is rewritten to if all rules are exchanged with themselves, and
what stood at the place with what stands there now. -/
theorem exchanges_replaced {old new rule edited : Rule} (h : Rule.Replaced old new rule edited)
    (hall : ∀ rule : Rule, c.Exchanges bound (rule.meaning rules text) (rule.meaning rules' text))
    (hplace : c.Exchanges bound (old.meaning rules text) (new.meaning rules' text)) :
    c.Exchanges bound (rule.meaning rules text) (edited.meaning rules' text) := by
  induction h with
  | here => exact hplace
  | inside whole whole' parts parts' _ ih =>
    rw [Rule.meaning_of_place whole parts, Rule.meaning_of_place whole' parts']
    exact (exchanges_row_at hall _ _ _ ih).visit

/-- All rules are exchanged with themselves between a map and one in which a rule is rewritten, if what
stood at the place is exchanged with what stands there now as long as all rules are. -/
theorem InPlace.exchanges_rewritten (hc : c.InPlace) {name : String} {old new rule edited : Rule}
    (found : rules.get? name = some (.rule rule)) (h : Rule.Replaced old new rule edited)
    (place : ∀ bound, (∀ rule : Rule, c.Exchanges bound (rule.meaning rules text)
        (rule.meaning (rules.define name (.rule edited)) text)) →
      c.Exchanges bound (old.meaning rules text)
        (new.meaning (rules.define name (.rule edited)) text))
    (bound : Nat) (other : Rule) :
    c.Exchanges bound (other.meaning rules text)
      (other.meaning (rules.define name (.rule edited)) text) := by
  refine hc.exchanges_all (fun called => ?_) other
  refine exchanges_names (fun _ => True) (fun bound hnames called _ => ?_) bound called trivial
  have hall := hc.exchanges_all fun name => hnames name trivial
  rw [RuleMap.get?_define]
  split
  · next hsame =>
    rw [hsame, found]
    exact .some (exchanges_replaced h hall (place bound hall))
  · exact rel_of_rules fun rule _ => hall rule

end Maps

/-! ## Evaluations that do not count -/

section Uncounted

variable {c : Correspondence} {bound : Nat} {m m' : Meaning}

theorem Exchanges.of_visit (hc : c.Uncounted) (h : c.Exchanges bound m m') :
    c.Exchanges bound m.visit m' where
  ahead := by
    intro offset offset' gist log visits hoffset hvisits hm
    obtain ⟨hm⟩ := hm
    obtain ⟨gist', log', visits', hm', hgist, htrail⟩ := h.ahead hoffset (by omega) hm
    exact ⟨gist', log', visits', hm', hgist, hc htrail _ _⟩
  back := by
    intro offset offset' gist log visits hoffset hvisits hm
    obtain ⟨gist', log', visits', hm', hgist, htrail⟩ := h.back hoffset hvisits hm
    exact ⟨gist', log', visits' + 1, .visited hm', hgist, hc htrail _ _⟩

end Uncounted

end Correspondence

/-- Two runs match, one over a map and the other over the map in which a rule is rewritten at one
place, if what stood at the place is exchanged with what stands there now as long as all rules are
exchanged with themselves. -/
theorem Run.matches_of_rewriting {c : Correspondence} (hc : c.InPlace)
    {related : Ending → Ending → Prop} {rules : RuleMap} {text : List Char} {name : String}
    {old new rule edited : Rule} (found : rules.get? name = some (.rule rule))
    (h : Rule.Replaced old new rule edited)
    (place : ∀ bound, (∀ rule : Rule, c.Exchanges bound (rule.meaning rules text)
        (rule.meaning (rules.define name (.rule edited)) text)) →
      c.Exchanges bound (old.meaning rules text)
        (new.meaning (rules.define name (.rule edited)) text))
    (shown : ∀ (gist : Gist) log visits log' visits' ending ending',
      c.trails log visits log' visits' → gist.Shown text.length log visits ending →
      gist.Shown text.length log' visits' ending' → related ending ending')
    (start : String) :
    Run.Matches related { rules, text, name := start }
      { rules := rules.define name (.rule edited), text, name := start } := by
  have hstart := fun bound => hc.exchanges_rewritten found h place bound (.ref start)
  refine matches_of_meanings (fun gist log visits gist' log' visits' =>
    gist' = gist ∧ c.trails log visits log' visits') ?_ ?_ ?_
  · intro gist log visits hmeaning
    obtain ⟨gist', log', visits', hmeaning', hgist, htrail⟩ :=
      (hstart visits).ahead (hc.offsets.2 rfl) (Nat.le_refl _) hmeaning
    exact ⟨gist', log', visits', hmeaning', hc.gists_iff.1 hgist, htrail⟩
  · intro gist' log' visits' hmeaning'
    obtain ⟨gist, log, visits, hmeaning, hgist, htrail⟩ :=
      (hstart visits').back (hc.flip.offsets.2 rfl) (Nat.le_refl _) hmeaning'
    exact ⟨gist, log, visits, hmeaning, (hc.flip.gists_iff.1 hgist).symm, htrail⟩
  · rintro gist log visits _ log' visits' ending ending' ⟨rfl, htrail⟩ hshown hshown'
    exact shown _ _ _ _ _ _ _ htrail hshown hshown'

end PegMachine
