import Mathlib.Data.List.Forall2
import Mathlib.Data.Option.Basic
import PegMachine.Proofs.Checked
import PegMachine.Proofs.Meanings

/-!
# Correspondence of two maps of rules

Two maps of rules are compared, each in a text of its own. A `Correspondence` says which offsets
belong together and which trails, that is mismatches met and numbers of evaluations. A meaning is
carried over to another (`Correspondence.Carries`) if whatever comes out of the one has a counterpart
that comes out of the other, and the two are exchanged (`Correspondence.Exchanges`) if that is so both
ways; a bound on the number of evaluations makes room for induction.

What is put together from meanings that are exchanged is exchanged too (`Exchanges.join`,
`Exchanges.row`, `Exchanges.visit`). So a rule is exchanged with itself as soon as its terminals and
names are (`Correspondence.exchanges_rule`), and names are if what stands under them is, up to any
bound up to which names are (`Correspondence.exchanges_names`): a name is one evaluation more than
what stands under it.
-/

namespace PegMachine

variable [RegexLibrary]

/-- Induction from the parts of a rule to the rule. -/
theorem Rule.induct_of_parts {motive : Rule → Prop}
    (parts : ∀ rule, (∀ part ∈ rule.parts, motive part) → motive rule) (rule : Rule) :
    motive rule := by
  induction rule using Rule.induct_parts with
  | ref name => exact parts (.ref name) nofun
  | terminal matcher => exact parts (.terminal matcher) nofun
  | seq first rest ihFirst ihRest =>
    exact parts (.seq first rest) (List.forall_mem_cons.2 ⟨ihFirst, ihRest⟩)
  | choice first second rest ihFirst ihSecond ihRest =>
    apply parts (.choice first second rest)
    exact List.forall_mem_cons.2 ⟨ihFirst, List.forall_mem_cons.2 ⟨ihSecond, ihRest⟩⟩

/-- Which offsets in two texts belong together, and which trails of evaluations: the mismatches that
were met, and how many evaluations were made. -/
structure Correspondence where
  offsets : Nat → Nat → Prop
  trails : List Mismatch → Nat → List Mismatch → Nat → Prop
  nothing : trails [] 0 [] 0
  visit : ∀ {log visits log' visits'}, trails log visits log' visits' →
    trails log (visits + 1) log' (visits' + 1)
  append : ∀ {log visits log' visits' more visits₁ more' visits₁'},
    trails log visits log' visits' → trails more visits₁ more' visits₁' →
    trails (log ++ more) (visits + visits₁) (log' ++ more') (visits' + visits₁')

namespace Correspondence

/-- The correspondence the other way round. -/
def flip (c : Correspondence) : Correspondence where
  offsets offset offset' := c.offsets offset' offset
  trails log visits log' visits' := c.trails log' visits' log visits
  nothing := c.nothing
  visit := c.visit
  append := c.append

/-- The same text is read at offsets that belong together. -/
structure Readings (c : Correspondence) (reading reading' : Reading) : Prop where
  offset : c.offsets reading.offset reading'.offset
  text : reading'.text = reading.text

/-- Gists that are alike but for the offsets, which belong together. -/
inductive Gists (c : Correspondence) : Gist → Gist → Prop where
  | success {readings readings' stop stop'} (same : List.Forall₂ c.Readings readings readings')
    (stops : c.offsets stop stop') : Gists c (.success readings stop) (.success readings' stop')
  | failure : Gists c .failure .failure
  | fault {fault} : Gists c (.fault fault) (.fault fault)

section Moves

variable {c : Correspondence} {place : Nat → Nat}

omit [RegexLibrary] in
theorem readings_iff_of_moves
    (h : ∀ {offset offset'}, c.offsets offset offset' ↔ offset' = place offset)
    {readings readings' : List Reading} :
    List.Forall₂ c.Readings readings readings' ↔ readings' = readings.map (Reading.move place) := by
  have hreading : ∀ {reading reading'}, c.Readings reading reading' ↔
      reading' = reading.move place := by
    rintro ⟨offset, text⟩ ⟨offset', text'⟩
    rw [Reading.move, Reading.mk.injEq]
    exact ⟨fun hreading => ⟨h.1 hreading.offset, hreading.text⟩, fun heq => ⟨h.2 heq.1, heq.2⟩⟩
  induction readings generalizing readings' with
  | nil => rw [List.forall₂_nil_left_iff, List.map_nil]
  | cons reading readings ih =>
    cases readings' with
    | nil => simp
    | cons reading' readings' =>
      simp only [List.forall₂_cons, hreading, ih, List.map_cons, List.cons.injEq]

/-- If an offset belongs together with one other only, so does a gist. -/
theorem gists_iff_of_moves
    (h : ∀ {offset offset'}, c.offsets offset offset' ↔ offset' = place offset)
    {gist gist' : Gist} : c.Gists gist gist' ↔ gist' = gist.move place := by
  constructor
  · rintro (⟨same, stops⟩ | _ | _)
    · rw [(readings_iff_of_moves h).1 same, h.1 stops, Gist.move]
    · rfl
    · rfl
  · rintro rfl
    cases gist with
    | success readings stop => exact .success ((readings_iff_of_moves h).2 rfl) (h.2 rfl)
    | failure => exact .failure
    | fault => exact .fault

end Moves

/-- Gists that belong together do so the other way round. -/
theorem gists_flip {c : Correspondence} {gist gist' : Gist} (h : c.Gists gist gist') :
    c.flip.Gists gist' gist := by
  cases h with
  | success same stops =>
    refine .success (same.flip.imp fun reading reading' hreading => ?_) stops
    exact ⟨hreading.offset, hreading.text.symm⟩
  | failure => exact .failure
  | fault => exact .fault

/-- What comes out of the one meaning with no more than the given number of evaluations has a
counterpart that comes out of the other. -/
def Carries (c : Correspondence) (bound : Nat) (m m' : Meaning) : Prop :=
  ∀ ⦃offset offset' gist log visits⦄, c.offsets offset offset' → visits ≤ bound →
    m offset gist log visits →
      ∃ gist' log' visits', m' offset' gist' log' visits' ∧ c.Gists gist gist' ∧
        c.trails log visits log' visits'

section Combinators

variable {c : Correspondence} {bound less : Nat} {m m' k k' : Meaning}

theorem Gists.isSuccess_iff {gist gist' : Gist} (h : c.Gists gist gist') :
    gist.IsSuccess ↔ gist'.IsSuccess := by
  cases h <;> exact Iff.rfl

theorem Gists.failure_iff {gist gist' : Gist} (h : c.Gists gist gist') :
    gist = .failure ↔ gist' = .failure := by
  cases h <;> simp

theorem Gists.after {gist gist' : Gist} {readings readings' : List Reading}
    (h : c.Gists gist gist') (hreadings : List.Forall₂ c.Readings readings readings') :
    c.Gists (gist.after readings) (gist'.after readings') := by
  cases h with
  | success more stop => exact .success (List.rel_append hreadings more) stop
  | failure => exact .failure
  | fault => exact .fault

/-- Fewer evaluations are carried over too. -/
theorem Carries.of_le (h : c.Carries bound m m') (hle : less ≤ bound) : c.Carries less m m' :=
  fun _ _ _ _ _ hoffset hvisits => h hoffset (Nat.le_trans hvisits hle)

theorem Carries.unit (kind : Rule.Kind) :
    c.Carries bound (Meaning.unit kind) (Meaning.unit kind) := by
  intro offset offset' gist log visits hoffset _ h
  cases kind with
  | sequence =>
    cases h
    exact ⟨_, _, _, .done, .success .nil hoffset, c.nothing⟩
  | choice =>
    cases h
    exact ⟨_, _, _, .exhausted, .failure, c.nothing⟩

theorem Carries.andThen (head : c.Carries bound m m') (tail : c.Carries bound k k') :
    c.Carries bound (Meaning.join .sequence m k) (Meaning.join .sequence m' k') := by
  intro offset offset' gist log visits hoffset hvisits h
  cases h with
  | both first next =>
    obtain ⟨_, log₁, visits₁, first', hgist, htrail⟩ := head hoffset (by omega) first
    cases hgist with
    | success readings stop =>
      obtain ⟨gist₂, log₂, visits₂, next', hgist₂, htrail₂⟩ := tail stop (by omega) next
      exact ⟨_, _, _, .both first' next', hgist₂.after readings, c.append htrail htrail₂⟩
  | stops stops first =>
    obtain ⟨gist', log', visits', first', hgist, htrail⟩ := head hoffset hvisits first
    exact ⟨_, _, _, .stops (mt hgist.isSuccess_iff.2 stops) first', hgist, htrail⟩

theorem Carries.orElse (head : c.Carries bound m m') (tail : c.Carries bound k k') :
    c.Carries bound (Meaning.join .choice m k) (Meaning.join .choice m' k') := by
  intro offset offset' gist log visits hoffset hvisits h
  cases h with
  | stands stands first =>
    obtain ⟨gist', log', visits', first', hgist, htrail⟩ := head hoffset hvisits first
    exact ⟨_, _, _, .stands (mt hgist.failure_iff.2 stands) first', hgist, htrail⟩
  | fails first next =>
    obtain ⟨_, log₁, visits₁, first', hgist, htrail⟩ := head hoffset (by omega) first
    cases hgist
    obtain ⟨gist₂, log₂, visits₂, next', hgist₂, htrail₂⟩ := tail hoffset (by omega) next
    exact ⟨_, _, _, .fails first' next', hgist₂, c.append htrail htrail₂⟩

theorem Carries.join (kind : Rule.Kind) (head : c.Carries bound m m')
    (tail : c.Carries bound k k') :
    c.Carries bound (Meaning.join kind m k) (Meaning.join kind m' k') := by
  cases kind with
  | sequence => exact head.andThen tail
  | choice => exact head.orElse tail

theorem Carries.visit_succ (h : c.Carries bound m m') :
    c.Carries (bound + 1) m.visit m'.visit := by
  intro offset offset' gist log visits hoffset hvisits hm
  obtain ⟨hm⟩ := hm
  obtain ⟨gist', log', visits', hm', hgist, htrail⟩ := h hoffset (by omega) hm
  exact ⟨_, _, _, .visited hm', hgist, c.visit htrail⟩

/-- What comes out of either of two meanings, with no more than the given number of evaluations, has a
counterpart that comes out of the other. -/
structure Exchanges (c : Correspondence) (bound : Nat) (m m' : Meaning) : Prop where
  ahead : c.Carries bound m m'
  back : c.flip.Carries bound m' m

namespace Exchanges

theorem of_le (h : c.Exchanges bound m m') (hle : less ≤ bound) : c.Exchanges less m m' where
  ahead := h.ahead.of_le hle
  back := h.back.of_le hle

theorem join (kind : Rule.Kind) (head : c.Exchanges bound m m') (tail : c.Exchanges bound k k') :
    c.Exchanges bound (Meaning.join kind m k) (Meaning.join kind m' k') where
  ahead := head.ahead.join kind tail.ahead
  back := head.back.join kind tail.back

/-- With one evaluation around them meanings are exchanged up to one more. -/
theorem visit_succ (h : c.Exchanges bound m m') : c.Exchanges (bound + 1) m.visit m'.visit where
  ahead := h.ahead.visit_succ
  back := h.back.visit_succ

theorem visit (h : c.Exchanges bound m m') : c.Exchanges bound m.visit m'.visit :=
  h.visit_succ.of_le (Nat.le_succ bound)

/-- Rows are exchanged part by part. -/
theorem row (kind : Rule.Kind) {parts parts' : List Meaning}
    (h : List.Forall₂ (c.Exchanges bound) parts parts') :
    c.Exchanges bound (Meaning.row kind parts) (Meaning.row kind parts') := by
  induction h with
  | nil => exact ⟨.unit kind, .unit kind⟩
  | cons head _ ih => exact head.join kind ih

end Exchanges

end Combinators

/-! ## Rules and names -/

section Maps

variable {c : Correspondence} {rules rules' : RuleMap} {text text' : List Char} {bound : Nat}

/-- What is no rule is refused in both maps. -/
theorem Carries.noRule {item : Item} (hitem : item.rule? = none) :
    c.Carries bound ((Goal.item item).meaning rules text)
      ((Goal.item item).meaning rules' text') := by
  rintro offset offset' gist log visits hoffset - ⟨verdict, h, rfl⟩
  cases h with
  | separator => exact ⟨_, _, _, ⟨_, .separator, rfl⟩, .fault, c.visit c.nothing⟩
  | atom => exact ⟨_, _, _, ⟨_, .atom, rfl⟩, .fault, c.visit c.nothing⟩
  | _ => cases hitem

/-- So is a name that both maps miss. -/
theorem Carries.undefined {name : String} (missing : rules.get? name = none)
    (missing' : rules'.get? name = none) :
    c.Carries bound ((Rule.ref name).meaning rules text)
      ((Rule.ref name).meaning rules' text') := by
  rintro offset offset' gist log visits hoffset - ⟨verdict, h, rfl⟩
  cases h with
  | undefined => exact ⟨_, _, _, ⟨_, .undefined missing', rfl⟩, .fault, c.visit c.nothing⟩
  | reference found => simp [missing] at found

/-- No evaluation at all is not enough for a name. -/
theorem Carries.zero (name : String) (m : Meaning) :
    c.Carries 0 ((Rule.ref name).meaning rules text) m := by
  rintro offset offset' gist log visits - hvisits ⟨verdict, h, -⟩
  exact absurd h.visits_pos (by omega)

/-- A rule with parts is exchanged with one of its kind, part by part. -/
theorem exchanges_parts {rule rule' : Rule} {kind : Rule.Kind} (hkind : rule.kind? = some kind)
    (hkind' : rule'.kind? = some kind)
    (hparts : List.Forall₂ (fun part part' => c.Exchanges bound (part.meaning rules text)
      (part'.meaning rules' text')) rule.parts rule'.parts) :
    c.Exchanges bound (rule.meaning rules text) (rule'.meaning rules' text') := by
  rw [Rule.meaning_of_kind hkind, Rule.meaning_of_kind hkind']
  apply Exchanges.visit
  apply Exchanges.row
  rw [List.forall₂_map_left_iff, List.forall₂_map_right_iff]
  exact hparts

/-- A rule is exchanged with itself if its terminals and the names in it are. -/
theorem exchanges_rule {rule : Rule}
    (hterminals : ∀ matcher ∈ rule.matchers, c.Exchanges bound
      ((Rule.terminal matcher).meaning rules text) ((Rule.terminal matcher).meaning rules' text'))
    (hnames : ∀ name ∈ rule.references, c.Exchanges bound
      ((Rule.ref name).meaning rules text) ((Rule.ref name).meaning rules' text')) :
    c.Exchanges bound (rule.meaning rules text) (rule.meaning rules' text') := by
  induction rule using Rule.induct_of_parts with
  | parts rule ih =>
    cases hkind : rule.kind? with
    | some kind =>
      refine exchanges_parts hkind hkind (List.forall₂_same.2 fun part hpart => ?_)
      exact ih part hpart
        (fun matcher hmatcher => hterminals matcher (Rule.mem_matchers_of_part hpart hmatcher))
        (fun name hname => hnames name (Rule.mem_references_of_part hpart hname))
    | none =>
      cases rule with
      | ref name => exact hnames name List.mem_cons_self
      | terminal matcher => exact hterminals matcher List.mem_cons_self
      | seq => cases hkind
      | choice => cases hkind

/-- If all rules are exchanged with themselves, rows of them are too, ... -/
theorem exchanges_row
    (hall : ∀ rule : Rule, c.Exchanges bound (rule.meaning rules text) (rule.meaning rules' text'))
    (kind : Rule.Kind) (parts : List Rule) :
    c.Exchanges bound (Meaning.row kind (parts.map (Rule.meaning rules text)))
      (Meaning.row kind (parts.map (Rule.meaning rules' text'))) := by
  apply Exchanges.row
  rw [List.forall₂_map_left_iff, List.forall₂_map_right_iff]
  exact List.forall₂_same.2 fun part _ => hall part

/-- ... and a row in which something else stands between rules, if that is exchanged as well. -/
theorem exchanges_row_at
    (hall : ∀ rule : Rule, c.Exchanges bound (rule.meaning rules text) (rule.meaning rules' text'))
    (kind : Rule.Kind) (before after : List Rule) {m m' : Meaning} (h : c.Exchanges bound m m') :
    c.Exchanges bound
      (Meaning.row kind (before.map (Rule.meaning rules text) ++
        m :: after.map (Rule.meaning rules text)))
      (Meaning.row kind (before.map (Rule.meaning rules' text') ++
        m' :: after.map (Rule.meaning rules' text'))) := by
  simp only [Meaning.row_append, Meaning.row_cons]
  exact (exchanges_row hall kind before).join kind (h.join kind (exchanges_row hall kind after))

/-- What is found under a name of both maps is exchanged with itself if it is a rule that is. -/
theorem rel_of_rules {found : Option Item}
    (h : ∀ rule, found = some (.rule rule) →
      c.Exchanges bound (rule.meaning rules text) (rule.meaning rules' text')) :
    Option.Rel (fun item item' => c.Exchanges bound ((Goal.item item).meaning rules text)
      ((Goal.item item').meaning rules' text')) found found := by
  cases found with
  | none => exact .none
  | some item =>
    cases item with
    | rule rule => exact .some (h rule rfl)
    | separator => exact .some ⟨.noRule rfl, .noRule rfl⟩
    | atom value => exact .some ⟨.noRule rfl, .noRule rfl⟩

/-- Names are exchanged with themselves if, as long as they are up to a bound, what stands under them
is too. An undefined name is to be undefined in both maps. -/
theorem exchanges_names (names : String → Prop)
    (h : ∀ bound,
      (∀ name, names name → c.Exchanges bound
        ((Rule.ref name).meaning rules text) ((Rule.ref name).meaning rules' text')) →
      ∀ name, names name → Option.Rel (fun item item' => c.Exchanges bound
        ((Goal.item item).meaning rules text) ((Goal.item item').meaning rules' text'))
        (rules.get? name) (rules'.get? name))
    (bound : Nat) (name : String) (hname : names name) :
    c.Exchanges bound ((Rule.ref name).meaning rules text)
      ((Rule.ref name).meaning rules' text') := by
  induction bound generalizing name with
  | zero => exact ⟨.zero name _, .zero name _⟩
  | succ bound ih =>
    have hitems := h bound ih name hname
    generalize hfound : rules.get? name = found at hitems
    generalize hfound' : rules'.get? name = found' at hitems
    cases hitems with
    | some hitem =>
      rw [Rule.meaning_of_found hfound, Rule.meaning_of_found hfound']
      exact hitem.visit_succ
    | none => exact ⟨.undefined hfound hfound', .undefined hfound' hfound⟩

end Maps

end Correspondence

end PegMachine
