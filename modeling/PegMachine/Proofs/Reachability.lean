import PegMachine.Program
import PegMachine.Proofs.Checked
import PegMachine.Proofs.Moves
import PegMachine.Regex.Backtracking
import PegMachine.Semantics.Reachability

/-!
# What cannot be reached has no say

A machine asks its rules for the name on top of its stack only. Every item on the stack has been pushed
because the start name led to it, so it refers to reachable names only, and so do its parts: this is
what every move keeps (`Machine.Moves.holds`, `Machine.RefersWithin.advance`). Rules that agree from the
start name are therefore asked for names under which they have the same, and the machine cannot tell one
from the other (`Machine.advance_of_agrees`), however often it is called.

So nothing else in a map has a say in a run, nor has the order of its entries
(`Grammar.runs_of_agreesFrom`).
-/

namespace PegMachine

section AnyLibrary

variable [RegexLibrary]

/-! ## Reachable names -/

namespace RuleMap

variable {rules other : RuleMap} {start name : String}

/-- A list of names that holds the start, and with each name all that its item refers to, holds all
reachable names. -/
theorem Reachable.mem_of_closed {names : List String} (hstart : start ∈ names)
    (hclosed : ∀ name ∈ names, ∀ item ∈ rules.get? name, item.references ⊆ names)
    (h : rules.Reachable start name) : name ∈ names := by
  induction h with
  | start => exact hstart
  | refers _ found occurs ih => exact hclosed _ ih _ found occurs

/-- What is reached in one map is reached in a map that agrees with it. -/
theorem AgreesFrom.reachable (h : other.AgreesFrom rules start) (hname : rules.Reachable start name) :
    other.Reachable start name := by
  induction hname with
  | start => exact .start
  | refers reached found occurs ih => exact .refers ih ((h _ reached).trans found) occurs

/-- The names that are reached in a map that agrees are no others. -/
theorem AgreesFrom.reachable_iff (h : other.AgreesFrom rules start) :
    other.Reachable start name ↔ rules.Reachable start name := by
  constructor
  · intro hname
    induction hname with
    | start => exact .start
    | refers _ found occurs ih => exact .refers ih ((h _ ih).symm.trans found) occurs
  · exact h.reachable

/-- Maps with the same entries agree, whatever their order. -/
theorem agreesFrom_of_perm (h : other.entries.Perm rules.entries) (start : String) :
    other.AgreesFrom rules start := by
  intro name _
  refine Option.ext fun item => ?_
  rw [get?_eq_some_iff, get?_eq_some_iff]
  exact h.mem_iff

/-- A property of items goes from a reference to what stands under its name, and from a rule to all
that it lists. -/
structure HandsDown (rules : RuleMap) (motive : Item → Prop) : Prop where
  name : ∀ name item, motive (.rule (.ref name)) → rules.get? name = some item → motive item
  listed : ∀ rule, ∀ item ∈ rule.listing, motive (.rule rule) → motive item

/-- That an item refers to reachable names only goes from a reference to its item and from a rule to
what it lists. -/
theorem handsDown_reachable (rules : RuleMap) (start : String) :
    rules.HandsDown fun item => ∀ name ∈ item.references, rules.Reachable start name where
  name name _ hname found _ occurs :=
    .refers (hname name (List.mem_singleton_self name)) found occurs
  listed _ _ hlisted hrule name occurs := by
    rcases Rule.of_mem_listing hlisted with rfl | ⟨part, hpart, rfl⟩
    · exact absurd occurs List.not_mem_nil
    · exact hrule name (Rule.mem_references_of_part hpart occurs)

end RuleMap

namespace Machine

/-! ## What moves keep of the items on the stack -/

section Moves

variable {rules : RuleMap} {text : List Char} {machine : Machine} {outcome : Outcome}
  {motive : Item → Prop} {frames : List Frame}

/-- What is handed down comes to all that stands in the listing of a frame. -/
theorem holds_of_listed (h : rules.HandsDown motive) {frame : Frame} {place : Nat} {item : Item}
    (hitem : motive frame.item) (hlisted : frame.listed? place = some item) : motive item := by
  unfold Frame.listed? at hlisted
  split at hlisted
  · next r hrule =>
    rw [hrule] at hitem
    exact h.listed r item (List.mem_of_getElem? hlisted) hitem
  · cases hlisted

/-- After a match all frames keep what holds of them, and so does the item to go on with. -/
theorem holds_of_match (h : rules.HandsDown motive) {top : Frame} {below : List Frame}
    {value : List Char} {next? : Option Item} (hstack : ∀ frame ∈ top :: below, motive frame.item)
    (walk : settle ({ top with value := some value } :: below) = (next?, frames)) :
    (∀ frame ∈ frames, motive frame.item) ∧ ∀ next, next? = some next → motive next := by
  have hvalued : ∀ frame ∈ { top with value := some value } :: below, motive frame.item :=
    List.forall_mem_cons.2 (List.forall_mem_cons.1 hstack)
  have hsettled := settle_holds hvalued
  rw [walk] at hsettled
  refine ⟨hsettled, fun next hnext => ?_⟩
  obtain ⟨frame, hframe, hpart⟩ := settle_eq_some ((congrArg Prod.fst walk).trans hnext)
  exact holds_of_listed h (hvalued frame hframe) hpart

/-- A move keeps what holds of all items on the stack, if it is handed down. -/
theorem Moves.holds (h : rules.HandsDown motive) (hmoves : Moves rules text machine outcome)
    (hstack : ∀ frame ∈ machine.stack, motive frame.item) :
    ∀ frame ∈ outcome.machine.stack, motive frame.item := by
  cases hmoves with
  | @refers top _ name item stack named found =>
    have htop : motive top.item := hstack top (by simp [stack])
    rw [named] at htop
    exact List.forall_mem_cons.2 ⟨h.name name item htop found, hstack⟩
  | @takesUp top _ _ item stack _ hand =>
    have htop : motive top.item := hstack top (by simp [stack])
    exact List.forall_mem_cons.2 ⟨holds_of_listed h htop hand, hstack⟩
  | goesOn stack _ _ _ walk =>
    rw [stack] at hstack
    obtain ⟨hframes, hnext⟩ := holds_of_match h hstack walk
    exact List.forall_mem_cons.2 ⟨hnext _ rfl, hframes⟩
  | accepts stack _ _ _ walk =>
    rw [stack] at hstack
    exact (holds_of_match h hstack walk).1
  | leavesOver => exact fun _ hframe => absurd hframe List.not_mem_nil
  | resumes _ _ _ _ walk behind =>
    obtain ⟨above, found, marker, habove, -, -, -, rfl⟩ := retreat_eq_some walk
    rw [habove] at hstack
    obtain ⟨hchoice, hrest⟩ := List.forall_mem_cons.1 (List.forall_mem_append.1 hstack).2
    exact List.forall_mem_cons.2 ⟨holds_of_listed h hchoice behind,
      List.forall_mem_cons.2 ⟨hchoice, hrest⟩⟩
  | givesUp => exact fun _ hframe => absurd hframe List.not_mem_nil

end Moves

/-! ## Machines over maps that agree -/

/-- All names that occur on the stack are reachable. -/
def RefersWithin (rules : RuleMap) (start : String) (machine : Machine) : Prop :=
  ∀ frame ∈ machine.stack, ∀ name ∈ frame.item.references, rules.Reachable start name

section Agreement

variable {rules other : RuleMap} {text : List Char} {machine : Machine} {start : String}

theorem refersWithin_start (rules : RuleMap) (start : String) (traced : Bool) :
    (Machine.start start traced).RefersWithin rules start := by
  intro frame hframe name hname
  cases List.mem_singleton.1 hframe
  cases List.mem_singleton.1 hname
  exact .start

/-- Under the own rules no call leads to a name that is not reachable. -/
theorem RefersWithin.advance (h : machine.RefersWithin rules start) :
    (machine.advance rules text).machine.RefersWithin rules start := by
  by_cases hrunning : machine.status = .running
  · rcases advance_cases rules text hrunning with ⟨fault, hrefused⟩ | hmoves
    · rw [hrefused]
      exact h
    · exact hmoves.holds (rules.handsDown_reachable start) h
  · rw [advance_finished rules text hrunning]
    exact h

/-- A call on a machine that refers to reachable names only is the same under rules that agree. -/
theorem advance_of_agrees (h : other.AgreesFrom rules start)
    (hwithin : machine.RefersWithin rules start) :
    machine.advance other text = machine.advance rules text := by
  by_cases hrunning : machine.status = .running
  · rw [advance_of_running rules text hrunning, advance_of_running other text hrunning]
    refine transition_congr fun top below name hstack hname => h name ?_
    have htop : top ∈ machine.stack := by
      rw [show machine.stack = top :: below from hstack]
      exact List.mem_cons_self
    refine hwithin top htop name ?_
    rw [hname]
    exact List.mem_singleton_self name
  · rw [advance_finished rules text hrunning, advance_finished other text hrunning]

/-- So are rows of calls, and what the machine refers to stays reachable. -/
theorem after_of_agrees (h : other.AgreesFrom rules start) (calls : Nat)
    (hwithin : machine.RefersWithin rules start) :
    machine.after other text calls = machine.after rules text calls ∧
      (machine.after rules text calls).RefersWithin rules start := by
  induction calls generalizing machine with
  | zero => exact ⟨rfl, hwithin⟩
  | succ calls ih =>
    rw [after, after, advance_of_agrees h hwithin]
    exact ih hwithin.advance

/-- So are runs. -/
theorem runFrom_of_agrees (h : other.AgreesFrom rules start) (fuel : Nat) (log : List Event)
    (hwithin : machine.RefersWithin rules start) :
    machine.runFrom other text fuel log = machine.runFrom rules text fuel log := by
  induction fuel generalizing machine log with
  | zero => rfl
  | succ fuel ih =>
    rw [runFrom, runFrom, advance_of_agrees h hwithin]
    simp only [ih _ hwithin.advance]

end Agreement

end Machine

namespace Grammar

section Agreement

variable {rules other : RuleMap} {start : String}

/-- A run from a name that is not defined is refused at once, and prints nothing. -/
theorem run_of_undefined (h : rules.get? start = none) (fuel : Nat) (text : List Char)
    (traced : Bool) :
    run { rules, start } (fuel + 1) text none traced = (.fault (.undefined ⟨start⟩), []) := by
  have hadvance : (Machine.start start traced).advance rules text =
      ({ Machine.start start traced with steps := 1 }).refuse (.undefined ⟨start⟩) := by
    rw [Machine.advance_of_running rules text rfl, Machine.transition_of_undefined rfl rfl h]
    rfl
  simp only [run, startName, Machine.run, Machine.runFrom, hadvance]
  cases traced <;> rfl

/-- A run that was asked to start from a name is the run of the grammar that starts from it. -/
theorem run_override (rules : RuleMap) (base start : String) (fuel : Nat) (text : List Char)
    (traced : Bool) :
    run { rules, start := base } (fuel + 1) text (some start) traced =
      run { rules, start } (fuel + 1) text none traced := by
  cases h : rules.get? start with
  | some item => simp only [run, startName, RuleMap.require, h, Except.map]
  | none =>
    rw [run_of_undefined h]
    simp only [run, startName, RuleMap.require, h, Except.map]

/-- Maps that agree from a start name cannot be told apart by what comes of it, whatever else they hold
and in whatever order: they reach the same names; after any number of calls the machines are the same,
and so is what the next call gives, with all that it prints if the machine is traced and the fault that
it reports; and so are runs and parses, where being asked for the name is as good as starting from
it. -/
theorem runs_of_agreesFrom (h : other.AgreesFrom rules start) (text : List Char) :
    (∀ name, other.Reachable start name ↔ rules.Reachable start name) ∧
      (∀ traced calls,
        (Machine.start start traced).after other text calls =
          (Machine.start start traced).after rules text calls ∧
        ((Machine.start start traced).after other text calls).advance other text =
          ((Machine.start start traced).after rules text calls).advance rules text ∧
        (((Machine.start start traced).after other text calls).advance other text).printed =
          (((Machine.start start traced).after rules text calls).advance rules text).printed) ∧
      (∀ traced fuel, (Machine.start start traced).run other text fuel =
        (Machine.start start traced).run rules text fuel) ∧
      (∀ traced fuel, run { rules := other, start } fuel text none traced =
        run { rules, start } fuel text none traced) ∧
      ∀ traced fuel base,
        run { rules := other, start := base } (fuel + 1) text (some start) traced =
          run { rules, start } (fuel + 1) text none traced ∧
        parse { rules := other, start := base } (fuel + 1) text (some start) =
          parse { rules, start } (fuel + 1) text none := by
  have hwithin := Machine.refersWithin_start rules start
  have hruns : ∀ traced fuel, (Machine.start start traced).run other text fuel =
      (Machine.start start traced).run rules text fuel :=
    fun traced fuel => Machine.runFrom_of_agrees h fuel [] (hwithin traced)
  have hgrammars : ∀ traced fuel, run { rules := other, start } fuel text none traced =
      run { rules, start } fuel text none traced := by
    intro traced fuel
    simp only [run, startName, hruns]
  have hoverrides : ∀ traced fuel base,
      run { rules := other, start := base } (fuel + 1) text (some start) traced =
        run { rules, start } (fuel + 1) text none traced := by
    intro traced fuel base
    exact (run_override other base start fuel text traced).trans (hgrammars traced (fuel + 1))
  refine ⟨fun name => h.reachable_iff, fun traced calls => ?_, hruns, hgrammars,
    fun traced fuel base => ⟨hoverrides traced fuel base, ?_⟩⟩
  · obtain ⟨hsame, hlater⟩ := Machine.after_of_agrees h calls (hwithin traced)
    have hadvance : Machine.advance other text _ = Machine.advance rules text _ :=
      Machine.advance_of_agrees h hlater
    rw [hsame, hadvance]
    exact ⟨rfl, rfl, rfl⟩
  · rw [parse, parse, hoverrides false fuel base]

/-- The rules of the sample in another order, without one that its start does not reach and with one
that is no rule. -/
def reordered : RuleMap :=
  (RuleMap.ofList (("Unused", .atom .null) :: RuleMap.sample.entries.reverse)).remove "Gap"

end Agreement

end Grammar

end AnyLibrary

namespace Grammar

theorem runs_of_agreesFrom_sample :
    reordered.AgreesFrom RuleMap.sample "S" ∧
      (RuleMap.sample.names, reordered.names) = (["S", "Gap"], ["Unused", "S"]) ∧
      (Machine.start "S").after reordered ['a', 'b'] 5 =
        (Machine.start "S").after RuleMap.sample ['a', 'b'] 5 ∧
      run { rules := reordered, start := "Unused" } 9 ['a', 'b'] (some "S") true =
        run { rules := RuleMap.sample, start := "S" } 9 ['a', 'b'] none true :=
  have hreaches : ∀ name, RuleMap.sample.Reachable "S" name → name ∈ ["S"] :=
    fun _ => RuleMap.Reachable.mem_of_closed (by decide) (by decide)
  have hagrees : reordered.AgreesFrom RuleMap.sample "S" := by
    intro name hname
    cases List.mem_singleton.1 (hreaches name hname)
    decide
  have ⟨_, hcalls, _, _, hoverride⟩ := runs_of_agreesFrom hagrees ['a', 'b']
  ⟨hagrees, by decide, (hcalls false 5).1, (hoverride true 8 "Unused").1⟩

end Grammar

end PegMachine
