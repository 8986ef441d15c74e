import PegMachine.Regex.Matching

/-!
# Where a match can end

Running a node forward never goes back and never leaves the text: whatever the rest of the pattern
accepts was reached by consuming characters in the running direction, so a match that starts inside
a text ends at or after its start and inside the text (`Pattern.matchEnd?_bounds`). Lookaround looks
both ways but does not move the place, and what a search remembers can only make it give up sooner.
Each way of going on has a lemma by which a result comes from a place ahead (`Accepts`); a part of a
pattern all of whose results do is `Sound`.
-/

namespace PegMachine.Regex

namespace Place

/-- The second place does not lie behind the first in the direction, and the way between them is in
the text. -/
def Reaches (text : Array Char) : Direction → Place → Place → Prop
  | .forward, start, stop =>
    start.offset ≤ stop.offset ∧ (stop.offset ≤ start.offset ∨ stop.offset ≤ text.size)
  | .backward, start, stop => stop.offset ≤ start.offset

theorem Reaches.refl (text : Array Char) (direction : Direction) (place : Place) :
    Reaches text direction place place := by
  cases direction <;> simp [Reaches]

theorem Reaches.trans {text : Array Char} {direction : Direction} {a b c : Place}
    (h : Reaches text direction a b) (h' : Reaches text direction b c) :
    Reaches text direction a c := by
  cases direction <;> simp only [Reaches] at * <;> omega

/-- Captures do not matter to where a place is. -/
theorem Reaches.of_offset_eq {text : Array Char} {direction : Direction} {start stop stop' : Place}
    (h : Reaches text direction start stop) (hoffset : stop'.offset = stop.offset) :
    Reaches text direction start stop' := by
  cases direction <;> simp only [Reaches, hoffset] at * <;> exact h

theorem reaches_of_next? {text : Array Char} {direction : Direction} {place reached : Place}
    {c : Char} (h : place.next? text direction = some (c, reached)) :
    Reaches text direction place reached := by
  cases direction with
  | forward =>
    simp only [next?, Option.map_eq_some_iff, Prod.mk.injEq] at h
    obtain ⟨d, hd, _, rfl⟩ := h
    obtain ⟨hlt, _⟩ := Array.getElem?_eq_some_iff.1 hd
    simp only [Reaches]
    omega
  | backward =>
    simp only [next?, Option.map_eq_some_iff, Prod.mk.injEq] at h
    obtain ⟨d, _, _, rfl⟩ := h
    simp only [Reaches]
    omega

theorem reaches_of_pass? {text : Array Char} {test : Char → Bool} {direction : Direction}
    {place reached : Place} (h : place.pass? text test direction = some reached) :
    Reaches text direction place reached := by
  simp only [pass?] at h
  split at h
  · next hnext =>
    split at h
    · exact Option.some.inj h ▸ reaches_of_next? hnext
    · cases h
  · cases h

theorem reaches_of_passAll? {text : Array Char} {test : Char → Bool} {direction : Direction}
    {count : Nat} {place reached : Place}
    (h : place.passAll? text test direction count = some reached) :
    Reaches text direction place reached := by
  induction count generalizing place with
  | zero =>
    simp only [passAll?, Option.some.injEq] at h
    exact h ▸ Reaches.refl _ _ _
  | succ count ih =>
    simp only [passAll?] at h
    split at h
    · next hpass => exact (reaches_of_pass? hpass).trans (ih h)
    · cases h

/-- Places that are passed lie ahead, if those that were passed before do. -/
theorem reaches_of_mem_passed {text : Array Char} {test : Char → Bool} {direction : Direction}
    {start : Place} {most : Nat} {place : Place} {nearer : List Place}
    (hplace : Reaches text direction start place)
    (hnearer : ∀ reached ∈ nearer, Reaches text direction start reached) :
    ∀ reached ∈ place.passed text test direction most nearer,
      Reaches text direction start reached := by
  have hcons : ∀ reached ∈ place :: nearer, Reaches text direction start reached := by
    intro reached hmem
    rcases List.mem_cons.1 hmem with rfl | hmem
    · exact hplace
    · exact hnearer reached hmem
  induction most generalizing place nearer with
  | zero => exact hcons
  | succ most ih =>
    simp only [passed]
    split
    · next reached hpass =>
      have hreached := hplace.trans (reaches_of_pass? hpass)
      exact ih hreached hcons fun other hmem => by
        rcases List.mem_cons.1 hmem with rfl | hmem
        · exact hreached
        · exact hcons other hmem
    · exact hcons

theorem reaches_of_passed (text : Array Char) (test : Char → Bool) (direction : Direction)
    (place : Place) (most : Nat) :
    ∀ reached ∈ place.passed text test direction most [], Reaches text direction place reached :=
  reaches_of_mem_passed (.refl _ _ _) fun _ hmem => absurd hmem List.not_mem_nil

theorem reaches_of_skip? {text : Array Char} {same : Char → Char → Bool} {direction : Direction}
    {chars : List Char} {place reached : Place}
    (h : place.skip? text same direction chars = some reached) :
    Reaches text direction place reached := by
  induction chars generalizing place with
  | nil =>
    simp only [skip?, Option.some.injEq] at h
    exact h ▸ Reaches.refl _ _ _
  | cons c rest ih =>
    simp only [skip?] at h
    split at h
    · next hpass => exact (reaches_of_pass? hpass).trans (ih h)
    · cases h

end Place

/-! ## Runners -/

/-- The rest accepts a result from a place that lies ahead. -/
def Accepts (text : Array Char) (direction : Direction) (place : Place) (rest : Rest)
    (result : Place) : Prop :=
  ∃ reached memory, Place.Reaches text direction place reached ∧
    (rest reached memory).1 = some result

/-- Whatever the rest accepts was reached in the running direction. -/
def Sound (text : Array Char) (direction : Direction) (runner : Runner) : Prop :=
  ∀ place rest memory result, (runner place rest memory).1 = some result →
    Accepts text direction place rest result

section Runners

variable {text : Array Char} {direction : Direction} {place : Place} {rest : Rest}
  {result : Place}

theorem Accepts.here {memory : Memory} (h : (rest place memory).1 = some result) :
    Accepts text direction place rest result :=
  ⟨place, memory, .refl _ _ _, h⟩

theorem Accepts.ahead {reached : Place} (hreached : Place.Reaches text direction place reached)
    (h : Accepts text direction reached rest result) : Accepts text direction place rest result := by
  obtain ⟨final, memory, hfinal, h⟩ := h
  exact ⟨final, memory, hreached.trans hfinal, h⟩

theorem Sound.first? {runner : Runner} (hrunner : Sound text direction runner)
    (h : runner.first? place = some result) : Place.Reaches text direction place result := by
  obtain ⟨reached, _, hreached, heq⟩ := hrunner _ _ _ _ h
  cases heq
  exact hreached

theorem Sound.atomic {runner : Runner} (hrunner : Sound text direction runner) :
    Sound text direction runner.atomic := by
  intro place rest memory result h
  simp only [Runner.atomic] at h
  split at h
  · next hfirst => exact ⟨_, _, hrunner.first? hfirst, h⟩
  · cases h

theorem accepts_of_leave {spot? : Option Spot} {memory : Memory}
    (h : (leave spot? rest place memory).1 = some result) :
    Accepts text direction place rest result := by
  simp only [leave] at h
  split at h
  · cases h
  · exact .here h

theorem accepts_of_leaveRow {spot? : Option Spot} {places : List Place} {memory : Memory}
    (hplaces : ∀ reached ∈ places, Place.Reaches text direction place reached)
    (h : (leaveRow spot? rest places memory).1 = some result) :
    Accepts text direction place rest result := by
  induction places generalizing memory with
  | nil => cases h
  | cons furthest nearer ih =>
    have hnearer := fun reached hmem => hplaces reached (List.mem_cons_of_mem _ hmem)
    simp only [leaveRow] at h
    split at h
    · exact ih hnearer h
    · split at h
      · exact ih hnearer h
      · exact ⟨furthest, memory, hplaces furthest List.mem_cons_self, h⟩

theorem accepts_of_extendRow {test : Char → Bool} {most : Nat} {memory : Memory}
    (h : (extendRow (·.pass? text test direction) rest most place memory).1 = some result) :
    Accepts text direction place rest result := by
  induction most generalizing place memory with
  | zero => exact .here h
  | succ most ih =>
    simp only [extendRow] at h
    split at h
    · split at h
      · next hpass => exact (ih h).ahead (Place.reaches_of_pass? hpass)
      · cases h
    · exact .here h

/-! ## Loops -/

namespace Loop

variable {loop : Loop}

theorem accepts_of_leaveIf {mayLeave : Bool} {memory : Memory}
    (h : (loop.leaveIf rest mayLeave place memory).1 = some result) :
    Accepts text direction place rest result := by
  simp only [leaveIf] at h
  split at h
  · exact accepts_of_leave h
  · cases h

theorem accepts_of_arrive {more : Bool → Rest} {rounds : Nat} {start : Place} {memory : Memory}
    (hmore : ∀ mayLeave memory, (more mayLeave place memory).1 = some result →
      Accepts text direction place rest result)
    (h : (loop.arrive rest more rounds start place memory).1 = some result) :
    Accepts text direction place rest result := by
  simp only [arrive] at h
  split at h
  · exact accepts_of_leaveIf h
  · split at h
    · cases h
    · exact hmore _ _ h

theorem accepts_of_repeatGreedy {round : Runner} (hround : Sound text direction round)
    {rounds : Nat} {mayLeave : Bool} {memory : Memory}
    (h : (loop.repeatGreedy round rest rounds mayLeave place memory).1 = some result) :
    Accepts text direction place rest result := by
  induction rounds generalizing place mayLeave memory with
  | zero => exact accepts_of_leaveIf h
  | succ rounds ih =>
    simp only [repeatGreedy] at h
    split at h
    · exact accepts_of_leaveIf h
    · obtain ⟨reached, _, hreached, h⟩ := hround _ _ _ _ h
      exact (accepts_of_arrive (fun _ _ => ih) h).ahead hreached

theorem accepts_of_repeatReluctant {round : Runner} (hround : Sound text direction round)
    {rounds : Nat} {mayLeave : Bool} {memory : Memory}
    (h : (loop.repeatReluctant round rest rounds mayLeave place memory).1 = some result) :
    Accepts text direction place rest result := by
  induction rounds generalizing place mayLeave memory with
  | zero => exact accepts_of_leaveIf h
  | succ rounds ih =>
    simp only [repeatReluctant] at h
    split at h
    · obtain ⟨reached, _, hreached, h⟩ := hround _ _ _ _ h
      exact (accepts_of_arrive (fun _ _ => ih) h).ahead hreached
    · exact accepts_of_leaveIf h

theorem accepts_of_repeatOwed {round : Nat → Runner}
    (hround : ∀ made, Sound text direction (round made)) {owed made : Nat} {memory : Memory}
    (h : (loop.repeatOwed round rest owed made place memory).1 = some result) :
    Accepts text direction place rest result := by
  induction owed generalizing place made memory with
  | zero => exact .here h
  | succ owed ih =>
    simp only [repeatOwed] at h
    split at h
    · cases h
    · obtain ⟨reached, _, hreached, h⟩ := hround made _ _ _ _ h
      exact (ih h).ahead hreached

theorem sound_repeatBegun {greed : Greed} {owed : Nat → Runner} {more : Runner} {rounds : Nat}
    (howed : ∀ made, Sound text direction (owed made)) (hmore : Sound text direction more) :
    Sound text direction (loop.repeatBegun greed owed more rounds) := by
  intro place rest memory result h
  obtain ⟨reached, _, hreached, h⟩ := accepts_of_repeatOwed howed h
  refine Accepts.ahead hreached ?_
  dsimp only at h
  split at h
  · cases h
  · split at h
    · exact accepts_of_repeatReluctant hmore h
    all_goals exact accepts_of_repeatGreedy hmore h

theorem sound_run {greed : Greed} {owed : Nat → Runner} {more : Runner} {rounds : Nat}
    (howed : ∀ made, Sound text direction (owed made)) (hmore : Sound text direction more) :
    Sound text direction (loop.run greed owed more rounds) := by
  intro place rest memory result h
  exact sound_repeatBegun howed hmore _ _ _ _ h

end Loop

end Runners

/-! ## Nodes -/

theorem Node.sound_run (flags : Flags) (text : Array Char) (node : Node) (direction : Direction)
    (setting : Setting) : Sound text direction (node.run flags text direction setting) := by
  induction node generalizing direction setting with
  | empty =>
    intro place rest memory result h
    exact .here h
  | one test =>
    intro place rest memory result h
    simp only [run] at h
    split at h
    · next hpass => exact ⟨_, _, Place.reaches_of_pass? hpass, h⟩
    · cases h
  | seq first second ih₁ ih₂ =>
    intro place rest memory result h
    cases direction with
    | forward =>
      simp only [run] at h
      obtain ⟨middle, _, hmiddle, h⟩ := ih₁ .forward _ _ _ _ _ h
      exact Accepts.ahead hmiddle (ih₂ .forward _ _ _ _ _ h)
    | backward =>
      simp only [run] at h
      obtain ⟨middle, _, hmiddle, h⟩ := ih₂ .backward _ _ _ _ _ h
      exact Accepts.ahead hmiddle (ih₁ .backward _ _ _ _ _ h)
  | alt first second ih₁ ih₂ =>
    intro place rest memory result h
    simp only [run] at h
    split at h
    · exact ih₂ direction _ _ _ _ _ h
    · exact ih₁ direction _ _ _ _ _ h
  | group number body ih =>
    intro place rest memory result h
    simp only [run] at h
    obtain ⟨reached, memory', hreached, h⟩ := ih direction _ _ _ _ _ h
    exact ⟨place.capture reached number, memory', hreached.of_offset_eq rfl, h⟩
  | backref number =>
    intro place rest memory result h
    simp only [run] at h
    split at h
    · cases h
    · split at h
      · next hskip => exact ⟨_, _, Place.reaches_of_skip? hskip, h⟩
      · cases h
  | look _ positive body _ =>
    intro place rest memory result h
    simp only [run] at h
    split at h
    · refine ⟨_, _, ?_, h⟩
      exact (Place.Reaches.refl text direction place).of_offset_eq rfl
    · exact .here h
    · cases h
  | anchor condition =>
    intro place rest memory result h
    simp only [run] at h
    split at h
    · exact .here h
    · cases h
  | row number greed least most test =>
    intro place rest memory result h
    simp only [run] at h
    split at h
    · cases h
    · next nearest hnearest =>
      refine Accepts.ahead (Place.reaches_of_passAll? hnearest) ?_
      have hpassed := Place.reaches_of_passed text (test.accepts flags) direction nearest
      split at h
      · exact accepts_of_leaveRow (hpassed _) h
      · exact accepts_of_extendRow h
      · exact accepts_of_leaveRow (fun reached hmem => hpassed _ reached (List.mem_of_mem_take hmem)) h
  | loop number greed least most body ih =>
    intro place rest memory result h
    simp only [run] at h
    split at h
    · exact (Loop.sound_run (fun _ => ih _ _) (ih _ _)).atomic _ _ _ _ h
    all_goals exact Loop.sound_run (fun _ => ih _ _) (ih _ _) _ _ _ _ h

/-- A match that starts inside the text ends at or after its start and inside the text. -/
theorem Pattern.matchEnd?_bounds {pattern : Pattern} {text : List Char} {offset stop : Nat}
    (hoffset : offset ≤ text.length) (h : pattern.matchEnd? text offset = some stop) :
    offset ≤ stop ∧ stop ≤ text.length := by
  obtain ⟨final, hfirst, rfl⟩ := Option.map_eq_some_iff.1 h
  have hreaches := (Node.sound_run _ _ _ _ _).first? hfirst
  simp only [Place.Reaches, List.size_toArray] at hreaches
  omega

end PegMachine.Regex
