import PegMachine.Semantics.Evaluation

/-!
# Meanings

What the surroundings of a rule get from its evaluation is not the derivations but the gist of them:
where the rule ends, and the text that its terminals have read. A `Meaning` says which gists come out
at an offset, with which mismatches and how many evaluations.

A sequence is its elements one after the other and a choice its branches in order, so the meaning of
either is put together from those of its parts by `join`: `andThen` for a sequence, `orElse` for a
choice. Both are associative (`join_assoc`) with a unit on either side, so the parts of a row may be
put together in any grouping (`row_append`, `row_splice`).
-/

namespace PegMachine

variable [RegexLibrary]

/-! ## Gists -/

/-- Text that a terminal has read, and the offset where it begins. -/
structure Reading where
  offset : Nat
  text : List Char
  deriving DecidableEq

/-- The same text, read elsewhere. -/
def Reading.move (place : Nat → Nat) (reading : Reading) : Reading :=
  { reading with offset := place reading.offset }

/-- What the frame has read, if it has a value. -/
def Frame.reading? (frame : Frame) : Option Reading :=
  frame.value.map fun value => { offset := frame.offset, text := value }

/-- A verdict without its derivations: of a success what was read is left, and where it ends. -/
inductive Gist where
  | success (readings : List Reading) (stop : Nat)
  | failure
  | fault (fault : Fault)
  deriving DecidableEq

/-- What is left of a verdict when its derivations are forgotten. -/
def Verdict.gist : Verdict → Gist
  | .success trees stop => .success ((Derivation.listingAll trees).filterMap Frame.reading?) stop
  | .failure => .failure
  | .fault f => .fault f

namespace Gist

/-- The gist of a goal that begins with the given readings. -/
def after (readings : List Reading) : Gist → Gist
  | .success more stop => .success (readings ++ more) stop
  | .failure => .failure
  | .fault f => .fault f

/-- The same gist elsewhere. -/
def move (place : Nat → Nat) : Gist → Gist
  | .success readings stop => .success (readings.map (Reading.move place)) (place stop)
  | .failure => .failure
  | .fault f => .fault f

/-- Is the gist a success? -/
def IsSuccess : Gist → Prop
  | .success .. => True
  | _ => False

@[simp] theorem move_id (gist : Gist) : gist.move id = gist := by
  cases gist with
  | success readings stop =>
    have hid : Reading.move id = id := rfl
    rw [move, hid, List.map_id, id]
  | failure => rfl
  | fault f => rfl

@[simp] theorem after_nil (gist : Gist) : gist.after [] = gist := by
  cases gist <;> rfl

theorem after_append (gist : Gist) (readings more : List Reading) :
    gist.after (readings ++ more) = (gist.after more).after readings := by
  cases gist with
  | success last stop => simp [after]
  | failure => rfl
  | fault f => rfl

theorem isSuccess_after {gist : Gist} {readings : List Reading} :
    (gist.after readings).IsSuccess ↔ gist.IsSuccess := by
  cases gist <;> exact Iff.rfl

end Gist

/-! ## Kinds of rules with parts -/

namespace Rule

/-- The two kinds of rules with parts. -/
inductive Kind where
  | sequence
  | choice
  deriving DecidableEq

/-- The kind of a rule with parts. -/
def kind? : Rule → Option Kind
  | .ref _ | .terminal _ => none
  | .seq _ _ => some .sequence
  | .choice _ _ _ => some .choice

end Rule

/-! ## Meanings and how they are joined -/

/-- Which gists come out at an offset, with which mismatches and how many evaluations. -/
def Meaning := Nat → Gist → List Mismatch → Nat → Prop

namespace Meaning

/-- Meanings are the same if the same comes out of them. -/
@[ext]
theorem ext {m m' : Meaning}
    (h : ∀ offset gist log visits, m offset gist log visits ↔ m' offset gist log visits) :
    m = m' := by
  funext offset gist log visits
  exact propext (h offset gist log visits)

/-- What comes out of two meanings, the second where the first has ended. A first one that does not
succeed stops both. -/
inductive AndThen (first next : Meaning) : Nat → Gist → List Mismatch → Nat → Prop where
  | both {offset readings middle gist log log' visits visits'}
    (head : first offset (.success readings middle) log visits)
    (tail : next middle gist log' visits') :
    AndThen first next offset (gist.after readings) (log ++ log') (visits + visits')
  | stops {offset gist log visits} (stops : ¬ gist.IsSuccess) (head : first offset gist log visits) :
    AndThen first next offset gist log visits

/-- What comes out of two meanings, the second at the same offset if the first fails. A first one that
does not fail stands. -/
inductive OrElse (first next : Meaning) : Nat → Gist → List Mismatch → Nat → Prop where
  | stands {offset gist log visits} (stands : gist ≠ .failure) (head : first offset gist log visits) :
    OrElse first next offset gist log visits
  | fails {offset gist log log' visits visits'} (head : first offset .failure log visits)
    (tail : next offset gist log' visits') :
    OrElse first next offset gist (log ++ log') (visits + visits')

/-- Success where nothing is left to be done. -/
inductive Done : Nat → Gist → List Mismatch → Nat → Prop where
  | done {offset} : Done offset (.success [] offset) [] 0

/-- Failure where nothing is left to be tried. -/
inductive Exhausted : Nat → Gist → List Mismatch → Nat → Prop where
  | exhausted {offset} : Exhausted offset .failure [] 0

/-- What comes out of a meaning with one evaluation around it. -/
inductive Visited (m : Meaning) : Nat → Gist → List Mismatch → Nat → Prop where
  | visited {offset gist log visits} (h : m offset gist log visits) :
    Visited m offset gist log (visits + 1)

/-- A meaning with one evaluation around it. -/
def visit (m : Meaning) : Meaning := Visited m

/-- Two parts of a rule, one after the other. -/
def join : Rule.Kind → Meaning → Meaning → Meaning
  | .sequence, first, next => AndThen first next
  | .choice, first, next => OrElse first next

/-- A rule that has no parts left. -/
def unit : Rule.Kind → Meaning
  | .sequence => Done
  | .choice => Exhausted

/-- The parts of a rule in a row. -/
def row (kind : Rule.Kind) (parts : List Meaning) : Meaning := parts.foldr (join kind) (unit kind)

section Laws

variable {kind : Rule.Kind} {m m' m'' : Meaning} {offset middle : Nat} {gist : Gist}
  {readings : List Reading} {log log' : List Mismatch} {visits visits' : Nat}

/-- Two parts that succeed one after the other both succeed. -/
theorem AndThen.of_success {stop : Nat}
    (h : AndThen m m' offset (.success readings stop) log visits) :
    ∃ before more middle log₁ log₂ visits₁ visits₂,
      m offset (.success before middle) log₁ visits₁ ∧
        m' middle (.success more stop) log₂ visits₂ ∧
        readings = before ++ more ∧ log = log₁ ++ log₂ ∧ visits = visits₁ + visits₂ := by
  generalize hgist : Gist.success readings stop = gist at h
  cases h with
  | @both before middle more log₁ log₂ visits₁ visits₂ head tail =>
    cases more with
    | success more stop' =>
      cases hgist
      exact ⟨before, more, middle, log₁, log₂, visits₁, visits₂, head, tail, rfl, rfl, rfl⟩
    | failure => cases hgist
    | fault => cases hgist
  | stops stops =>
    subst hgist
    exact absurd trivial stops

theorem done_andThen : AndThen Done m offset gist log visits ↔ m offset gist log visits := by
  constructor
  · rintro (⟨⟨⟩, tail⟩ | ⟨stops, ⟨⟩⟩)
    · simpa using tail
    · exact absurd trivial stops
  · intro h
    have hboth : AndThen Done m offset (gist.after []) ([] ++ log) (0 + visits) := .both .done h
    simpa using hboth

theorem andThen_done : AndThen m Done offset gist log visits ↔ m offset gist log visits := by
  constructor
  · rintro (⟨head, ⟨⟩⟩ | ⟨-, head⟩)
    · simpa [Gist.after] using head
    · exact head
  · intro h
    cases gist with
    | success readings stop =>
      have hboth : AndThen m Done offset _ (log ++ []) (visits + 0) := .both h .done
      simpa [Gist.after] using hboth
    | failure => exact .stops id h
    | fault f => exact .stops id h

theorem andThen_assoc :
    AndThen (join .sequence m m') m'' offset gist log visits ↔
      AndThen m (join .sequence m' m'') offset gist log visits := by
  constructor
  · intro h
    cases h with
    | both head tail =>
      obtain ⟨_, _, _, _, _, _, _, first, second, rfl, rfl, rfl⟩ := head.of_success
      rw [Gist.after_append, List.append_assoc, Nat.add_assoc]
      exact .both first (.both second tail)
    | stops stops head =>
      cases head with
      | both first second =>
        rw [Gist.isSuccess_after] at stops
        exact .both first (.stops stops second)
      | stops _ first => exact .stops stops first
  · intro h
    cases h with
    | both first rest =>
      cases rest with
      | both second tail =>
        rw [← Gist.after_append, ← List.append_assoc, ← Nat.add_assoc]
        have hfront : join .sequence m m' _ _ _ _ := AndThen.both first second
        exact .both hfront tail
      | stops stops second =>
        have hfront : join .sequence m m' _ _ _ _ := AndThen.both first second
        exact .stops (mt Gist.isSuccess_after.1 stops) hfront
    | stops stops first =>
      have hfront : join .sequence m m' _ _ _ _ := AndThen.stops stops first
      exact .stops stops hfront

theorem exhausted_orElse : OrElse Exhausted m offset gist log visits ↔ m offset gist log visits := by
  constructor
  · rintro (⟨stands, ⟨⟩⟩ | ⟨⟨⟩, tail⟩)
    · exact absurd rfl stands
    · simpa using tail
  · intro h
    have hfails : OrElse Exhausted m offset gist ([] ++ log) (0 + visits) := .fails .exhausted h
    simpa using hfails

theorem orElse_exhausted : OrElse m Exhausted offset gist log visits ↔ m offset gist log visits := by
  constructor
  · rintro (⟨-, head⟩ | ⟨head, ⟨⟩⟩)
    · exact head
    · simpa using head
  · intro h
    by_cases hfailure : gist = .failure
    · subst hfailure
      have hfails : OrElse m Exhausted offset _ (log ++ []) (visits + 0) := .fails h .exhausted
      simpa using hfails
    · exact .stands hfailure h

theorem orElse_assoc :
    OrElse (join .choice m m') m'' offset gist log visits ↔
      OrElse m (join .choice m' m'') offset gist log visits := by
  constructor
  · intro h
    cases h with
    | stands stands head =>
      cases head with
      | stands _ first => exact .stands stands first
      | fails first second => exact .fails first (.stands stands second)
    | fails head tail =>
      cases head with
      | stands stands => exact absurd rfl stands
      | fails first second =>
        rw [List.append_assoc, Nat.add_assoc]
        exact .fails first (.fails second tail)
  · intro h
    cases h with
    | stands stands first =>
      have hfront : join .choice m m' _ _ _ _ := OrElse.stands stands first
      exact .stands stands hfront
    | fails first rest =>
      cases rest with
      | stands stands second =>
        have hfront : join .choice m m' _ _ _ _ := OrElse.fails first second
        exact .stands stands hfront
      | fails second tail =>
        rw [← List.append_assoc, ← Nat.add_assoc]
        have hfront : join .choice m m' _ _ _ _ := OrElse.fails first second
        exact .fails hfront tail

theorem unit_join (kind : Rule.Kind) (m : Meaning) : join kind (unit kind) m = m := by
  ext
  cases kind with
  | sequence => exact done_andThen
  | choice => exact exhausted_orElse

theorem join_unit (kind : Rule.Kind) (m : Meaning) : join kind m (unit kind) = m := by
  ext
  cases kind with
  | sequence => exact andThen_done
  | choice => exact orElse_exhausted

theorem join_assoc (kind : Rule.Kind) (m m' m'' : Meaning) :
    join kind (join kind m m') m'' = join kind m (join kind m' m'') := by
  ext
  cases kind with
  | sequence => exact andThen_assoc
  | choice => exact orElse_assoc

@[simp] theorem row_nil (kind : Rule.Kind) : row kind [] = unit kind := rfl

@[simp] theorem row_cons (kind : Rule.Kind) (part : Meaning) (parts : List Meaning) :
    row kind (part :: parts) = join kind part (row kind parts) := rfl

/-- Rows one after the other are one row. -/
theorem row_append (kind : Rule.Kind) (parts others : List Meaning) :
    row kind (parts ++ others) = join kind (row kind parts) (row kind others) := by
  induction parts with
  | nil => rw [List.nil_append, row_nil, unit_join]
  | cons part parts ih => rw [List.cons_append, row_cons, ih, row_cons, join_assoc]

/-- Parts in the middle of a row may be put together first. -/
theorem row_splice (kind : Rule.Kind) (before inner after : List Meaning) :
    row kind (before ++ (inner ++ after)) = row kind (before ++ row kind inner :: after) := by
  rw [row_append, row_append, row_append, row_cons]

end Laws

end Meaning

/-! ## What is evaluated, and its meaning -/

/-- What a terminal comes to, and the mismatch that it tells of. -/
def Matcher.comesTo (matcher : Matcher) (text : List Char) (offset : Nat) :
    Gist × List Mismatch :=
  match matcher.matchEnd? text offset, matcher.failureMessage with
  | some stop, _ => (.success [⟨offset, (text.drop offset).take (stop - offset)⟩] stop, [])
  | none, .ok message => (.failure, [⟨offset, message⟩])
  | none, .error error => (.fault (.indescribable error), [])

/-- The meaning of a goal over a map of rules, in a text. -/
def Goal.meaning (rules : RuleMap) (text : List Char) (goal : Goal) : Meaning :=
  fun offset gist log visits =>
    ∃ verdict, Evaluates rules text goal offset verdict log visits ∧ verdict.gist = gist

/-- The meaning of a rule. -/
def Rule.meaning (rules : RuleMap) (text : List Char) (rule : Rule) : Meaning :=
  (Goal.rule rule).meaning rules text

end PegMachine
