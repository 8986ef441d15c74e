import PegMachine.Diagnosis
import PegMachine.Machine.Run

/-!
# Programs

A program is a rule map with a start name that passed its check when the program was made. It either
took its own copy of the rules then or reads the caller's, who may go on defining and removing
names; a `Session` is a program together with the caller's rules as they stand.

A run may start from another name, which has to be defined, and may be traced; a parse is not.
Running to the end needs fuel, since a left-recursive program does not end.
-/

namespace PegMachine

variable [RegexLibrary]

/-- What a finished run gives. Frames stand from bottom to top. -/
structure Report where
  accepted : Bool
  text : List Char
  failures : FurthestFailures
  frames : List Frame
  steps : Nat
  deriving DecidableEq

/-- The report in words: a diagnosis, unless the text was accepted. -/
def Report.describe (report : Report) : String :=
  if report.accepted then "ok"
  else diagnose report.text report.failures.offset report.failures.messages.toList

/-- How a run ends: with a report, by a fault, or without fuel. -/
inductive RunResult where
  | report (report : Report)
  | fault (fault : Fault)
  | outOfFuel
  deriving DecidableEq

/-- How a parse ends: as a run does, but a text that is not accepted is an error. -/
inductive ParseResult where
  | report (report : Report)
  | error (error : ParseError)
  | fault (fault : Fault)
  | outOfFuel
  deriving DecidableEq

/-- The report on a machine that has finished a text. -/
def Machine.report (machine : Machine) (text : List Char) : Report where
  accepted := machine.status = .accepted
  text
  failures := machine.failures
  frames := machine.frames
  steps := machine.steps

namespace Grammar

/-- The name that a run starts from, given the one that was asked for. -/
def startName (grammar : Grammar) (override : Option String) : Except UndefinedRule String :=
  match override with
  | none => .ok grammar.start
  | some name => (grammar.rules.require name).map fun _ => name

/-- Runs a grammar on a text, and gives what is printed on the way. -/
def run (grammar : Grammar) (fuel : Nat) (text : List Char) (override : Option String)
    (traced : Bool := false) : RunResult × List String :=
  match grammar.startName override with
  | .error error => (.fault (.undefined error), [])
  | .ok name =>
    let outcome := (Machine.start name traced).run grammar.rules text fuel
    match outcome.fault?, outcome.machine.status with
    | some fault, _ => (.fault fault, outcome.printed)
    | none, .running => (.outOfFuel, outcome.printed)
    | none, _ => (.report (outcome.machine.report text), outcome.printed)

/-- Runs a grammar on a text that it has to accept. -/
def parse (grammar : Grammar) (fuel : Nat) (text : List Char) (override : Option String) :
    ParseResult :=
  match (grammar.run fuel text override).1 with
  | .fault fault => .fault fault
  | .outOfFuel => .outOfFuel
  | .report report =>
    if report.accepted then .report report
    else .error (.of report.describe report.failures.offset report.failures.messages.toList)

end Grammar

/-- Whose rules a program runs: its own copy, or the caller's. -/
inductive Ownership where
  | copied
  | shared
  deriving DecidableEq, Repr

/-- A program and the caller's rules as they stand. -/
structure Session where
  callerRules : RuleMap
  ownRules? : Option RuleMap
  start : String

namespace Session

/-- The grammar that the program runs at this moment. -/
def grammar (session : Session) : Grammar where
  rules := session.ownRules?.getD session.callerRules
  start := session.start

/-- Makes a program of the caller's rules, if they pass the check. -/
def make (rules : RuleMap) (start : String) (ownership : Ownership) :
    Except UndefinedRule Session :=
  let ownRules? := match ownership with
    | .copied => some rules
    | .shared => none
  match Grammar.check { rules, start } with
  | .ok () => .ok { callerRules := rules, ownRules?, start }
  | .error error => .error error

/-- What a caller may ask for. -/
inductive Request where
  | run (text : List Char) (override : Option String) (traced : Bool)
  | parse (text : List Char) (override : Option String)
  | check
  | define (name : String) (item : Item)
  | remove (name : String)

/-- What a caller gets. -/
inductive Answer where
  | ran (result : RunResult) (printed : List String)
  | parsed (result : ParseResult)
  | checked (result : Except UndefinedRule Unit)
  | done

/-- Answers one request. Defining and removing change the caller's rules only. -/
def answer (session : Session) (fuel : Nat) : Request → Session × Answer
  | .run text override traced =>
    let (result, printed) := session.grammar.run fuel text override traced
    (session, .ran result printed)
  | .parse text override => (session, .parsed (session.grammar.parse fuel text override))
  | .check => (session, .checked session.grammar.check)
  | .define name item =>
    ({ session with callerRules := session.callerRules.define name item }, .done)
  | .remove name => ({ session with callerRules := session.callerRules.remove name }, .done)

end Session

end PegMachine
