import PegMachine.Program

/-!
# Sessions over time

A caller makes one request after the other of a program, among them such as edit the rules that the
program was made of. `Session.after` is the session after a row of calls, and `Session.edited` what
the calls make of the caller's rules; these are `Vetted` if they have not been edited since they last
passed a check.

The fuel of a call only has a say in whether it is answered for good. `Session.Gives` is how a session
answers with any fuel that is large enough.
-/

namespace PegMachine.Session

variable [RegexLibrary]

/-- A request, with the fuel that a run may use up. -/
structure Call where
  request : Request
  fuel : Nat

/-! ## Requests -/

namespace Request

/-- What a request makes of the caller's rules. -/
def edit (rules : RuleMap) : Request → RuleMap
  | .define name item => rules.define name item
  | .remove name => rules.remove name
  | .run .. | .parse .. | .check => rules

/-- Does the request define or remove a name? -/
def isEdit : Request → Bool
  | .define _ _ | .remove _ => true
  | .run .. | .parse .. | .check => false

/-- The name that the request asks to start from. -/
def override? : Request → Option String
  | .run _ override _ | .parse _ override => override
  | .check | .define _ _ | .remove _ => none

end Request

/-! ## Answers -/

namespace Answer

/-- The fault that the answer reports. -/
def fault? : Answer → Option Fault
  | .ran (.fault fault) _ | .parsed (.fault fault) => some fault
  | .checked (.error error) => some (.undefined error)
  | .ran _ _ | .parsed _ | .checked (.ok ()) | .done => none

/-- The answer is not put off for want of fuel. -/
def IsFinal : Answer → Prop
  | .ran .outOfFuel _ | .parsed .outOfFuel => False
  | .ran _ _ | .parsed _ | .checked _ | .done => True

end Answer

/-- This is how the session answers the request for good. -/
def Gives (session : Session) (request : Request) (answer : Answer) : Prop :=
  answer.IsFinal ∧ ∃ fuel, (session.answer fuel request).2 = answer

/-- The session answers for the grammar. -/
structure AnswersFor (session : Session) (grammar : Grammar) : Prop where
  run : ∀ fuel text override traced, (session.answer fuel (.run text override traced)).2 =
    .ran (grammar.run fuel text override traced).1 (grammar.run fuel text override traced).2
  parse : ∀ fuel text override, (session.answer fuel (.parse text override)).2 =
    .parsed (grammar.parse fuel text override)
  check : ∀ fuel, (session.answer fuel .check).2 = .checked grammar.check

/-- The session misses no name but one that a request asks to start from, if the rules do not define
it. -/
structure MissesNothing (session : Session) (rules : RuleMap) : Prop where
  check : ∀ fuel, (session.answer fuel .check).2 = .checked (.ok ())
  fault : ∀ fuel request fault, (session.answer fuel request).2.fault? = some fault ↔
    ∃ name, request.override? = some name ∧ rules.get? name = none ∧ fault = .undefined ⟨name⟩

/-! ## Histories -/

/-- The session after a row of calls. -/
def after (session : Session) : List Call → Session
  | [] => session
  | call :: calls => (session.answer call.fuel call.request).1.after calls

/-- What a row of calls makes of the caller's rules. -/
def edited (rules : RuleMap) (calls : List Call) : RuleMap :=
  calls.foldl (fun rules call => call.request.edit rules) rules

/-- The caller's rules have not been edited since the program was made or was checked and passed. -/
inductive Vetted (session : Session) : List Call → Prop where
  | made : Vetted session []
  | checked {calls fuel} (passed : ((session.after calls).answer fuel .check).2 = .checked (.ok ())) :
    Vetted session (calls ++ [⟨.check, fuel⟩])
  | kept {calls call} (before : Vetted session calls) (unedited : call.request.isEdit = false) :
    Vetted session (calls ++ [call])

end PegMachine.Session
