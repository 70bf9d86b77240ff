import RaisingEffects.Effect.Aggregate
import RaisingEffects.Report.Payload
import RaisingEffects.Text.Place

/-!
# Violations

A violation of the effect rules is a cause and, if it is known, a position. The analysis goes on
after it as if anything were raised.

* `Cause.kind`, `Cause.message` and `Cause.detail` are what reports say about a cause.
* `Diagnostic` is a violation together with the function it was found in.
-/

namespace RaisingEffects

inductive ForwardMode where
  | join
  | conversion
  | passthrough
deriving DecidableEq, Repr

def ForwardMode.name : ForwardMode → String
  | join => "join"
  | conversion => "conversion"
  | passthrough => "passthrough"

inductive Cause where
  /-- A word stands after a bare `raises` where only a type could. -/
  | ambiguous (word : String)
  /-- A value does not fit the collection it is put into. -/
  | misfit (m : Misfit)
  /-- A value does not fit the declared effect of the name it is bound to. -/
  | letMismatch (name : String) (declared actual : Effect)
  /-- A value does not fit the effect of the name it is assigned to. -/
  | assignMismatch (target : String) (declared actual : Effect)
  /-- An argument does not fit the effect of the parameter. -/
  | argumentMismatch (callee : String) (position : Nat) (expected actual : Effect)
  /-- A clause names a type that is no error. -/
  | clauseNotError (type : String)
  /-- A value of a type that is no error is raised. -/
  | raisedNotError (type : String)
  /-- A closure raises more than its clause permits. -/
  | closureRaises (declared body : Effect)
  /-- A function raises more than its signature permits. -/
  | functionRaises (name : String) (declared body : Effect)
  /-- A function forwards no parameter that raises. -/
  | forwardsNothing (function : String)
  /-- A forwarded parameter does not fit the target that it is passed through as. -/
  | passMismatch (function parameter target : String) (effect : Effect)
  /-- What a forwarded parameter raises escapes without conversion to the target. -/
  | unhandledPath (function parameter target : String) (effect : Effect)
deriving DecidableEq, Repr

namespace Cause

def kind : Cause → String
  | ambiguous _ => "AmbiguousModifier"
  | misfit _ | letMismatch .. | assignMismatch .. | argumentMismatch .. => "EffectMismatch"
  | clauseNotError _ | raisedNotError _ => "NotAnError"
  | closureRaises .. | functionRaises .. => "UndeclaredRaise"
  | forwardsNothing _ => "InvalidDelegation"
  | passMismatch .. => "DelegationTypeMismatch"
  | unhandledPath .. => "UnhandledRaisePath"

def misfitSubject : Option Nat → String
  | some index => s!"element {index}"
  | none => "inserted value"

def message : Cause → String
  | ambiguous word => s!"'{word}' after bare 'raises' is not a type; write 'raises({word})'"
  | misfit m =>
    s!"{misfitSubject m.index} has effect {m.element.text} but the {m.kind} is bound to " ++
      m.bound.text
  | letMismatch name declared actual =>
    s!"'{name}' is declared {declared.text} but bound to a value of effect {actual.text}"
  | assignMismatch target declared actual =>
    s!"cannot assign a value of effect {actual.text} to '{target}' ({declared.text})"
  | argumentMismatch callee position expected actual =>
    s!"argument {position} of '{callee}' has effect {actual.text} but the parameter expects " ++
      expected.text
  | clauseNotError type => s!"'{type}' does not satisfy the error capability"
  | raisedNotError type => s!"'{type}' is raised but is not an error type"
  | closureRaises declared body =>
    s!"closure body raises {body.text} but is annotated {declared.text}"
  | functionRaises name declared body =>
    s!"'{name}' is declared {declared.text} but its body raises {body.text}"
  | forwardsNothing function =>
    s!"'{function}' forwards no parameter with a raising function type"
  | passMismatch function parameter target effect =>
    s!"'{function}' passes '{parameter}' through as raises({target}) but it is {effect.text}"
  | unhandledPath function parameter target effect =>
    s!"'{function}' lets {effect.text} from '{parameter}' escape unconverted past raises({target})"

def detail : Cause → List (String × Payload)
  | ambiguous word => [("identifier", .text word)]
  | misfit m =>
    [("index", m.index.elim .null .number), ("element", .text m.element.text),
      ("binding", .text m.bound.text)]
  | letMismatch _ declared actual | assignMismatch _ declared actual =>
    [("declared", .text declared.text), ("actual", .text actual.text)]
  | argumentMismatch _ position expected actual =>
    [("argument", .number position), ("expected", .text expected.text),
      ("actual", .text actual.text)]
  | clauseNotError type | raisedNotError type => [("type", .text type)]
  | closureRaises declared body | functionRaises _ declared body =>
    [("declared", .text declared.text), ("body", .text body.text)]
  | forwardsNothing _ => []
  | passMismatch _ parameter _ effect =>
    [("mode", .text ForwardMode.passthrough.name), ("parameter", .text parameter),
      ("effect", .text effect.text)]
  | unhandledPath _ parameter _ effect =>
    [("mode", .text ForwardMode.conversion.name), ("parameter", .text parameter),
      ("effect", .text effect.text)]

end Cause

/-- A violation. Its text opens with its position if `leads` is set. -/
structure Violation where
  cause : Cause
  pos : Option Pos := none
  leads : Bool := true
deriving DecidableEq, Repr

namespace Violation

def at_ (cause : Cause) (pos : Pos) : Violation := { cause, pos := some pos }

/-- A violation without a position gets one; its text stays. -/
def locate (v : Violation) (pos : Pos) : Violation :=
  match v.pos with
  | some _ => v
  | none => { v with pos := some pos, leads := false }

def text (v : Violation) : String :=
  match v.pos, v.leads with
  | some p, true => s!"{p.text}: {v.cause.message}"
  | _, _ => v.cause.message

end Violation

/-- A violation that was found in a function, or outside all of them. -/
structure Diagnostic where
  cause : Cause
  function : Option String
  pos : Option Pos
deriving DecidableEq, Repr

namespace Diagnostic

def ofViolation (function : Option String) (v : Violation) : Diagnostic :=
  ⟨v.cause, function, v.pos⟩

/-- The fields of a diagnostic in a report: only what is known. -/
def fields (d : Diagnostic) : List (String × Payload) :=
  [("kind", .text d.cause.kind), ("message", .text d.cause.message)] ++
    (d.function.map fun f => ("function", Payload.text f)).toList ++
    (d.pos.elim [] fun p => [("line", .number p.line), ("column", .number p.column)]) ++
    match d.cause.detail with
    | [] => []
    | detail => [("detail", .record detail)]

end Diagnostic

end RaisingEffects
