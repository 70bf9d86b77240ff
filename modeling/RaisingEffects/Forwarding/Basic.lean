import RaisingEffects.Forwarding.Paths
import RaisingEffects.Table
import RaisingEffects.Violation

/-!
# Forwarding functions

A function may forward what its parameters raise. Its effect then depends on theirs, in one of
three ways: without a target it is their join; with a target `T` and a handler that converts, it
is `raises(T)` if what is not converted fits `T`; with a target and no conversion it is
`raises(T)` if all parameters fit `T`.

* `Forwarding.resolve` is the effect for given effects of the parameters.
* `Forwarding.callSite` is the effect of one call: nothing is raised if no argument raises.
* `Forwarding.ofFunction` reads the rule off a declaration.
-/

namespace RaisingEffects

/-- A parameter that is forwarded: its name, its position and its declared effect. -/
structure ForwardedParam where
  name : String
  position : Nat
  effect : Effect
deriving DecidableEq, Repr

/-- How a function forwards what its parameters raise. At least one of them raises. -/
structure Forwarding where
  function : String
  params : List ForwardedParam
  target : Option String := none
  converts : Bool := false
  paths : List RaisePath := []
  span : Option Span := none
  raising : params.any (fun p => p.effect.isRaising) = true
deriving DecidableEq

namespace Forwarding

/-- The rule with the given parts, if one of the parameters raises. -/
def make (function : String) (params : List ForwardedParam) (target : Option String)
    (converts : Bool) (paths : List RaisePath) (span : Option Span) :
    Except Violation Forwarding :=
  if raising : params.any (fun p => p.effect.isRaising) = true then
    .ok { function, params, target, converts, paths, span, raising }
  else .error { cause := .forwardsNothing function, pos := span.map Span.start }

/-- The way in which the function gets its effect. -/
def mode (f : Forwarding) : ForwardMode :=
  match f.target, f.converts with
  | none, _ => .join
  | some _, true => .conversion
  | some _, false => .passthrough

/-- The effect used for a parameter: the given one, or the declared one. -/
def effectOf (effects : Table Effect) (p : ForwardedParam) : Effect :=
  (effects.get? p.name).getD p.effect

/-- The effects used for the parameters that are declared to raise. -/
def raisingEffects (f : Forwarding) (effects : Table Effect) : Table Effect :=
  .ofEntries ((f.params.filter fun p => p.effect.isRaising).map fun p =>
    (p.name, effectOf effects p))

/-- The first path whose call lets more than the target escape. -/
def unhandled? (used : Table Effect) (target : Effect) (paths : List RaisePath) :
    Option (RaisePath × Effect) :=
  paths.findSome? fun p =>
    match used.get? p.parameter with
    | none => none
    | some e => if p.converted || e.fits target then none else some (p, e)

/-- The effect of the function when its parameters have the given effects. -/
def resolve (f : Forwarding) (effects : Table Effect) : Except Violation Effect :=
  let used := f.raisingEffects effects
  match f.target with
  | none => .ok (.joinAll (used.map Prod.snd))
  | some target =>
    if f.converts then
      match unhandled? used (.raises target) f.paths with
      | none => .ok (.raises target)
      | some (p, e) =>
        .error
          { cause := .unhandledPath f.function p.parameter target e
            pos := (p.span <|> f.span).map Span.start }
    else
      match used.find? fun entry => !entry.2.fits (.raises target) with
      | none => .ok (.raises target)
      | some (name, e) =>
        .error
          { cause := .passMismatch f.function name target e
            pos := f.span.map Span.start }

def anyRaises (f : Forwarding) (effects : Table Effect) : Bool :=
  f.params.any fun p => (effectOf effects p).isRaising

/-- The effect of a call whose arguments have the given effects. -/
def callSite (f : Forwarding) (effects : Table Effect) : Except Violation Effect :=
  if f.anyRaises effects then f.resolve effects else .ok .nothrow

/-- The rule of a declaration whose parameters have the given effects. -/
def ofFunction (g : FunDecl Span) (effects : Table Effect) : Except Violation Forwarding :=
  let paths := g.body.raisePaths g.forwards
  make g.name
    (g.forwards.map fun name =>
      ⟨name, g.params.findIdx (fun p => p.name = name), (effects.get? name).getD .nothrow⟩)
    (g.clause.bind fun c => c.types.head?)
    (paths.any RaisePath.converted) paths (some g.loc)

end Forwarding

end RaisingEffects
