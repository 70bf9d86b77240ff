import RaisingEffects.Scope

/-!
# The analysis of bodies

`Analysis` threads the scopes, the aggregates, the candidates (the effects of the raises and calls
met so far) and a log. A violation is either noted in the log, and the analysis goes on, or ends
the analysis, as the context says. What was done up to the end stays done.

* `report` reports a violation.
* `within` says which function an analysis is part of.
* `inScope` runs an analysis in a scope of its own.
* `collecting` runs an analysis with candidates of its own and returns them.
-/

namespace RaisingEffects

structure Context where
  policy : Policy
  isError : String → Bool
  failFast : Bool := false
  known : Span → Option Effect := fun _ => none
  function : Option String := none

inductive LogEntry where
  | closure (span : Span) (effect : Effect)
  /-- A forwarding function got the join of its parameters' effects. -/
  | forwards (function : String) (effect : Effect)
  | resolved (function : String) (mode : ForwardMode) (effect : Effect)
  | violation (v : Violation)
deriving DecidableEq

structure AnalysisState where
  env : Env := [[]]
  aggregates : List Aggregate := []
  candidates : List Effect := []
  /-- The log, with the function that each entry belongs to. -/
  log : List (Option String × LogEntry) := []

def Analysis (α : Type) := Context → AnalysisState → Except Violation α × AnalysisState

namespace Analysis

variable {α β : Type}

instance : Monad Analysis where
  pure a := fun _ s => (.ok a, s)
  bind m f := fun c s =>
    match m c s with
    | (.ok a, s) => f a c s
    | (.error v, s) => (.error v, s)

def context : Analysis Context := fun c s => (.ok c, s)

def state : Analysis AnalysisState := fun _ s => (.ok s, s)

def update (f : AnalysisState → AnalysisState) : Analysis Unit := fun _ s => (.ok (), f s)

def stop (v : Violation) : Analysis α := fun _ s => (.error v, s)

def note (entry : LogEntry) : Analysis Unit := fun c s =>
  (.ok (), { s with log := s.log ++ [(c.function, entry)] })

def report (v : Violation) : Analysis Unit := do
  if (← context).failFast then stop v else note (.violation v)

def within (function : String) (m : Analysis α) : Analysis α := fun c s =>
  m { c with function := some function } s

def contribute (e : Effect) : Analysis Unit :=
  update fun s => { s with candidates := s.candidates ++ [e] }

/-- Runs an analysis with candidates of its own, and returns them too. -/
def collecting (m : Analysis α) : Analysis (α × List Effect) := fun c s =>
  match m c { s with candidates := [] } with
  | (.ok a, s') => (.ok (a, s'.candidates), { s' with candidates := s.candidates })
  | (.error v, s') => (.error v, { s' with candidates := s.candidates })

def inScope (m : Analysis α) : Analysis α := fun c s =>
  match m c { s with env := [] :: s.env } with
  | (r, s') => (r, { s' with env := s'.env.drop 1 })

def lookup (name : String) : Analysis (Option Binding) := do return (← state).env.lookup name

def define (name : String) (b : Binding) : Analysis Unit :=
  update fun s => { s with env := s.env.define name b }

def rebind (name : String) (b : Binding) : Analysis Unit :=
  update fun s => { s with env := s.env.rebind name b }

def newAggregate (a : Aggregate) : Analysis Nat := fun _ s =>
  (.ok s.aggregates.length, { s with aggregates := s.aggregates ++ [a] })

def aggregate? (id : Nat) : Analysis (Option Aggregate) := do return (← state).aggregates[id]?

/-- Changes an aggregate, and gives its names its effect. -/
def setAggregate (id : Nat) (a : Aggregate) : Analysis Unit :=
  update fun s =>
    { s with aggregates := s.aggregates.set id a, env := s.env.follow id a.current }

end Analysis

end RaisingEffects
