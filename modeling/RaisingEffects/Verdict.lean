import RaisingEffects.Analysis.Body
import RaisingEffects.Parse.Program

/-!
# Checking a program

All signatures are read first, so that functions may call each other in any order. Then each body
is analysed and compared with its signature. Violations never end the check.

* `Program.check` checks a program and gives a `Verdict`.
* `Verdict.diagnostics` lists the violations, in the order in which they were found.
-/

namespace RaisingEffects

structure Settings where
  policy : Policy := .compatibility
  checkBodies : Bool := true
deriving DecidableEq, Repr

/-- The outcome of a check: the program with what was found at its nodes, the aggregates that the
nodes refer to, the effects of all functions and members, and the log. -/
structure Verdict where
  program : Program Note
  aggregates : List Aggregate
  effects : Table Effect
  log : List (Option String × LogEntry)

namespace Verdict

def diagnostics (v : Verdict) : List Diagnostic :=
  v.log.filterMap fun
    | (function, .violation w) => some (.ofViolation function w)
    | _ => none

def isClean (v : Verdict) : Bool := v.diagnostics.isEmpty

end Verdict

def Ambiguity.violation (a : Ambiguity) : Violation :=
  { cause := .ambiguous a.word, pos := some a.pos, leads := false }

/-- What is known about a function from its signature: the meanings of its parameters and of its
own name. -/
structure Signature where
  params : List Binding
  binding : Binding

namespace Analysis

/-! ## Signatures -/

def expectedEffect (b : Binding) : Option Effect :=
  if b.kind = .callable then some b.effect else none

def callableEffects (g : FunDecl Span) (bs : List Binding) : Table Effect :=
  .ofEntries (((g.params.map Param.name).zip bs).filterMap fun (name, b) =>
    (expectedEffect b).map fun e => (name, e))

/-- The rule of a forwarding function and its effect. -/
def resolveFunction (g : FunDecl Span) (effects : Table Effect) :
    Except Violation (Forwarding × Effect) := do
  let f ← Forwarding.ofFunction g effects
  let e ← f.resolve effects
  return (f, e)

def signature (g : FunDecl Span) : Analysis Signature := do
  let bs ← parameterBindings g.params
  let params := bs.map expectedEffect
  if g.forwards.isEmpty then
    let effect ← declaredEffect g.clause
    return ⟨bs, { kind := .callable, effect, params }⟩
  else
    match resolveFunction g (callableEffects g bs) with
    | .ok (f, effect) =>
      noteJoin f effect
      note (.resolved g.name f.mode effect)
      return ⟨bs, { kind := .callable, effect, params, forwarding := some f }⟩
    | .error v =>
      note (.violation v)
      return ⟨bs, { kind := .callable, effect := .raisesAny, params }⟩

/-- Reads the signatures of functions, and gives their names their meanings. -/
def signatures : List (FunDecl Span) → Analysis (List Signature)
  | [] => return []
  | g :: gs => do
    let sig ← within g.name (signature g)
    define g.name sig.binding
    let sigs ← signatures gs
    return sig :: sigs

def declareTypes : List (NameDecl Span) → Analysis Unit
  | [] => return ()
  | d :: ds => do
    define d.name { kind := .typeName }
    declareTypes ds

def memberName (interface member : String) : String := s!"{interface}.{member}"

def memberEffects (i : Interface Span) : List (Member Span) → Analysis (List (Member Note))
  | [] => return []
  | m :: ms => do
    let e ← within (memberName i.name m.name) (declaredEffect m.clause)
    let rest ← memberEffects i ms
    return { m.map Note.blank with loc := { span := m.loc, effect := some e } } :: rest

def interfaceEffects : List (Interface Span) → Analysis (List (Interface Note))
  | [] => return []
  | i :: is => do
    let members ← memberEffects i i.members
    let rest ← interfaceEffects is
    return ⟨.blank i.loc, i.name, members⟩ :: rest

/-! ## Bodies -/

/-- Analyses the body of a function and compares it with its signature. -/
def checkFunction (checkBodies : Bool) (g : FunDecl Span) (sig : Signature) :
    Analysis (FunDecl Note) := do
  let (body, bodyEffect) ← inScope do
    defineAll ((g.params.map Param.name).zip sig.params)
    Analysis.bodyEffect g.body
  let declared := sig.binding.effect
  let effect ←
    if checkBodies && !bodyEffect.fits declared then do
      note (.violation (.at_ (.functionRaises g.name declared bodyEffect) g.loc.start))
      pure Effect.raisesAny
    else pure declared
  return { g.map Note.blank with
    loc :=
      { span := g.loc, effect := some effect, bodyEffect := some bodyEffect,
        forwarding := sig.binding.forwarding }
    body }

def checkFunctions (checkBodies : Bool) :
    List (FunDecl Span × Signature) → Analysis (List (FunDecl Note))
  | [] => return []
  | (g, sig) :: rest => do
    let g ← within g.name (checkFunction checkBodies g sig)
    let gs ← checkFunctions checkBodies rest
    return g :: gs

def noteSkipped : List Ambiguity → Analysis Unit
  | [] => return ()
  | a :: as => do
    note (.violation a.violation)
    noteSkipped as

/-- The effects of members and functions, in the order in which they are declared, members
first. -/
def effectTable (interfaces : List (Interface Note)) (functions : List (FunDecl Note)) :
    Table Effect :=
  .ofEntries
    ((interfaces.flatMap fun i => i.members.map fun m =>
        (memberName i.name m.name, m.loc.effect.getD .nothrow)) ++
      functions.map fun g => (g.name, g.loc.effect.getD .nothrow))

def checkProgram (checkBodies : Bool) (p : Program Span) (skipped : List Ambiguity) :
    Analysis (Program Note) := do
  noteSkipped skipped
  declareTypes (p.errors ++ p.types)
  let interfaces ← interfaceEffects p.interfaces
  let sigs ← signatures p.functions
  let functions ← checkFunctions checkBodies (p.functions.zip sigs)
  return { p.map Note.blank with functions, interfaces }

end Analysis

def Program.declaresError (p : Program Span) (name : String) : Bool :=
  p.errors.any fun d => d.name = name

/-- Checks a program in which the given words were skipped. `isError` tells which types are types
of errors. -/
def Program.check (p : Program Span) (settings : Settings) (isError : String → Bool)
    (skipped : List Ambiguity) : Except Violation Verdict :=
  match Analysis.checkProgram settings.checkBodies p skipped
      { policy := settings.policy, isError } {} with
  | (.ok program, s) =>
    .ok
      { program
        aggregates := s.aggregates
        effects := Analysis.effectTable program.interfaces program.functions
        log := s.log }
  | (.error v, _) => .error v

end RaisingEffects
