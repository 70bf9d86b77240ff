import RaisingEffects.Tree.Walk
import RaisingEffects.Verdict

/-!
# Sessions

A session analyses parts of one program step by step, in scopes that the steps build up. The effect
of a closure is inferred once and remembered for the steps after.

* `Step.run` is the analysis of a step.
* `Session.perform` makes a step, and tells what was reported in it.
-/

namespace RaisingEffects

/-- The steps of a session. Functions, closures, collections, statements and parameters are given
by their numbers; closures and collections are numbered in the order of the walk. -/
inductive Step where
  | seed
  /-- Give a name a meaning, with an aggregate of its own if there is one. -/
  | define (name : String) (binding : Binding) (aggregate : Option Aggregate)
  | rebind (name : String) (binding : Binding) (aggregate : Option Aggregate)
  | lookup (name : String)
  | push
  | pop
  | fresh
  | closure (n : Nat)
  | body (n : Nat)
  | collection (n : Nat) (declared : Option Effect) (kind : Option String)
  | value (function statement : Nat)
  | params (n : Nat)
  | param (function n : Nat)
  /-- The effect of a function's clause; a bad clause ends the step. -/
  | clause (n : Nat)
  /-- The effect of a function's clause; a bad clause is reported. -/
  | declared (n : Nat)

inductive StepAnswer where
  | done
  | effect (e : Effect)
  | binding (b : Binding) (aggregate : Option Aggregate)
  | unbound
  | aggregate (a : Aggregate)

def Program.closures (p : Program Span) : List (Expr Span) :=
  p.walk.filterMap fun
    | .expr (.closure loc params clause body) => some (.closure loc params clause body)
    | _ => none

def Program.collections (p : Program Span) : List (CollectionKind × List (Expr Span)) :=
  p.walk.filterMap fun
    | .expr (.collection _ kind elements) => some (kind, elements)
    | _ => none

namespace Analysis

def plainValueEffect (e : Expr Span) : Analysis Effect := do
  match e with
  | .closure .. => valueEffect (← e.analyse)
  | .name _ id => nameEffect id
  | _ => return .nothrow

def plainValueEffects : List (Expr Span) → Analysis (List Effect)
  | [] => return []
  | e :: es => do
    let f ← plainValueEffect e
    let fs ← plainValueEffects es
    return f :: fs

/-- The effect of calling the value that a statement has. A name or literal that stands as a
statement has none. -/
def statementEffect : Stmt Span → Analysis Effect
  | .let_ _ _ _ _ v | .assign _ _ v | .raise _ v | .insert _ _ _ v => plainValueEffect v
  | .return_ _ v => v.elim (return .nothrow) plainValueEffect
  | .expr (.name ..) => return .nothrow
  | .expr v => plainValueEffect v
  | .try_ .. | .for_ .. | .while_ .. | .if_ .. => return .nothrow

/-- The aggregate of a collection; an element that does not fit ends the analysis. -/
def collectionAggregate (elements : List (Expr Span)) (declared : Option Effect) (kind : String) :
    Analysis Aggregate := do
  let es ← plainValueEffects elements
  match Aggregate.ofElements (← context).policy declared kind es with
  | .ok a => return a
  | .error m =>
    let element := m.index.bind fun i => elements[i]?
    stop { cause := .misfit m, pos := element.bind fun e => e.loc?.map Span.start }

/-- The effect of a clause; a bad clause ends the analysis. -/
def strictClause (clause : Option (Clause Span)) : Analysis Effect := do
  match Effect.ofClause (← context).isError (clause.map Clause.types) with
  | .ok e => return e
  | .error type => stop { cause := .clauseNotError type, pos := clause.map fun c => c.loc.start }

def withAggregate (b : Binding) : Option Aggregate → Analysis Binding
  | none => return b
  | some a => return { b with aggregate := some (← newAggregate a) }

def showBinding : Option Binding → Analysis StepAnswer
  | none => return .unbound
  | some b =>
    match b.aggregate with
    | none => return .binding b none
    | some id => return .binding b (← aggregate? id)

/-- The answer for the part of a program with the given number, if there is one. -/
def answerAt {α : Type} (parts : List α) (n : Nat) (m : α → Analysis StepAnswer) :
    Analysis StepAnswer :=
  match parts[n]? with
  | some a => m a
  | none => return .done

end Analysis

open Analysis

def Step.run (p : Program Span) : Step → Analysis StepAnswer
  | .seed => do
    declareTypes (p.errors ++ p.types)
    return .done
  | .define name b a => do
    Analysis.define name (← withAggregate b a)
    return .done
  | .rebind name b a => do
    Analysis.rebind name (← withAggregate b a)
    return .done
  | .lookup name => do showBinding (← Analysis.lookup name)
  | .push => do
    update fun s => { s with env := [] :: s.env }
    return .done
  | .pop => do
    update fun s => { s with env := s.env.drop 1 }
    return .done
  | .fresh => do
    update fun s => { s with env := [[]] }
    return .done
  | .closure n => answerAt p.closures n fun e => do return .effect (← plainValueEffect e)
  | .body n => answerAt p.functions n fun g => do return .effect (← bodyEffect g.body).2
  | .collection n d kind => answerAt p.collections n fun (k, elements) => do
    return .aggregate (← collectionAggregate elements d (kind.getD k.noun))
  | .value f n => answerAt p.functions f fun g =>
    answerAt g.body.statements n fun s => do return .effect (← statementEffect s)
  | .params n => answerAt p.functions n fun g => do
    bindParams g.params
    return .done
  | .param f n => answerAt p.functions f fun g =>
    answerAt g.params n fun q => do showBinding (some (← parameterBinding q))
  | .clause n => answerAt p.functions n fun g => do return .effect (← strictClause g.clause)
  | .declared n => answerAt p.functions n fun g => do return .effect (← declaredEffect g.clause)

/-- A session: the program, the context, the state and the closures whose effects are known. -/
structure Session where
  program : Program Span
  context : Context
  state : AnalysisState := {}
  known : List (Span × Effect) := []

namespace Session

/-- Makes a step. Returns its answer, or the violation that ended it, with what was reported. -/
def perform (session : Session) (step : Step) :
    Except Violation StepAnswer × List Violation × Session :=
  let context := { session.context with known := fun s => session.known.lookup s }
  let (answer, state) :=
    step.run session.program context { session.state with candidates := [], log := [] }
  let reported := state.log.filterMap fun
    | (_, .violation v) => some v
    | _ => none
  let known := state.log.filterMap fun
    | (_, .closure span e) => some (span, e)
    | _ => none
  (answer, reported, { session with state, known := session.known ++ known })

end Session

end RaisingEffects
