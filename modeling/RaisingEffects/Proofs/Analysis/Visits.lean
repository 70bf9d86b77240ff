import RaisingEffects.Proofs.Analysis.Outcomes
import RaisingEffects.Tree.Walk

/-!
# The states that an analysis comes through

`Expr.visits` and its relatives list the expressions, statements and blocks that the analysis of a
body comes to, each with the state in which it is analysed: in the scopes that are open there, and
after everything that stands before it.

A call is evaluated after its arguments. `Visit.Evaluates` says in which state this happens to a
visited call, which effect it gets, and what is noted on the way.
-/

namespace RaisingEffects

/-- A node that the analysis comes to, with the context and the state in which it is analysed. -/
structure Visit where
  context : Context
  state : AnalysisState
  node : Node Span

namespace Analysis

variable {α β : Type}

/-- The state that an analysis ends in. -/
def final (m : Analysis α) (c : Context) (s : AnalysisState) : AnalysisState := (m c s).2

theorem final_eq {m : Analysis α} {c : Context} {s s' : AnalysisState} {a : α}
    (h : m c s = (.ok a, s')) : m.final c s = s' := congrArg Prod.snd h

theorem final_bind {m : Analysis α} {f : α → Analysis β} {c : Context} {s s' : AnalysisState}
    {a : α} (h : m c s = (.ok a, s')) : (m >>= f).final c s = (f a).final c s' :=
  congrArg Prod.snd (bind_eq_of_ok h)

/-! ## Ways into the parts of a node -/

def enter : Analysis Unit := update fun s => { s with env := [] :: s.env }

/-- Starts to collect candidates apart. -/
def setApart : Analysis Unit := update fun s => { s with candidates := [] }

/-- What happens before the body of a closure. -/
def enterClosure (params : List (Param Span)) : Analysis Unit := do
  enter
  bindParams params
  setApart

/-- What happens in a `let` before its value. -/
def enterLet (type : Option (TypeExpr Span)) : Analysis Unit := do
  let _ ← declaredFunction type
  let _ ← declaredElement type
  return ()

/-- What happens in a `try` before its handler. -/
def enterHandler (body : Block Span) (binding : Option String) : Analysis Unit := do
  let (_, caught) ← collecting body.analyse
  enter
  match binding with
  | some name => define name (caughtBinding (.joinAll caught))
  | none => pure ()

/-- What happens in a loop over an iterable before its body. -/
def enterLoop (target : String) (iterable : Expr Span) : Analysis Unit :=
  match iterable with
  | .collection _ kind elements => do
    let elements ← Expr.analyseAll elements
    let a ← aggregateOf kind none elements
    let _ ← newAggregate a
    enter
    define target (loopBinding a.effect)
  | iterable => do
    let iterable ← iterable.analyse
    let e ← iterableEffect iterable
    enter
    define target (loopBinding e)

end Analysis

open Analysis

/-! ## Visits of bodies -/

section Visits

variable (c : Context)

mutual

/-- What the analysis of an expression comes to. -/
def Expr.visits : Expr Span → AnalysisState → List Visit
  | .name span id, s => [⟨c, s, .expr (.name span id)⟩]
  | .literal span value, s => [⟨c, s, .expr (.literal span value)⟩]
  | .call span callee args, s => ⟨c, s, .expr (.call span callee args)⟩ :: Expr.visitsAll args s
  | .closure span params clause body, s =>
    ⟨c, s, .expr (.closure span params clause body)⟩ ::
      Body.visits body ((enterClosure params).final c s)
  | .collection span kind elements, s =>
    ⟨c, s, .expr (.collection span kind elements)⟩ :: Expr.visitsAll elements s
  | .binary op left right, s =>
    ⟨c, s, .expr (.binary op left right)⟩ ::
      (Expr.visits left s ++ Expr.visits right (left.analyse.final c s))
  | .unary op operand, s => ⟨c, s, .expr (.unary op operand)⟩ :: Expr.visits operand s

def Expr.visitsAll : List (Expr Span) → AnalysisState → List Visit
  | [], _ => []
  | e :: es, s => Expr.visits e s ++ Expr.visitsAll es (e.analyse.final c s)

def Body.visits : Body Span → AnalysisState → List Visit
  | .block b, s => Block.visits b s
  | .expr e, s => Expr.visits e s

def Block.visits : Block Span → AnalysisState → List Visit
  | .mk span ss, s => ⟨c, s, .block (.mk span ss)⟩ :: Stmt.visitsAll ss (enter.final c s)

def Stmt.visits : Stmt Span → AnalysisState → List Visit
  | .let_ span name isMut type value, s =>
    ⟨c, s, .stmt (.let_ span name isMut type value)⟩ ::
      Expr.visits value ((enterLet type).final c s)
  | .assign span target value, s =>
    ⟨c, s, .stmt (.assign span target value)⟩ :: Expr.visits value s
  | .return_ span none, s => [⟨c, s, .stmt (.return_ span none)⟩]
  | .return_ span (some value), s =>
    ⟨c, s, .stmt (.return_ span (some value))⟩ :: Expr.visits value s
  | .raise span value, s => ⟨c, s, .stmt (.raise span value)⟩ :: Expr.visits value s
  | .try_ span body binding handler, s =>
    ⟨c, s, .stmt (.try_ span body binding handler)⟩ ::
      (Block.visits body (setApart.final c s) ++
        Block.visits handler ((enterHandler body binding).final c s))
  | .insert span target how value, s =>
    ⟨c, s, .stmt (.insert span target how value)⟩ :: Expr.visits value s
  | .for_ target iterable body, s =>
    ⟨c, s, .stmt (.for_ target iterable body)⟩ ::
      (Expr.visits iterable s ++ Block.visits body ((enterLoop target iterable).final c s))
  | .while_ condition body, s =>
    ⟨c, s, .stmt (.while_ condition body)⟩ ::
      (Expr.visits condition s ++ Block.visits body (condition.analyse.final c s))
  | .if_ test body rest, s =>
    ⟨c, s, .stmt (.if_ test body rest)⟩ ::
      (Expr.visits test s ++ Block.visits body (test.analyse.final c s) ++
        Else.visits rest (body.analyse.final c (test.analyse.final c s)))
  | .expr value, s => Expr.visits value s

def Stmt.visitsAll : List (Stmt Span) → AnalysisState → List Visit
  | [], _ => []
  | t :: ts, s => Stmt.visits t s ++ Stmt.visitsAll ts (t.analyse.final c s)

def Else.visits : Else Span → AnalysisState → List Visit
  | .none, _ => []
  | .block b, s => Block.visits b s
  | .elif test body rest, s =>
    Expr.visits test s ++ Block.visits body (test.analyse.final c s) ++
      Else.visits rest (body.analyse.final c (test.analyse.final c s))

end

end Visits

/-! ## Visited calls -/

namespace Visit

/-- The visited node is a call of `callee`. Its arguments are analysed to `args`, which ends in the
state `s`; then the call gets the effect `e` and notes `entries`. -/
def Evaluates (v : Visit) (callee : String) (args : List (Expr Note)) (s : AnalysisState)
    (e : Effect) (entries : List (Option String × LogEntry)) : Prop :=
  ∃ span args₀,
    v.node = .expr (.call span callee args₀) ∧
    Expr.analyseAll args₀ v.context v.state = (.ok args, s) ∧
    callEffect callee span.start args v.context s =
      (.ok e, { s with log := s.log ++ entries })

end Visit

end RaisingEffects
