import RaisingEffects.Analysis.Monad

/-!
# Effects of bodies

The analysis walks a body once, in the order of the source, and returns the tree with what it found
at each node. A raise contributes the effect of the raised value, a call that of the callee; what
stands in the body of a `try` is caught, and defining a closure runs nothing.

* `Expr.analyse`, `Stmt.analyse` and `Block.analyse` walk a tree.
* `Analysis.bodyEffect` is the effect of a function's body, which is checked against the signature
  and therefore not collapsed.
-/

namespace RaisingEffects

structure Note where
  span : Span
  effect : Option Effect := none
  bodyEffect : Option Effect := none
  caughtEffect : Option Effect := none
  aggregate : Option Nat := none
  forwarding : Option Forwarding := none

def Note.blank (span : Span) : Note := { span }

namespace Analysis

/-! ## Declared effects -/

/-- The effect of a clause. A clause that names something that is no error is reported, and counts
as one that raises anything. -/
def declaredEffect (clause : Option (Clause Span)) : Analysis Effect := do
  match Effect.ofClause (← context).isError (clause.map Clause.types) with
  | .ok e => return e
  | .error type =>
    report { cause := .clauseNotError type, pos := clause.map fun c => c.loc.start }
    return .raisesAny

/-- The clause of the function type that the elements of a collection type have. -/
def elementClause? {α : Type} : TypeExpr α → Option (Option (Clause α))
  | .named _ name [.fn _ _ clause _] =>
    if name = "list" || name = "set" then some clause else none
  | _ => none

/-- The type that a type names, if it is a type of errors. -/
def errorType? {α : Type} (isError : String → Bool) : Option (TypeExpr α) → Option String
  | some (.named _ name _) => if isError name then some name else none
  | _ => none

def parameterBinding (p : Param Span) : Analysis Binding := do
  match p.type with
  | some (.fn _ _ clause _) => return .callable (← declaredEffect clause)
  | type =>
    match type.bind elementClause? with
    | some clause =>
      let e ← declaredEffect clause
      let id ← newAggregate { effect := some e, declared := true }
      return { kind := .collection, effect := e, aggregate := some id }
    | none =>
      match errorType? (← context).isError type with
      | some name => return .error (.raises name)
      | none => return .value

def parameterBindings : List (Param Span) → Analysis (List Binding)
  | [] => return []
  | p :: ps => do
    let b ← parameterBinding p
    let bs ← parameterBindings ps
    return b :: bs

def defineAll : List (String × Binding) → Analysis Unit
  | [] => return ()
  | (name, b) :: rest => do
    define name b
    defineAll rest

def bindParams (ps : List (Param Span)) : Analysis Unit := do
  let bs ← parameterBindings ps
  defineAll ((ps.map Param.name).zip bs)

/-! ## Values -/

def nameEffect (name : String) : Analysis Effect := do
  match ← lookup name with
  | some b => return if b.kind = .callable then b.effect else .nothrow
  | none => return .nothrow

/-- The effect of calling a value that was analysed. Plain data raises nothing. -/
def valueEffect : Expr Note → Analysis Effect
  | .closure loc .. => return loc.effect.getD .nothrow
  | .name _ id => nameEffect id
  | _ => return .nothrow

def valueEffects : List (Expr Note) → Analysis (List Effect)
  | [] => return []
  | e :: es => do
    let f ← valueEffect e
    let fs ← valueEffects es
    return f :: fs

def elementPos (elements : List (Expr Note)) (index : Option Nat) : Option Pos :=
  (index.bind fun i => elements[i]?).bind fun e => e.loc?.map fun n => n.span.start

/-- The aggregate of a collection whose elements were analysed. If an element does not fit, the
collection counts as declared, or as raising anything. -/
def aggregateOf (kind : CollectionKind) (declared : Option Effect) (elements : List (Expr Note)) :
    Analysis Aggregate := do
  let es ← valueEffects elements
  match Aggregate.ofElements (← context).policy declared kind.noun es with
  | .ok a => return a
  | .error m =>
    report { cause := .misfit m, pos := elementPos elements m.index }
    return { effect := some (declared.getD .raisesAny), kind := kind.noun,
             declared := declared.isSome }

/-! ## Calls -/

/-- Reports the arguments that do not fit the parameters from `position` on, and tells whether
there are any. -/
def checkArguments (callee : String) (pos : Pos) (arguments : List Effect) :
    Nat → List (Option Effect) → Analysis Bool
  | _, [] => return false
  | position, expected :: rest => do
    let mismatch ← match expected, arguments[position]? with
      | some expected, some actual =>
        if actual.fits expected then pure false
        else do
          report (.at_ (.argumentMismatch callee position expected actual) pos)
          pure true
      | _, _ => pure false
    let others ← checkArguments callee pos arguments (position + 1) rest
    return mismatch || others

/-- The effect of a forwarding rule that is resolved, noted in the log if it is a join. -/
def noteJoin (f : Forwarding) (e : Effect) : Analysis Unit :=
  if f.target.isNone then note (.forwards f.function e) else return ()

/-- The effects that the arguments of a call give the forwarded parameters. -/
def forwardedEffects (f : Forwarding) (arguments : List Effect) : Table Effect :=
  .ofEntries (f.params.map fun p => (p.name, (arguments[p.position]?).getD p.effect))

/-- The effect of calling a forwarding function with the given arguments. -/
def forwardedCall (f : Forwarding) (pos : Pos) (arguments : List Effect) : Analysis Effect := do
  let effects := forwardedEffects f arguments
  match f.callSite effects with
  | .ok e =>
    if f.anyRaises effects then noteJoin f e
    return e
  | .error v =>
    report (v.locate pos)
    return .raisesAny

/-- The effect of a call whose arguments were analysed. -/
def callEffect (callee : String) (pos : Pos) (args : List (Expr Note)) : Analysis Effect := do
  match ← lookup callee with
  | none => return .nothrow
  | some b =>
    if b.kind = .callable then
      let arguments ← valueEffects args
      let mismatch ← checkArguments callee pos arguments 0 b.params
      match b.forwarding with
      | none => return b.effect
      | some f => if mismatch then return .raisesAny else forwardedCall f pos arguments
    else return .nothrow

/-! ## Raised and bound values -/

def raisedType (name : String) (pos : Pos) : Analysis Effect := do
  if (← context).isError name then return .raises name
  else
    report (.at_ (.raisedNotError name) pos)
    return .raisesAny

def raisedEffect : Expr Note → Analysis Effect
  | .call loc callee _ => do
    match ← lookup callee with
    | some b => if b.kind = .typeName then raisedType callee loc.span.start else return .raisesAny
    | none => return .raisesAny
  | .name loc id => do
    match ← lookup id with
    | some b =>
      match b.kind with
      | .error => return b.effect
      | .typeName => raisedType id loc.span.start
      | _ => return .raisesAny
    | none => return .raisesAny
  | _ => return .raisesAny

/-- The meaning of a name that denotes something which carries an effect. -/
def effectful? (b : Option Binding) : Option Binding :=
  b.filter fun b => b.kind = .callable || b.kind = .error || b.kind = .collection

/-- The meaning that a type gives to a value, when nothing else is known about it. -/
def annotatedBinding (type : Option (TypeExpr Span)) : Analysis Binding := do
  match errorType? (← context).isError type with
  | some name => return .error (.raises name)
  | none => return .value

/-- The meaning of a name that is bound to a value, under the type it is declared with. -/
def bindingOfValue (type : Option (TypeExpr Span)) : Expr Note → Analysis Binding
  | .closure loc .. => return .callable (loc.effect.getD .nothrow)
  | .call _ callee _ => do
    if (← context).isError callee then return .error (.raises callee)
    else annotatedBinding type
  | .name _ id => do
    match effectful? (← lookup id) with
    | some b => return b
    | none => annotatedBinding type
  | _ => annotatedBinding type

/-! ## Closures -/

/-- The effect of a closure whose body has the given candidates. -/
def closureEffect (span : Span) (clause : Option (Clause Span)) (candidates : List Effect) :
    Analysis Effect := do
  match clause with
  | none => return .collapse (← context).policy candidates
  | some c =>
    let declared ← declaredEffect (some c)
    let body := Effect.joinAll candidates
    if body.fits declared then return declared
    else
      report (.at_ (.closureRaises declared body) span.start)
      return .raisesAny

/-! ## Statements -/

/-- The declared effect of a name that is declared with a function type. -/
def declaredFunction : Option (TypeExpr Span) → Analysis (Option Effect)
  | some (.fn _ _ clause _) => return some (← declaredEffect clause)
  | _ => return none

/-- The declared effect of the elements of a name that is declared with a collection type. -/
def declaredElement (type : Option (TypeExpr Span)) : Analysis (Option Effect) := do
  match type.bind elementClause? with
  | some clause => return some (← declaredEffect clause)
  | none => return none

def bindCollection (name : String) (id : Nat) (a : Aggregate) : Analysis Unit :=
  define name { kind := .collection, effect := a.current, aggregate := some id }

/-- Binds a name to a value that was analysed, and returns the effect to be noted. -/
def bindValue (name : String) (pos : Pos) (type : Option (TypeExpr Span))
    (declared : Option Effect) (value : Expr Note) : Analysis (Option Effect) := do
  match declared with
  | some d =>
    let actual ← valueEffect value
    if actual.fits d then
      define name (.callable d)
      return none
    else
      report (.at_ (.letMismatch name d actual) pos)
      define name (.callable .raisesAny)
      return some .raisesAny
  | none =>
    define name (← bindingOfValue type value)
    return none

/-- Assigns a value that was analysed to a name, and returns the effect to be noted. -/
def assignValue (target : String) (pos : Pos) (value : Expr Note) : Analysis (Option Effect) := do
  match ← lookup target with
  | none => return none
  | some b =>
    if b.kind = .callable then
      let actual ← valueEffect value
      if actual.fits b.effect then return none
      else
        report (.at_ (.assignMismatch target b.effect actual) pos)
        rebind target (.callable .raisesAny)
        return some .raisesAny
    else return none

/-- Inserts a value that was analysed into the collection of a name, and returns the effect to be
noted. -/
def insertValue (target : String) (pos : Pos) (value : Expr Note) : Analysis (Option Effect) := do
  match (← lookup target).bind Binding.aggregate with
  | none => return none
  | some id =>
    let e ← valueEffect value
    match ← aggregate? id with
    | none => return none
    | some a =>
      match a.insert e none with
      | .ok a =>
        setAggregate id a
        return some e
      | .error m =>
        report (.at_ (.misfit m) pos)
        return some .raisesAny

/-- The effect that the elements of an iterable have, if it is the name of a collection. -/
def iterableEffect : Expr Note → Analysis (Option Effect)
  | .name _ id => do
    match (← lookup id).bind Binding.aggregate with
    | none => return none
    | some id => return (← aggregate? id).bind Aggregate.effect
  | _ => return none

/-- The meaning of a loop variable whose values have the given effect. -/
def loopBinding : Option Effect → Binding
  | some e => .callable e
  | none => .value

/-- The effect of what a handler catches, if it is raised again. -/
def caughtBinding (caught : Effect) : Binding :=
  .error (if caught.isRaising then caught else .raisesAny)

end Analysis

open Analysis

mutual

def Expr.analyse : Expr Span → Analysis (Expr Note)
  | .name span id => return .name (.blank span) id
  | .literal span value => return .literal (.blank span) value
  | .call span callee args => do
    let args ← Expr.analyseAll args
    let e ← callEffect callee span.start args
    if e.isRaising then contribute e
    return .call { span, effect := some e } callee args
  | .closure span params clause body => do
    match (← context).known span with
    | some e =>
      return .closure { span, effect := some e } (params.map (·.map .blank))
        (clause.map (·.map .blank)) (body.map .blank)
    | none =>
      let (body, candidates) ← inScope do
        bindParams params
        collecting (Body.analyse body)
      let e ← closureEffect span clause candidates
      note (.closure span e)
      return .closure { span, effect := some e } (params.map (·.map .blank))
        (clause.map (·.map .blank)) body
  | .collection span kind elements => do
    let elements ← Expr.analyseAll elements
    let id ← newAggregate (← aggregateOf kind none elements)
    return .collection { span, aggregate := some id } kind elements
  | .binary op left right => do
    let left ← Expr.analyse left
    let right ← Expr.analyse right
    return .binary op left right
  | .unary op operand => do
    let operand ← Expr.analyse operand
    return .unary op operand

def Expr.analyseAll : List (Expr Span) → Analysis (List (Expr Note))
  | [] => return []
  | e :: es => do
    let e ← Expr.analyse e
    let es ← Expr.analyseAll es
    return e :: es

def Body.analyse : Body Span → Analysis (Body Note)
  | .block b => do return .block (← Block.analyse b)
  | .expr e => do return .expr (← Expr.analyse e)

def Block.analyse : Block Span → Analysis (Block Note)
  | .mk span ss => do return .mk (.blank span) (← inScope (Stmt.analyseAll ss))

def Stmt.analyse : Stmt Span → Analysis (Stmt Note)
  | .let_ span name isMut type value => do
    let declared ← declaredFunction type
    let declaredElement ← declaredElement type
    let noted := type.map (·.map Note.blank)
    match value with
    | .collection cspan kind elements =>
      let elements ← Expr.analyseAll elements
      let a ← aggregateOf kind declaredElement elements
      let id ← newAggregate a
      bindCollection name id a
      return .let_ (.blank span) name isMut noted
        (.collection { span := cspan, aggregate := some id } kind elements)
    | value =>
      let value ← Expr.analyse value
      let e ← bindValue name span.start type declared value
      return .let_ { span, effect := e } name isMut noted value
  | .assign span target value => do
    let value ← Expr.analyse value
    let e ← assignValue target span.start value
    return .assign { span, effect := e } target value
  | .return_ span none => return .return_ (.blank span) none
  | .return_ span (some value) => do
    let value ← Expr.analyse value
    return .return_ (.blank span) (some value)
  | .raise span value => do
    let value ← Expr.analyse value
    let e ← raisedEffect value
    contribute e
    return .raise { span, effect := some e } value
  | .try_ span body binding handler => do
    let (body, caught) ← collecting (Block.analyse body)
    let caught := Effect.joinAll caught
    let handler ← inScope do
      match binding with
      | some name => define name (caughtBinding caught)
      | none => pure ()
      Block.analyse handler
    return .try_ { span, caughtEffect := some caught } body binding handler
  | .insert span target how value => do
    let value ← Expr.analyse value
    let e ← insertValue target span.start value
    return .insert { span, effect := e } target how value
  | .for_ target iterable body => do
    match iterable with
    | .collection cspan kind elements =>
      let elements ← Expr.analyseAll elements
      let a ← aggregateOf kind none elements
      let id ← newAggregate a
      let body ← inScope do
        define target (loopBinding a.effect)
        Block.analyse body
      return .for_ target (.collection { span := cspan, aggregate := some id } kind elements) body
    | iterable =>
      let iterable ← Expr.analyse iterable
      let e ← iterableEffect iterable
      let body ← inScope do
        define target (loopBinding e)
        Block.analyse body
      return .for_ target iterable body
  | .while_ condition body => do
    let condition ← Expr.analyse condition
    let body ← Block.analyse body
    return .while_ condition body
  | .if_ test body rest => do
    let test ← Expr.analyse test
    let body ← Block.analyse body
    let rest ← Else.analyse rest
    return .if_ test body rest
  | .expr value => do return .expr (← Expr.analyse value)

def Stmt.analyseAll : List (Stmt Span) → Analysis (List (Stmt Note))
  | [] => return []
  | s :: ss => do
    let s ← Stmt.analyse s
    let ss ← Stmt.analyseAll ss
    return s :: ss

def Else.analyse : Else Span → Analysis (Else Note)
  | .none => return .none
  | .block b => do return .block (← Block.analyse b)
  | .elif test body rest => do
    let test ← Expr.analyse test
    let body ← Block.analyse body
    let rest ← Else.analyse rest
    return .elif test body rest

end

def Analysis.bodyEffect (body : Block Span) : Analysis (Block Note × Effect) := do
  let (body, candidates) ← collecting (Block.analyse body)
  return (body, .joinAll candidates)

end RaisingEffects
