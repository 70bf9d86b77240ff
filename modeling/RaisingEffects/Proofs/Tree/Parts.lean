import RaisingEffects.Tree.Walk

/-!
# Parts of a body

What is said of expressions, statements and blocks holds of all of them for one reason, so they are
of one type here, `Part`, together with the lists that they stand in. `Part.induction` has a case
for every form of a part, and a hypothesis for each part directly below it. `TypeExpr.induction` is
the like for types.
-/

namespace RaisingEffects

/-- A part of a body that is walked on its own. -/
inductive Part (α : Type) where
  | expr (e : Expr α)
  | exprs (es : List (Expr α))
  | body (b : Body α)
  | block (b : Block α)
  | stmt (t : Stmt α)
  | stmts (ts : List (Stmt α))
  | rest (r : Else α)

namespace Part

variable {α β : Type}

def map (f : α → β) : Part α → Part β
  | expr e => expr (e.map f)
  | exprs es => exprs (Expr.mapAll f es)
  | body b => body (b.map f)
  | block b => block (b.map f)
  | stmt t => stmt (t.map f)
  | stmts ts => stmts (Stmt.mapAll f ts)
  | rest r => rest (r.map f)

def walk : Part α → List (Node α)
  | expr e => e.walk
  | exprs es => Expr.walkAll es
  | body b => b.walk
  | block b => b.walk
  | stmt t => t.walk
  | stmts ts => Stmt.walkAll ts
  | rest r => r.walk

def tops : Part α → List (Node α)
  | expr e => [.expr e]
  | exprs es => es.map .expr
  | body b => [.ofBody b]
  | block b => [.block b]
  | stmt t => [.ofStmt t]
  | stmts ts => ts.map .ofStmt
  | rest r => Node.ofElse r

section Induction

variable {motive : Part α → Prop} (name : ∀ loc id, motive (expr (.name loc id)))
  (literal : ∀ loc value, motive (expr (.literal loc value)))
  (call : ∀ loc callee args, motive (exprs args) → motive (expr (.call loc callee args)))
  (closure : ∀ loc params clause b, motive (body b) →
    motive (expr (.closure loc params clause b)))
  (collection : ∀ loc kind es, motive (exprs es) → motive (expr (.collection loc kind es)))
  (binary : ∀ op left right, motive (expr left) → motive (expr right) →
    motive (expr (.binary op left right)))
  (unary : ∀ op operand, motive (expr operand) → motive (expr (.unary op operand)))
  (exprsNil : motive (exprs []))
  (exprsCons : ∀ e es, motive (expr e) → motive (exprs es) → motive (exprs (e :: es)))
  (bodyBlock : ∀ b, motive (block b) → motive (body (.block b)))
  (bodyExpr : ∀ e, motive (expr e) → motive (body (.expr e)))
  (block_ : ∀ loc ts, motive (stmts ts) → motive (block (.mk loc ts)))
  (let_ : ∀ loc name isMut type value, motive (expr value) →
    motive (stmt (.let_ loc name isMut type value)))
  (assign : ∀ loc target value, motive (expr value) → motive (stmt (.assign loc target value)))
  (returnNone : ∀ loc, motive (stmt (.return_ loc none)))
  (returnSome : ∀ loc value, motive (expr value) → motive (stmt (.return_ loc (some value))))
  (raise : ∀ loc value, motive (expr value) → motive (stmt (.raise loc value)))
  (try_ : ∀ loc b binding handler, motive (block b) → motive (block handler) →
    motive (stmt (.try_ loc b binding handler)))
  (insert : ∀ loc target how value, motive (expr value) →
    motive (stmt (.insert loc target how value)))
  (for_ : ∀ target iterable b, motive (expr iterable) → motive (block b) →
    motive (stmt (.for_ target iterable b)))
  (while_ : ∀ condition b, motive (expr condition) → motive (block b) →
    motive (stmt (.while_ condition b)))
  (if_ : ∀ test b r, motive (expr test) → motive (block b) → motive (rest r) →
    motive (stmt (.if_ test b r)))
  (stmtExpr : ∀ e, motive (expr e) → motive (stmt (.expr e)))
  (stmtsNil : motive (stmts []))
  (stmtsCons : ∀ t ts, motive (stmt t) → motive (stmts ts) → motive (stmts (t :: ts)))
  (restNone : motive (rest .none))
  (restBlock : ∀ b, motive (block b) → motive (rest (.block b)))
  (elif : ∀ test b r, motive (expr test) → motive (block b) → motive (rest r) →
    motive (rest (.elif test b r)))

include name literal call closure collection binary unary exprsNil exprsCons bodyBlock bodyExpr
  block_ let_ assign returnNone returnSome raise try_ insert for_ while_ if_ stmtExpr stmtsNil
  stmtsCons restNone restBlock elif

/-- **Induction over the parts of a body.** -/
@[elab_as_elim] theorem induction : (t : Part α) → motive t
  | expr (.name ..) => name ..
  | expr (.literal ..) => literal ..
  | expr (.call _ _ args) => call _ _ _ (induction (exprs args))
  | expr (.closure _ _ _ b) => closure _ _ _ _ (induction (body b))
  | expr (.collection _ _ es) => collection _ _ _ (induction (exprs es))
  | expr (.binary _ left right) => binary _ _ _ (induction (expr left)) (induction (expr right))
  | expr (.unary _ operand) => unary _ _ (induction (expr operand))
  | exprs [] => exprsNil
  | exprs (e :: es) => exprsCons _ _ (induction (expr e)) (induction (exprs es))
  | body (.block b) => bodyBlock _ (induction (block b))
  | body (.expr e) => bodyExpr _ (induction (expr e))
  | block (.mk _ ts) => block_ _ _ (induction (stmts ts))
  | stmt (.let_ _ _ _ _ value) => let_ _ _ _ _ _ (induction (expr value))
  | stmt (.assign _ _ value) => assign _ _ _ (induction (expr value))
  | stmt (.return_ _ none) => returnNone _
  | stmt (.return_ _ (some value)) => returnSome _ _ (induction (expr value))
  | stmt (.raise _ value) => raise _ _ (induction (expr value))
  | stmt (.try_ _ b _ handler) => try_ _ _ _ _ (induction (block b)) (induction (block handler))
  | stmt (.insert _ _ _ value) => insert _ _ _ _ (induction (expr value))
  | stmt (.for_ _ e b) => for_ _ _ _ (induction (expr e)) (induction (block b))
  | stmt (.while_ e b) => while_ _ _ (induction (expr e)) (induction (block b))
  | stmt (.if_ e b r) => if_ _ _ _ (induction (expr e)) (induction (block b)) (induction (rest r))
  | stmt (.expr e) => stmtExpr _ (induction (expr e))
  | stmts [] => stmtsNil
  | stmts (t :: ts) => stmtsCons _ _ (induction (stmt t)) (induction (stmts ts))
  | rest .none => restNone
  | rest (.block b) => restBlock _ (induction (block b))
  | rest (.elif e b r) => elif _ _ _ (induction (expr e)) (induction (block b)) (induction (rest r))

end Induction

end Part

/-! ## Types -/

variable {α : Type}

/-- Induction over types: the arguments of a type and the parts of a function type are types. -/
theorem TypeExpr.induction {motive : TypeExpr α → Prop}
    (named : ∀ loc name args, (∀ t ∈ args, motive t) → motive (.named loc name args))
    (fn : ∀ loc params clause result, (∀ t ∈ params, motive t) → (∀ t ∈ result, motive t) →
      motive (.fn loc params clause result)) : (t : TypeExpr α) → motive t
  | .named _ _ args => named _ _ _ fun t _ => TypeExpr.induction named fn t
  | .fn _ params _ result =>
    fn _ _ _ _ (fun t _ => TypeExpr.induction named fn t) fun t _ => TypeExpr.induction named fn t

theorem TypeExpr.walkAll_eq (ts : List (TypeExpr α)) :
    TypeExpr.walkAll ts = ts.flatMap TypeExpr.walk := by
  induction ts with
  | nil => rw [TypeExpr.walkAll, List.flatMap_nil]
  | cons t ts ih => rw [TypeExpr.walkAll, List.flatMap_cons, ih]

theorem TypeExpr.walk_fn (loc : α) (params : List (TypeExpr α)) (clause : Option (Clause α))
    (result : Option (TypeExpr α)) :
    (TypeExpr.fn loc params clause result).walk = .type (.fn loc params clause result) ::
      (params.flatMap TypeExpr.walk ++
        (clause.toList.map .clause ++ result.toList.flatMap TypeExpr.walk)) := by
  cases result <;> simp [TypeExpr.walk, TypeExpr.walkAll_eq]

end RaisingEffects
