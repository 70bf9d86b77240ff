import RaisingEffects.Tree.Basic

/-!
# Walking a tree

`Node` is a node of any kind. `Node.children` lists the nodes directly below one, and the functions
named `walk` list a node and all nodes below it, parents before children. Parameters are not nodes.
The first test of a conditional belongs both to the conditional and to its first branch, so it is
listed twice.
-/

namespace RaisingEffects

inductive Node (α : Type) where
  | clause (c : Clause α)
  | type (t : TypeExpr α)
  | expr (e : Expr α)
  | block (b : Block α)
  | stmt (s : Stmt α)
  | errorDecl (d : NameDecl α)
  | typeDecl (d : NameDecl α)
  | member (m : Member α)
  | interface (i : Interface α)
  | function (f : FunDecl α)
  | program (p : Program α)

namespace Node

variable {α : Type}

/-- The node of a statement: an expression that stands as a statement is that expression. -/
def ofStmt : Stmt α → Node α
  | .expr e => .expr e
  | s => .stmt s

def ofBody : Body α → Node α
  | .block b => .block b
  | .expr e => .expr e

def ofElse : Else α → List (Node α)
  | .none => []
  | .block b => [.block b]
  | .elif t b r => .expr t :: .block b :: ofElse r

def loc? : Node α → Option α
  | clause c => some c.loc
  | type (.named loc _ _) | type (.fn loc _ _ _) => some loc
  | expr e => e.loc?
  | block b => some b.loc
  | stmt s =>
    match s with
    | .let_ loc .. | .assign loc .. | .return_ loc _ | .raise loc _ | .try_ loc .. |
      .insert loc .. => some loc
    | .expr e => e.loc?
    | .for_ .. | .while_ .. | .if_ .. => none
  | errorDecl d | typeDecl d => some d.loc
  | member m => some m.loc
  | interface i => some i.loc
  | function f => some f.loc
  | program _ => none

def ofExpr : Expr α → List (Node α)
  | .name .. | .literal .. => []
  | .call _ _ args => args.map expr
  | .closure _ _ c b => ofBody b :: c.toList.map clause
  | .collection _ _ elements => elements.map expr
  | .binary _ l r => [expr l, expr r]
  | .unary _ e => [expr e]

/-- The nodes directly below a node. -/
def children : Node α → List (Node α)
  | clause _ => []
  | type (.named _ _ args) => args.map type
  | type (.fn _ params c result) => params.map type ++ c.toList.map clause ++ result.toList.map type
  | expr e => ofExpr e
  | block b => b.statements.map ofStmt
  | stmt s =>
    match s with
    | .let_ _ _ _ t v => expr v :: t.toList.map type
    | .assign _ _ v => [expr v]
    | .return_ _ v => v.toList.map expr
    | .raise _ v => [expr v]
    | .try_ _ b _ h => [block b, block h]
    | .insert _ _ _ v => [expr v]
    | .for_ _ i b => [expr i, block b]
    | .while_ c b => [expr c, block b]
    | .if_ t b r => expr t :: expr t :: block b :: ofElse r
    | .expr e => ofExpr e
  | errorDecl _ | typeDecl _ => []
  | member m => m.clause.toList.map clause ++ m.result.toList.map type
  | interface i => i.members.map member
  | function f => f.result.toList.map type ++ block f.body :: f.clause.toList.map clause
  | program p =>
    p.functions.map function ++ p.errors.map errorDecl ++ p.types.map typeDecl ++
      p.interfaces.map interface

end Node

variable {α : Type}

def Clause.walk (c : Clause α) : List (Node α) := [.clause c]

mutual

def TypeExpr.walk : TypeExpr α → List (Node α)
  | .named loc name args => .type (.named loc name args) :: TypeExpr.walkAll args
  | .fn loc params clause none =>
    .type (.fn loc params clause none) ::
      (TypeExpr.walkAll params ++ clause.toList.map .clause)
  | .fn loc params clause (some result) =>
    .type (.fn loc params clause (some result)) ::
      (TypeExpr.walkAll params ++ clause.toList.map .clause ++ TypeExpr.walk result)

def TypeExpr.walkAll : List (TypeExpr α) → List (Node α)
  | [] => []
  | t :: ts => TypeExpr.walk t ++ TypeExpr.walkAll ts

end

mutual

def Expr.walk : Expr α → List (Node α)
  | .name loc id => [.expr (.name loc id)]
  | .literal loc value => [.expr (.literal loc value)]
  | .call loc callee args => .expr (.call loc callee args) :: Expr.walkAll args
  | .closure loc params clause body =>
    .expr (.closure loc params clause body) :: (Body.walk body ++ clause.toList.map .clause)
  | .collection loc kind elements => .expr (.collection loc kind elements) :: Expr.walkAll elements
  | .binary op l r => .expr (.binary op l r) :: (Expr.walk l ++ Expr.walk r)
  | .unary op e => .expr (.unary op e) :: Expr.walk e

def Expr.walkAll : List (Expr α) → List (Node α)
  | [] => []
  | e :: es => Expr.walk e ++ Expr.walkAll es

def Body.walk : Body α → List (Node α)
  | .block b => Block.walk b
  | .expr e => Expr.walk e

def Block.walk : Block α → List (Node α)
  | .mk loc ss => .block (.mk loc ss) :: Stmt.walkAll ss

def Stmt.walk : Stmt α → List (Node α)
  | .let_ loc name isMut type value =>
    .stmt (.let_ loc name isMut type value) ::
      (Expr.walk value ++ type.toList.flatMap TypeExpr.walk)
  | .assign loc target value => .stmt (.assign loc target value) :: Expr.walk value
  | .return_ loc none => [.stmt (.return_ loc none)]
  | .return_ loc (some value) => .stmt (.return_ loc (some value)) :: Expr.walk value
  | .raise loc value => .stmt (.raise loc value) :: Expr.walk value
  | .try_ loc body binding handler =>
    .stmt (.try_ loc body binding handler) :: (Block.walk body ++ Block.walk handler)
  | .insert loc target how value => .stmt (.insert loc target how value) :: Expr.walk value
  | .for_ target iterable body =>
    .stmt (.for_ target iterable body) :: (Expr.walk iterable ++ Block.walk body)
  | .while_ condition body =>
    .stmt (.while_ condition body) :: (Expr.walk condition ++ Block.walk body)
  | .if_ test body rest =>
    .stmt (.if_ test body rest) ::
      (Expr.walk test ++ Expr.walk test ++ Block.walk body ++ Else.walk rest)
  | .expr value => Expr.walk value

def Stmt.walkAll : List (Stmt α) → List (Node α)
  | [] => []
  | s :: ss => Stmt.walk s ++ Stmt.walkAll ss

def Else.walk : Else α → List (Node α)
  | .none => []
  | .block b => Block.walk b
  | .elif test body rest => Expr.walk test ++ Block.walk body ++ Else.walk rest

end

def Member.walk (m : Member α) : List (Node α) :=
  .member m :: (m.clause.toList.map .clause ++ m.result.toList.flatMap TypeExpr.walk)

def Interface.walk (i : Interface α) : List (Node α) :=
  .interface i :: i.members.flatMap Member.walk

def FunDecl.walk (f : FunDecl α) : List (Node α) :=
  .function f ::
    (f.result.toList.flatMap TypeExpr.walk ++ f.body.walk ++ f.clause.toList.map .clause)

def Program.walk (p : Program α) : List (Node α) :=
  .program p :: (p.functions.flatMap FunDecl.walk ++ p.errors.map .errorDecl ++
    p.types.map .typeDecl ++ p.interfaces.flatMap Interface.walk)

end RaisingEffects
