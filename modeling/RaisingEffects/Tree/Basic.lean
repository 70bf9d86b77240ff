import RaisingEffects.Number.Decimal
import RaisingEffects.Text.Place

/-!
# Syntax trees

The tree of a source. Every node that stands for a stretch of text carries a location of type `α`:
a `Span` when the tree is read, more once it is analysed, and nothing at all when only the shape
counts. The functions named `map` change the locations and keep the shape.

* `Clause`, `TypeExpr` and `Param` are what signatures are made of.
* `Expr`, `Stmt` and `Block` are the bodies of functions and closures.
* `Program` holds the declarations of a source.
-/

namespace RaisingEffects

/-! ## Signatures -/

/-- An effect clause: a bare `raises` without types, or `raises(T, ...)` with the types it names. -/
structure Clause (α : Type) where
  loc : α
  types : List String
deriving DecidableEq, Repr

inductive TypeExpr (α : Type) where
  /-- A named type with its arguments, as in `list<int>`. -/
  | named (loc : α) (name : String) (args : List (TypeExpr α))
  /-- A function type, as in `fn(A) raises(E) -> R`. -/
  | fn (loc : α) (params : List (TypeExpr α)) (clause : Option (Clause α))
      (result : Option (TypeExpr α))

structure Param (α : Type) where
  name : String
  type : Option (TypeExpr α)

/-! ## Expressions and statements -/

inductive Literal where
  | bool (value : Bool)
  | int (value : Nat)
  | float (value : Decimal)
  | string (value : String)
deriving DecidableEq, Repr

inductive CollectionKind where
  | list
  | set
deriving DecidableEq, Repr

def CollectionKind.noun : CollectionKind → String
  | list => "list"
  | set => "set"

inductive BinaryOp where
  | or | and | eq | ne | lt | le | gt | ge | add | sub | mul | div | mod
deriving DecidableEq, Repr

def BinaryOp.precedence : BinaryOp → Nat
  | or => 1
  | and => 2
  | eq | ne => 3
  | lt | le | gt | ge => 4
  | add | sub => 5
  | mul | div | mod => 6

inductive UnaryOp where
  | neg | not
deriving DecidableEq, Repr

inductive Insertion where
  | append | insert
deriving DecidableEq, Repr

mutual

inductive Expr (α : Type) where
  | name (loc : α) (id : String)
  | literal (loc : α) (value : Literal)
  | call (loc : α) (callee : String) (args : List (Expr α))
  /-- A closure. With a clause its body is a block. -/
  | closure (loc : α) (params : List (Param α)) (clause : Option (Clause α)) (body : Body α)
  | collection (loc : α) (kind : CollectionKind) (elements : List (Expr α))
  | binary (op : BinaryOp) (left right : Expr α)
  | unary (op : UnaryOp) (operand : Expr α)

inductive Body (α : Type) where
  | block (block : Block α)
  | expr (expr : Expr α)

inductive Block (α : Type) where
  | mk (loc : α) (statements : List (Stmt α))

inductive Stmt (α : Type) where
  | let_ (loc : α) (name : String) (isMut : Bool) (type : Option (TypeExpr α)) (value : Expr α)
  | assign (loc : α) (target : String) (value : Expr α)
  | return_ (loc : α) (value : Option (Expr α))
  | raise (loc : α) (value : Expr α)
  /-- A body whose errors the handler catches, under a name if there is one. -/
  | try_ (loc : α) (body : Block α) (binding : Option String) (handler : Block α)
  | insert (loc : α) (target : String) (how : Insertion) (value : Expr α)
  | for_ (target : String) (iterable : Expr α) (body : Block α)
  | while_ (condition : Expr α) (body : Block α)
  | if_ (test : Expr α) (body : Block α) (rest : Else α)
  | expr (value : Expr α)

inductive Else (α : Type) where
  | none
  | block (block : Block α)
  | elif (test : Expr α) (body : Block α) (rest : Else α)

end

def Block.loc {α : Type} : Block α → α
  | mk loc _ => loc

def Block.statements {α : Type} : Block α → List (Stmt α)
  | mk _ ss => ss

def Expr.name? {α : Type} : Expr α → Option String
  | .name _ id => some id
  | _ => none

/-- Where an expression stands, unless it is an operation, which has no place of its own. -/
def Expr.loc? {α : Type} : Expr α → Option α
  | .name loc _ | .literal loc _ | .call loc _ _ | .closure loc _ _ _ | .collection loc _ _ =>
    some loc
  | .binary .. | .unary .. => none

/-! ## Declarations -/

/-- A declaration that only introduces a name: `error Name;` or `type Name;`. -/
structure NameDecl (α : Type) where
  loc : α
  name : String

/-- A function that an interface asks for. -/
structure Member (α : Type) where
  loc : α
  name : String
  modifiers : List String
  params : List (Param α)
  clause : Option (Clause α)
  result : Option (TypeExpr α)

structure Interface (α : Type) where
  loc : α
  name : String
  members : List (Member α)

/-- A function. Its location covers the signature only. With a `forwards` list its effect is that
of the parameters named there. -/
structure FunDecl (α : Type) where
  loc : α
  name : String
  params : List (Param α)
  forwards : List String
  clause : Option (Clause α)
  result : Option (TypeExpr α)
  body : Block α

/-- The declarations of a source, each kind in source order. -/
structure Program (α : Type) where
  functions : List (FunDecl α) := []
  errors : List (NameDecl α) := []
  types : List (NameDecl α) := []
  interfaces : List (Interface α) := []

/-! ## Changing the locations -/

section Map

variable {α β : Type} (f : α → β)

def Clause.map (c : Clause α) : Clause β := ⟨f c.loc, c.types⟩

mutual

def TypeExpr.map : TypeExpr α → TypeExpr β
  | .named loc name args => .named (f loc) name (TypeExpr.mapAll args)
  | .fn loc params clause none => .fn (f loc) (TypeExpr.mapAll params) (clause.map (·.map f)) none
  | .fn loc params clause (some result) =>
    .fn (f loc) (TypeExpr.mapAll params) (clause.map (·.map f)) (some (TypeExpr.map result))

def TypeExpr.mapAll : List (TypeExpr α) → List (TypeExpr β)
  | [] => []
  | t :: ts => TypeExpr.map t :: TypeExpr.mapAll ts

end

def Param.map (p : Param α) : Param β := ⟨p.name, p.type.map (·.map f)⟩

mutual

def Expr.map : Expr α → Expr β
  | .name loc id => .name (f loc) id
  | .literal loc value => .literal (f loc) value
  | .call loc callee args => .call (f loc) callee (Expr.mapAll args)
  | .closure loc params clause body =>
    .closure (f loc) (params.map (·.map f)) (clause.map (·.map f)) (Body.map body)
  | .collection loc kind elements => .collection (f loc) kind (Expr.mapAll elements)
  | .binary op left right => .binary op (Expr.map left) (Expr.map right)
  | .unary op operand => .unary op (Expr.map operand)

def Expr.mapAll : List (Expr α) → List (Expr β)
  | [] => []
  | e :: es => Expr.map e :: Expr.mapAll es

def Body.map : Body α → Body β
  | .block block => .block (Block.map block)
  | .expr expr => .expr (Expr.map expr)

def Block.map : Block α → Block β
  | .mk loc ss => .mk (f loc) (Stmt.mapAll ss)

def Stmt.map : Stmt α → Stmt β
  | .let_ loc name isMut type value =>
    .let_ (f loc) name isMut (type.map (·.map f)) (Expr.map value)
  | .assign loc target value => .assign (f loc) target (Expr.map value)
  | .return_ loc none => .return_ (f loc) none
  | .return_ loc (some value) => .return_ (f loc) (some (Expr.map value))
  | .raise loc value => .raise (f loc) (Expr.map value)
  | .try_ loc body binding handler => .try_ (f loc) (Block.map body) binding (Block.map handler)
  | .insert loc target how value => .insert (f loc) target how (Expr.map value)
  | .for_ target iterable body => .for_ target (Expr.map iterable) (Block.map body)
  | .while_ condition body => .while_ (Expr.map condition) (Block.map body)
  | .if_ test body rest => .if_ (Expr.map test) (Block.map body) (Else.map rest)
  | .expr value => .expr (Expr.map value)

def Stmt.mapAll : List (Stmt α) → List (Stmt β)
  | [] => []
  | s :: ss => Stmt.map s :: Stmt.mapAll ss

def Else.map : Else α → Else β
  | .none => .none
  | .block block => .block (Block.map block)
  | .elif test body rest => .elif (Expr.map test) (Block.map body) (Else.map rest)

end

def NameDecl.map (d : NameDecl α) : NameDecl β := ⟨f d.loc, d.name⟩

def Member.map (m : Member α) : Member β where
  loc := f m.loc
  name := m.name
  modifiers := m.modifiers
  params := m.params.map (·.map f)
  clause := m.clause.map (·.map f)
  result := m.result.map (·.map f)

def Interface.map (i : Interface α) : Interface β :=
  ⟨f i.loc, i.name, i.members.map (·.map f)⟩

def FunDecl.map (g : FunDecl α) : FunDecl β where
  loc := f g.loc
  name := g.name
  params := g.params.map (·.map f)
  forwards := g.forwards
  clause := g.clause.map (·.map f)
  result := g.result.map (·.map f)
  body := g.body.map f

def Program.map (p : Program α) : Program β where
  functions := p.functions.map (·.map f)
  errors := p.errors.map (·.map f)
  types := p.types.map (·.map f)
  interfaces := p.interfaces.map (·.map f)

end Map

end RaisingEffects
