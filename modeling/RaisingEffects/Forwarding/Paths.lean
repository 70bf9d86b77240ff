import RaisingEffects.Tree.Basic

/-!
# Raise paths

The calls of forwarded parameters in a body, outside the closures in it. Such a call is converted
when a handler around it keeps what it raises from escaping: a handler that does not raise the
caught value again.

* `Block.raisePaths` lists the paths in the order of the source.
* `Block.raisesAgain` tells whether a handler raises a name.
-/

namespace RaisingEffects

/-- A call of a forwarded parameter, and whether what it raises is converted. -/
structure RaisePath where
  parameter : String
  converted : Bool
  span : Option Span := none
deriving DecidableEq, Repr

mutual

/-- Whether a block raises the value of the name, outside closures. -/
def Block.raisesAgain (name : String) : Block Span → Bool
  | .mk _ ss => Stmt.anyRaisesAgain name ss

def Stmt.raisesAgain (name : String) : Stmt Span → Bool
  | .raise _ value => value.name? = some name
  | .try_ _ body _ handler => Block.raisesAgain name body || Block.raisesAgain name handler
  | .for_ _ _ body => Block.raisesAgain name body
  | .while_ _ body => Block.raisesAgain name body
  | .if_ _ body rest => Block.raisesAgain name body || Else.raisesAgain name rest
  | .let_ .. | .assign .. | .return_ .. | .insert .. | .expr _ => false

def Stmt.anyRaisesAgain (name : String) : List (Stmt Span) → Bool
  | [] => false
  | s :: ss => Stmt.raisesAgain name s || Stmt.anyRaisesAgain name ss

def Else.raisesAgain (name : String) : Else Span → Bool
  | .none => false
  | .block b => Block.raisesAgain name b
  | .elif _ body rest => Block.raisesAgain name body || Else.raisesAgain name rest

end

section Paths

variable (names : List String)

mutual

def Expr.raisePaths (converted : Bool) : Expr Span → List RaisePath
  | .name .. | .literal .. | .closure .. => []
  | .call span callee args =>
    let inner := Expr.raisePathsAll converted args
    if callee ∈ names then ⟨callee, converted, some span⟩ :: inner else inner
  | .collection _ _ elements => Expr.raisePathsAll converted elements
  | .binary _ left right => Expr.raisePaths converted left ++ Expr.raisePaths converted right
  | .unary _ operand => Expr.raisePaths converted operand

def Expr.raisePathsAll (converted : Bool) : List (Expr Span) → List RaisePath
  | [] => []
  | e :: es => Expr.raisePaths converted e ++ Expr.raisePathsAll converted es

end

/-- Whether a handler lets the caught value escape. -/
def rethrows (binding : Option String) (handler : Block Span) : Bool :=
  binding.any fun name => handler.raisesAgain name

mutual

def Block.raisePathsFrom (converted : Bool) : Block Span → List RaisePath
  | .mk _ ss => Stmt.raisePathsAll converted ss

def Stmt.raisePaths (converted : Bool) : Stmt Span → List RaisePath
  | .let_ _ _ _ _ value | .assign _ _ value | .raise _ value | .insert _ _ _ value
  | .expr value => Expr.raisePaths names converted value
  | .return_ _ value => value.elim [] (Expr.raisePaths names converted)
  | .try_ _ body binding handler =>
    Block.raisePathsFrom (converted || !rethrows binding handler) body ++
      Block.raisePathsFrom converted handler
  | .for_ _ iterable body =>
    Expr.raisePaths names converted iterable ++ Block.raisePathsFrom converted body
  | .while_ condition body =>
    Expr.raisePaths names converted condition ++ Block.raisePathsFrom converted body
  | .if_ test body rest =>
    Expr.raisePaths names converted test ++ Block.raisePathsFrom converted body ++
      Else.raisePaths converted rest

def Stmt.raisePathsAll (converted : Bool) : List (Stmt Span) → List RaisePath
  | [] => []
  | s :: ss => Stmt.raisePaths converted s ++ Stmt.raisePathsAll converted ss

def Else.raisePaths (converted : Bool) : Else Span → List RaisePath
  | .none => []
  | .block b => Block.raisePathsFrom converted b
  | .elif test body rest =>
    Expr.raisePaths names converted test ++ Block.raisePathsFrom converted body ++
      Else.raisePaths converted rest

end

end Paths

/-- The raise paths of the named parameters in a body. -/
def Block.raisePaths (names : List String) (body : Block Span) : List RaisePath :=
  Block.raisePathsFrom names false body

end RaisingEffects
