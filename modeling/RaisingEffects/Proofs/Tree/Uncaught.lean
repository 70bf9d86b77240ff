import Mathlib.Logic.Relation
import RaisingEffects.Proofs.Tree.Shape

/-!
# Uncaught raises and calls

A node of a body is exposed when it is reached from the body without entering a closure or the body
of a `try`: what it raises leaves the body. `Node.exposed` is one step of that, and
`Block.uncaught`, `Body.uncaught` list the raises and calls that are reached, arguments before the
call they belong to. `Part.mem_uncaught_iff` says of every part that its list holds exactly the
exposed raises and calls.
-/

namespace RaisingEffects

variable {α : Type}

/-! ## The lists -/

mutual

/-- The calls in an expression, outside closures. -/
def Expr.uncaught : Expr α → List (Node α)
  | .name .. | .literal .. | .closure .. => []
  | .call loc callee args => Expr.uncaughtAll args ++ [.expr (.call loc callee args)]
  | .collection _ _ elements => Expr.uncaughtAll elements
  | .binary _ left right => Expr.uncaught left ++ Expr.uncaught right
  | .unary _ operand => Expr.uncaught operand

def Expr.uncaughtAll : List (Expr α) → List (Node α)
  | [] => []
  | e :: es => Expr.uncaught e ++ Expr.uncaughtAll es

end

mutual

/-- The raises and calls in a block, outside closures and the bodies of `try`. -/
def Block.uncaught : Block α → List (Node α)
  | .mk _ ss => Stmt.uncaughtAll ss

def Stmt.uncaught : Stmt α → List (Node α)
  | .let_ _ _ _ _ value | .assign _ _ value | .insert _ _ _ value | .expr value => value.uncaught
  | .return_ _ none => []
  | .return_ _ (some value) => value.uncaught
  | .raise loc value => value.uncaught ++ [.stmt (.raise loc value)]
  | .try_ _ _ _ handler => Block.uncaught handler
  | .for_ _ iterable body => iterable.uncaught ++ Block.uncaught body
  | .while_ condition body => condition.uncaught ++ Block.uncaught body
  | .if_ test body rest => test.uncaught ++ Block.uncaught body ++ Else.uncaught rest

def Stmt.uncaughtAll : List (Stmt α) → List (Node α)
  | [] => []
  | s :: ss => Stmt.uncaught s ++ Stmt.uncaughtAll ss

def Else.uncaught : Else α → List (Node α)
  | .none => []
  | .block b => Block.uncaught b
  | .elif test body rest => test.uncaught ++ Block.uncaught body ++ Else.uncaught rest

end

def Body.uncaught : Body α → List (Node α)
  | .block b => b.uncaught
  | .expr e => e.uncaught

def Part.uncaught : Part α → List (Node α)
  | expr e => e.uncaught
  | exprs es => Expr.uncaughtAll es
  | body b => b.uncaught
  | block b => b.uncaught
  | stmt t => t.uncaught
  | stmts ts => Stmt.uncaughtAll ts
  | rest r => r.uncaught

/-! ## Reaching them -/

namespace Node

/-- Whether a node is a raise or a call. -/
def contributes : Node α → Bool
  | .expr (.call ..) | .stmt (.raise ..) => true
  | _ => false

def callee? : Node α → Option String
  | .expr (.call _ callee _) => some callee
  | _ => none

/-- The nodes directly below a node, except what is in a closure or in the body of a `try`. -/
def exposed : Node α → List (Node α)
  | .expr (.closure ..) => []
  | .stmt (.try_ _ _ _ handler) => [.block handler]
  | .stmt (.expr e) => [.expr e]
  | n => n.children

/-- The second node is reached from the first without entering a closure or the body of a `try`. -/
def Exposes : Node α → Node α → Prop := Relation.ReflTransGen fun n m => m ∈ n.exposed

/-- The second node is a raise or call that is reached from the first. -/
def Reveals (n m : Node α) : Prop := n.Exposes m ∧ m.contributes = true

/-- A raise or call is reached from itself, and by way of the nodes below a node. -/
theorem reveals_iff {n m : Node α} :
    n.Reveals m ↔ (∃ k ∈ n.exposed, k.Reveals m) ∨ m = n ∧ n.contributes = true := by
  rw [Reveals, Exposes, Relation.ReflTransGen.cases_head_iff]
  constructor
  · rintro ⟨rfl | ⟨k, hk, h⟩, hm⟩
    · exact .inr ⟨rfl, hm⟩
    · exact .inl ⟨k, hk, h, hm⟩
  · rintro (⟨k, hk, h, hm⟩ | ⟨rfl, hm⟩)
    · exact ⟨.inr ⟨k, hk, h⟩, hm⟩
    · exact ⟨.inl rfl, hm⟩

theorem ofSignature_of_mem_exposed {n m : Node α} (h : n.ofSignature = true)
    (hm : m ∈ n.exposed) : m.ofSignature = true := by
  cases n with
  | clause => cases hm
  | type t =>
    cases t with
    | named loc name args =>
      obtain ⟨t, -, rfl⟩ := List.mem_map.1 hm
      rfl
    | fn loc params clause result =>
      simp only [exposed, children, List.mem_append, List.mem_map] at hm
      obtain (⟨t, -, rfl⟩ | ⟨c, -, rfl⟩) | ⟨t, -, rfl⟩ := hm <;> rfl
  | _ => cases h

theorem Exposes.ofSignature {n m : Node α} (h : n.Exposes m) (hn : n.ofSignature = true) :
    m.ofSignature = true := by
  induction h with
  | refl => exact hn
  | tail _ hm ih => exact ofSignature_of_mem_exposed ih hm

/-- Types and clauses raise nothing. -/
theorem not_reveals_type {t : TypeExpr α} {m : Node α} : ¬(Node.type t).Reveals m := by
  rintro ⟨h, hm⟩
  have hsig := h.ofSignature rfl
  cases m <;> first | cases hm | cases hsig

end Node

/-- **The list of a part holds exactly the raises and calls that are reached from its top without
entering a closure or the body of a `try`.** -/
theorem Part.mem_uncaught_iff {n : Node α} (t : Part α) :
    n ∈ t.uncaught ↔ ∃ k ∈ t.tops, k.Reveals n := by
  induction t using Part.induction with
  | exprsNil | exprsCons | bodyBlock | bodyExpr | stmtExpr | stmtsNil | stmtsCons | restNone
  | restBlock | elif =>
    simp_all [uncaught, tops, Expr.uncaughtAll, Body.uncaught, Stmt.uncaught, Stmt.uncaughtAll,
      Else.uncaught, Node.ofBody, Node.ofStmt, Node.ofElse]
  | _ =>
    simp only [tops, Node.ofStmt, List.mem_singleton, exists_eq_left]
    rw [Node.reveals_iff]
    simp_all [uncaught, tops, Expr.uncaught, Block.uncaught, Block.statements, Stmt.uncaught,
      Node.contributes, Node.exposed, Node.children, Node.ofExpr, Node.not_reveals_type]

theorem Block.mem_uncaught_iff {b : Block α} {n : Node α} :
    n ∈ b.uncaught ↔ (Node.block b).Exposes n ∧ n.contributes = true :=
  (Part.block b).mem_uncaught_iff.trans (by simp [Part.tops, Node.Reveals])

theorem Body.mem_uncaught_iff {b : Body α} {n : Node α} :
    n ∈ b.uncaught ↔ (Node.ofBody b).Exposes n ∧ n.contributes = true :=
  (Part.body b).mem_uncaught_iff.trans (by simp [Part.tops, Node.Reveals])

end RaisingEffects
