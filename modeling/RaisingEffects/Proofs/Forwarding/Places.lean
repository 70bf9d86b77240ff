import RaisingEffects.Proofs.Forwarding.Flags
import RaisingEffects.Proofs.Tree.Shape

/-!
# Forwarding rules of moved functions

The rule of a forwarding function keeps the places of the function and of the calls in its body, for
violations to be reported there. Everything else about the rule is the same wherever the function
stands (`Forwarding.ofFunction_move`), and so are the effects that it gives
(`Forwarding.resolve_move`, `Forwarding.callSite_move`).
-/

namespace RaisingEffects

section Moving

variable (place : Pos → Pos)

/-- The path at its new place. -/
def RaisePath.move (p : RaisePath) : RaisePath := { p with span := p.span.map (Span.move place) }

/-- The rule of a function at its new place. -/
def Forwarding.move (f : Forwarding) : Forwarding :=
  { f with
    paths := f.paths.map (RaisePath.move place)
    span := f.span.map (Span.move place) }

/-- The violation at its new place, if it has one. -/
def Violation.move (v : Violation) : Violation := { v with pos := v.pos.map place }

theorem Violation.move_locate (v : Violation) (pos : Pos) :
    (v.locate pos).move place = (v.move place).locate (place pos) := by
  obtain ⟨cause, _ | pos, leads⟩ := v <;> rfl

theorem RaisePath.move_id (p : RaisePath) : p.move (fun pos => pos) = p := by
  obtain ⟨parameter, converted, _ | span⟩ := p <;> rfl

theorem Forwarding.move_id (f : Forwarding) : f.move (fun pos => pos) = f := by
  obtain ⟨function, params, target, converts, paths, span, raising⟩ := f
  have hpaths : paths.map (RaisePath.move fun pos => pos) = paths := by
    rw [funext RaisePath.move_id, List.map_id']
  have hspan : span.map (Span.move fun pos => pos) = span := Option.map_id' ..
  simp only [Forwarding.move, hpaths, hspan]

theorem Violation.move_id (v : Violation) : v.move (fun pos => pos) = v := by
  obtain ⟨cause, _ | pos, leads⟩ := v <;> rfl

end Moving

/-! ## Paths -/

section Paths

variable (place : Pos → Pos) (f : Span → Span) (name : String) (names : List String)

theorem Part.raisesAgain_map (t : Part Span) :
    (t.map f).raisesAgain name = t.raisesAgain name := by
  induction t using Part.induction <;>
    simp_all [raisesAgain, map, Expr.name?_map, Body.map, Block.raisesAgain, Block.map,
      Stmt.raisesAgain, Stmt.map, Stmt.anyRaisesAgain, Stmt.mapAll, Else.raisesAgain, Else.map]

theorem rethrows_map (binding : Option String) (handler : Block Span) :
    rethrows binding (handler.map f) = rethrows binding handler := by
  cases binding with
  | none => rfl
  | some name => exact (Part.block handler).raisesAgain_map f name

theorem Part.raisePaths_move (c : Bool) (t : Part Span) :
    (t.map (Span.move place)).raisePaths names c =
      (t.raisePaths names c).map (RaisePath.move place) := by
  induction t using Part.induction generalizing c with
  | call _ callee args ih =>
    by_cases hcallee : callee ∈ names <;>
      simp_all [raisePaths, map, Expr.raisePaths, Expr.map, RaisePath.move, -Bool.forall_bool]
  | _ =>
    simp_all [raisePaths, map, Expr.raisePaths, Expr.map, Expr.raisePathsAll, Expr.mapAll, Body.map,
      Block.raisePathsFrom, Block.map, Stmt.raisePaths, Stmt.map, Stmt.raisePathsAll, Stmt.mapAll,
      Else.raisePaths, Else.map, rethrows_map, -Bool.forall_bool]

theorem Block.raisePathsFrom_move (c : Bool) (b : Block Span) :
    (b.map (Span.move place)).raisePathsFrom names c =
      (b.raisePathsFrom names c).map (RaisePath.move place) :=
  (Part.block b).raisePaths_move place names c

end Paths

/-! ## Rules -/

namespace Forwarding

variable (place : Pos → Pos)

theorem unhandled?_move (used : Table Effect) (target : Effect) (paths : List RaisePath) :
    unhandled? used target (paths.map (RaisePath.move place)) =
      (unhandled? used target paths).map fun r => (r.1.move place, r.2) := by
  rw [unhandled?, unhandled?, List.findSome?_map, List.map_findSome?]
  congr 1
  funext p
  simp only [Function.comp_apply, RaisePath.move]
  cases used.get? p.parameter with
  | none => rfl
  | some e => cases hescapes : p.converted || e.fits target <;> simp [hescapes]

/-- The place of a path, or else that of the rule, is moved with them. -/
theorem start_move (path rule : Option Span) :
    (path.map (Span.move place) <|> rule.map (Span.move place)).map Span.start =
      ((path <|> rule).map Span.start).map place := by
  cases path <;> cases rule <;> rfl

theorem resolve_move (f : Forwarding) (effects : Table Effect) :
    (f.move place).resolve effects = (f.resolve effects).mapError (Violation.move place) := by
  obtain ⟨function, params, _ | target, _ | _, paths, span, raising⟩ := f
  · rfl
  · rfl
  · simp only [resolve, move, raisingEffects]
    generalize List.find? _ _ = found
    cases found <;> cases span <;> rfl
  · simp only [resolve, move, raisingEffects, unhandled?_move, if_true]
    generalize unhandled? _ _ _ = found
    cases found with
    | none => rfl
    | some r => simp only [Option.map_some, RaisePath.move, start_move]; rfl

theorem callSite_move (f : Forwarding) (effects : Table Effect) :
    (f.move place).callSite effects = (f.callSite effects).mapError (Violation.move place) := by
  rw [callSite, callSite, apply_ite (Except.mapError (Violation.move place)), resolve_move]
  rfl

theorem make_move (function : String) (params : List ForwardedParam) (target : Option String)
    (converts : Bool) (paths : List RaisePath) (span : Option Span) :
    make function params target converts (paths.map (RaisePath.move place))
        (span.map (Span.move place)) =
      ((make function params target converts paths span).map (Forwarding.move place)).mapError
        (Violation.move place) := by
  unfold make
  split
  · rfl
  · cases span <;> rfl

theorem ofFunction_move (g : FunDecl Span) (effects : Table Effect) :
    ofFunction (g.map (Span.move place)) effects =
      ((ofFunction g effects).map (Forwarding.move place)).mapError (Violation.move place) := by
  simp only [ofFunction, FunDecl.map, Block.raisePaths, Block.raisePathsFrom_move, ← make_move,
    List.findIdx_map, List.any_map, Option.bind_map]
  rfl

end Forwarding

end RaisingEffects
