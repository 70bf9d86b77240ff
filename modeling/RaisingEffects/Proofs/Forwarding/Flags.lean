import RaisingEffects.Forwarding.Paths
import RaisingEffects.Proofs.Tree.Nodes

/-!
# The nodes outside closures, with flags

The functions named `flagged` list the nodes of a body outside closures in the order of the source.
The flag of a node tells whether what it raises is converted by a `try` around it. A walk that
collects raise paths or looks for raises visits exactly these nodes: both are read off the list
(`Part.raisePaths_eq`, `Part.flagged_any_raises`).
-/

namespace RaisingEffects

/-! ## The lists -/

mutual

/-- The nodes of an expression outside closures, all with the same flag. -/
def Expr.flagged (c : Bool) : Expr Span → List (Bool × Node Span)
  | .name span id => [(c, .expr (.name span id))]
  | .literal span value => [(c, .expr (.literal span value))]
  | .call span callee args => (c, .expr (.call span callee args)) :: Expr.flaggedAll c args
  | .closure span params clause body => [(c, .expr (.closure span params clause body))]
  | .collection span kind elements =>
    (c, .expr (.collection span kind elements)) :: Expr.flaggedAll c elements
  | .binary op left right =>
    (c, .expr (.binary op left right)) :: (Expr.flagged c left ++ Expr.flagged c right)
  | .unary op operand => (c, .expr (.unary op operand)) :: Expr.flagged c operand

def Expr.flaggedAll (c : Bool) : List (Expr Span) → List (Bool × Node Span)
  | [] => []
  | e :: es => Expr.flagged c e ++ Expr.flaggedAll c es

end

mutual

/-- The nodes of a block outside closures. The flag of a node tells whether what it raises is
converted, and `c` whether what the block raises is. -/
def Block.flagged (c : Bool) : Block Span → List (Bool × Node Span)
  | .mk span ss => (c, .block (.mk span ss)) :: Stmt.flaggedAll c ss

def Stmt.flagged (c : Bool) : Stmt Span → List (Bool × Node Span)
  | .let_ span name isMut type value =>
    (c, .stmt (.let_ span name isMut type value)) ::
      (type.toList.map (fun t => (c, .type t)) ++ value.flagged c)
  | .assign span target value => (c, .stmt (.assign span target value)) :: value.flagged c
  | .return_ span none => [(c, .stmt (.return_ span none))]
  | .return_ span (some value) => (c, .stmt (.return_ span (some value))) :: value.flagged c
  | .raise span value => (c, .stmt (.raise span value)) :: value.flagged c
  | .try_ span body binding handler =>
    (c, .stmt (.try_ span body binding handler)) ::
      (Block.flagged (c || !rethrows binding handler) body ++ Block.flagged c handler)
  | .insert span target how value => (c, .stmt (.insert span target how value)) :: value.flagged c
  | .for_ target iterable body =>
    (c, .stmt (.for_ target iterable body)) :: (iterable.flagged c ++ Block.flagged c body)
  | .while_ condition body =>
    (c, .stmt (.while_ condition body)) :: (condition.flagged c ++ Block.flagged c body)
  | .if_ test body rest =>
    (c, .stmt (.if_ test body rest)) ::
      (test.flagged c ++ (Block.flagged c body ++ Else.flagged c rest))
  | .expr value => value.flagged c

def Stmt.flaggedAll (c : Bool) : List (Stmt Span) → List (Bool × Node Span)
  | [] => []
  | s :: ss => Stmt.flagged c s ++ Stmt.flaggedAll c ss

def Else.flagged (c : Bool) : Else Span → List (Bool × Node Span)
  | .none => []
  | .block b => Block.flagged c b
  | .elif test body rest => test.flagged c ++ (Block.flagged c body ++ Else.flagged c rest)

end

namespace Part

/-- The nodes of a part outside closures, with their flags. -/
def flagged (c : Bool) : Part Span → List (Bool × Node Span)
  | expr e | body (.expr e) => e.flagged c
  | exprs es => Expr.flaggedAll c es
  | block b | body (.block b) => b.flagged c
  | stmt t => t.flagged c
  | stmts ts => Stmt.flaggedAll c ts
  | rest r => r.flagged c

def raisePaths (names : List String) (c : Bool) : Part Span → List RaisePath
  | expr e | body (.expr e) => e.raisePaths names c
  | exprs es => Expr.raisePathsAll names c es
  | block b | body (.block b) => b.raisePathsFrom names c
  | stmt t => t.raisePaths names c
  | stmts ts => Stmt.raisePathsAll names c ts
  | rest r => r.raisePaths names c

def raisesAgain (name : String) : Part Span → Bool
  | expr _ | exprs _ | body (.expr _) => false
  | block b | body (.block b) => b.raisesAgain name
  | stmt t => t.raisesAgain name
  | stmts ts => Stmt.anyRaisesAgain name ts
  | rest r => r.raisesAgain name

end Part

/-! ## They are nodes in the order of the source -/

theorem TypeExpr.self_sublist_walk (t : TypeExpr Span) : [Node.type t].Sublist t.walk := by
  cases t with
  | named => exact (List.nil_sublist _).cons_cons _
  | fn loc params clause result =>
    rw [TypeExpr.walk_fn]
    exact (List.nil_sublist _).cons_cons _

theorem Part.flagged_sublist (c : Bool) (t : Part Span) :
    ((t.flagged c).map Prod.snd).Sublist t.nodes := by
  induction t using Part.induction generalizing c with
  | let_ _ _ _ type value ih =>
    simp only [flagged, Stmt.flagged, List.map_cons, List.map_append]
    refine (List.Sublist.append ?_ (ih c)).cons_cons _
    cases type with
    | none => exact .refl _
    | some t => simpa using t.self_sublist_walk
  | _ =>
    simp_all [flagged, nodes, Expr.flagged, Expr.flaggedAll, Expr.nodes, Expr.nodesAll, Body.nodes,
      Block.flagged, Block.nodes, Stmt.flagged, Stmt.flaggedAll, Stmt.nodes, Stmt.nodesAll,
      Else.flagged, Else.nodes, List.Sublist.append, -Bool.forall_bool]

/-! ## Raise paths are read off them -/

/-- The path of a flagged node, if it is a call of one of the names. -/
def RaisePath.of? (names : List String) : Bool × Node Span → Option RaisePath
  | (c, .expr (.call span callee _)) =>
    if callee ∈ names then some ⟨callee, c, some span⟩ else none
  | _ => none

theorem RaisePath.of?_eq_some {names : List String} {x : Bool × Node Span} {p : RaisePath}
    (h : of? names x = some p) :
    ∃ span args, x = (p.converted, .expr (.call span p.parameter args)) ∧
      p.parameter ∈ names ∧ p.span = some span := by
  unfold of? at h
  split at h
  · rename_i c span callee args
    split at h
    · rename_i hcallee
      cases h
      exact ⟨span, args, rfl, hcallee, rfl⟩
    · cases h
  · cases h

theorem Part.raisePaths_eq (names : List String) (c : Bool) (t : Part Span) :
    t.raisePaths names c = (t.flagged c).filterMap (RaisePath.of? names) := by
  induction t using Part.induction generalizing c with
  | call span callee args ih =>
    by_cases hcallee : callee ∈ names <;>
      simp_all [raisePaths, flagged, Expr.raisePaths, Expr.flagged, RaisePath.of?,
        -Bool.forall_bool]
  | let_ _ _ _ type value ih =>
    cases type <;>
      simp_all [raisePaths, flagged, Stmt.raisePaths, Stmt.flagged, List.filterMap_cons,
        RaisePath.of?, -Bool.forall_bool]
  | _ =>
    simp_all [raisePaths, flagged, Expr.raisePaths, Expr.raisePathsAll, Expr.flagged,
      Expr.flaggedAll, Block.raisePathsFrom, Block.flagged, Stmt.raisePaths, Stmt.raisePathsAll,
      Stmt.flagged, Stmt.flaggedAll, Else.raisePaths, Else.flagged, RaisePath.of?,
      List.filterMap_cons, -Bool.forall_bool]

/-! ## Raises are read off them -/

/-- Whether a node is a statement that raises the value of the name. -/
def Node.raises (name : String) : Node Span → Bool
  | .stmt (.raise _ value) => value.name? = some name
  | _ => false

theorem Part.flagged_any_raises (name : String) (c : Bool) (t : Part Span) :
    (t.flagged c).any (fun x => x.2.raises name) = t.raisesAgain name := by
  induction t using Part.induction generalizing c with
  | let_ _ _ _ type value ih =>
    cases type <;>
      simp_all [raisesAgain, flagged, Stmt.raisesAgain, Stmt.flagged, Node.raises,
        -Bool.forall_bool, -List.any_eq_false]
  | _ =>
    simp_all [raisesAgain, flagged, Expr.flagged, Expr.flaggedAll, Block.raisesAgain, Block.flagged,
      Stmt.raisesAgain, Stmt.anyRaisesAgain, Stmt.flagged, Stmt.flaggedAll, Else.raisesAgain,
      Else.flagged, Node.raises, -Bool.forall_bool, -List.any_eq_false]

end RaisingEffects
