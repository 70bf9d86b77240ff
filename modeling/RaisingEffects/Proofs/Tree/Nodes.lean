import RaisingEffects.Proofs.Tree.Parts

/-!
# The nodes of a tree in the order of the source

A walk over a tree leaves out the types of parameters, and lists the first test of a conditional
twice. The functions named `nodes` list every node once, those of the types of parameters too, in
the order in which they start in the source: this is what positions are about.

* `Node.parts` are the nodes directly below a node, the types of its parameters included.
* `Node.start?` is where a node starts.
-/

namespace RaisingEffects

variable {α : Type} {n : Node Span}

/-! ## Parts -/

/-- The types of a parameter, as nodes. -/
def Param.parts (p : Param α) : List (Node α) := p.type.toList.map .type

def Expr.params : Expr α → List (Param α)
  | .closure _ params _ _ => params
  | _ => []

def Node.params : Node α → List (Param α)
  | .expr e | .stmt (.expr e) => e.params
  | .member m => m.params
  | .function g => g.params
  | _ => []

/-- The nodes directly below a node, the types of its parameters included. -/
def Node.parts (n : Node α) : List (Node α) := n.params.flatMap Param.parts ++ n.children

/-- Whether a node is a function. The place of a function is that of its signature. -/
def Node.isFunction : Node α → Bool
  | .function _ => true
  | _ => false

/-- Where a node starts, if it has a place of its own. -/
def Node.start? (n : Node Span) : Option Pos := n.loc?.map Span.start

/-- Where the nodes start that have a place of their own. -/
def Node.starts (ns : List (Node Span)) : List Pos := ns.filterMap Node.start?

theorem Node.starts_append (ns ms : List (Node Span)) :
    Node.starts (ns ++ ms) = Node.starts ns ++ Node.starts ms :=
  List.filterMap_append

theorem Node.starts_cons_of_loc {loc : Span} (h : n.loc? = some loc) (ns : List (Node Span)) :
    Node.starts (n :: ns) = loc.start :: Node.starts ns := by
  simp [Node.starts, Node.start?, h]

theorem Node.starts_cons_of_none (h : n.loc? = none) (ns : List (Node Span)) :
    Node.starts (n :: ns) = Node.starts ns := by
  simp [Node.starts, Node.start?, h]

theorem Node.mem_starts {ns : List (Node Span)} {pos : Pos} (hn : n ∈ ns)
    (hpos : n.start? = some pos) : pos ∈ Node.starts ns :=
  List.mem_filterMap.2 ⟨n, hn, hpos⟩

/-! ## Names -/

/-- The names that are written at a node itself. -/
def Node.names : Node α → List String
  | .expr (.name _ id) => [id]
  | .expr (.call _ callee _) => [callee]
  | .stmt (.let_ _ name ..) => [name]
  | .stmt (.assign _ target _) => [target]
  | .clause c => c.types
  | .type (.named _ name _) => [name]
  | .member m => [m.name]
  | .function g => g.name :: g.forwards
  | .interface i => [i.name]
  | _ => []

/-! ## Nodes in the order of the source -/

def Param.nodes (p : Param α) : List (Node α) := p.type.toList.flatMap TypeExpr.walk

mutual

def Expr.nodes : Expr α → List (Node α)
  | .name loc id => [.expr (.name loc id)]
  | .literal loc value => [.expr (.literal loc value)]
  | .call loc callee args => .expr (.call loc callee args) :: Expr.nodesAll args
  | .closure loc params clause body =>
    .expr (.closure loc params clause body) ::
      (params.flatMap Param.nodes ++ (clause.toList.map .clause ++ Body.nodes body))
  | .collection loc kind elements => .expr (.collection loc kind elements) :: Expr.nodesAll elements
  | .binary op l r => .expr (.binary op l r) :: (Expr.nodes l ++ Expr.nodes r)
  | .unary op e => .expr (.unary op e) :: Expr.nodes e

def Expr.nodesAll : List (Expr α) → List (Node α)
  | [] => []
  | e :: es => Expr.nodes e ++ Expr.nodesAll es

def Body.nodes : Body α → List (Node α)
  | .block b => Block.nodes b
  | .expr e => Expr.nodes e

def Block.nodes : Block α → List (Node α)
  | .mk loc ss => .block (.mk loc ss) :: Stmt.nodesAll ss

def Stmt.nodes : Stmt α → List (Node α)
  | .let_ loc name isMut type value =>
    .stmt (.let_ loc name isMut type value) ::
      (type.toList.flatMap TypeExpr.walk ++ Expr.nodes value)
  | .assign loc target value => .stmt (.assign loc target value) :: Expr.nodes value
  | .return_ loc none => [.stmt (.return_ loc none)]
  | .return_ loc (some value) => .stmt (.return_ loc (some value)) :: Expr.nodes value
  | .raise loc value => .stmt (.raise loc value) :: Expr.nodes value
  | .try_ loc body binding handler =>
    .stmt (.try_ loc body binding handler) :: (Block.nodes body ++ Block.nodes handler)
  | .insert loc target how value => .stmt (.insert loc target how value) :: Expr.nodes value
  | .for_ target iterable body =>
    .stmt (.for_ target iterable body) :: (Expr.nodes iterable ++ Block.nodes body)
  | .while_ condition body =>
    .stmt (.while_ condition body) :: (Expr.nodes condition ++ Block.nodes body)
  | .if_ test body rest =>
    .stmt (.if_ test body rest) :: (Expr.nodes test ++ (Block.nodes body ++ Else.nodes rest))
  | .expr value => Expr.nodes value

def Stmt.nodesAll : List (Stmt α) → List (Node α)
  | [] => []
  | s :: ss => Stmt.nodes s ++ Stmt.nodesAll ss

def Else.nodes : Else α → List (Node α)
  | .none => []
  | .block b => Block.nodes b
  | .elif test body rest => Expr.nodes test ++ (Block.nodes body ++ Else.nodes rest)

end

/-- The nodes of a part, each once. -/
def Part.nodes : Part α → List (Node α)
  | expr e => e.nodes
  | exprs es => Expr.nodesAll es
  | body b => b.nodes
  | block b => b.nodes
  | stmt t => t.nodes
  | stmts ts => Stmt.nodesAll ts
  | rest r => r.nodes

theorem Expr.mem_nodes (e : Expr α) : Node.expr e ∈ e.nodes := by
  cases e <;> simp [Expr.nodes]

theorem Expr.nodesAll_eq (es : List (Expr α)) : Expr.nodesAll es = es.flatMap Expr.nodes := by
  induction es with
  | nil => rw [Expr.nodesAll, List.flatMap_nil]
  | cons e es ih => rw [Expr.nodesAll, List.flatMap_cons, ih]

theorem Stmt.nodesAll_eq (ss : List (Stmt α)) : Stmt.nodesAll ss = ss.flatMap Stmt.nodes := by
  induction ss with
  | nil => rw [Stmt.nodesAll, List.flatMap_nil]
  | cons s ss ih => rw [Stmt.nodesAll, List.flatMap_cons, ih]

def Member.nodes (m : Member α) : List (Node α) :=
  .member m :: (m.params.flatMap Param.nodes ++
    (m.clause.toList.map .clause ++ m.result.toList.flatMap TypeExpr.walk))

def Interface.nodes (i : Interface α) : List (Node α) :=
  .interface i :: i.members.flatMap Member.nodes

def FunDecl.signatureNodes (g : FunDecl α) : List (Node α) :=
  g.params.flatMap Param.nodes ++
    (g.clause.toList.map .clause ++ g.result.toList.flatMap TypeExpr.walk)

def FunDecl.nodes (g : FunDecl α) : List (Node α) :=
  .function g :: (g.signatureNodes ++ g.body.nodes)

/-- The nodes of a program, those of each kind of declarations in the order of the source. -/
def Program.nodes (p : Program α) : List (Node α) :=
  .program p :: (p.functions.flatMap FunDecl.nodes ++ p.errors.map .errorDecl ++
    p.types.map .typeDecl ++ p.interfaces.flatMap Interface.nodes)

end RaisingEffects
