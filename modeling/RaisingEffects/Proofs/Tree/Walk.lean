import RaisingEffects.Proofs.Tree.Nodes
import RaisingEffects.Proofs.Tree.Uncaught

/-!
# What a walk comes to

A walk lists a node and then what the walks over the nodes below it list (`Node.walk_eq`), so what
is said of walks is shown by induction over the nodes below (`Node.below_induction`). A walk lists
what is below the nodes that it lists; `ClosedBelow` says so of a list of nodes, types and clauses
apart, and `Program.bodies_closed` is the statement about the bodies of a program. It follows that
what a listed node exposes is listed too (`ClosedBelow.exposes`).
-/

namespace RaisingEffects

variable {α : Type}

/-! ## Walks from node to node -/

/-- Whether a node is an expression that stands as a statement. A walk lists the expression. -/
def Node.isWrapped : Node α → Bool
  | .stmt (.expr _) => true
  | _ => false

/-- The node and all nodes below it, parents before children. -/
def Node.walk : Node α → List (Node α)
  | clause c => c.walk
  | type t => t.walk
  | expr e => e.walk
  | block b => b.walk
  | stmt t => t.walk
  | errorDecl d => [errorDecl d]
  | typeDecl d => [typeDecl d]
  | member m => m.walk
  | interface i => i.walk
  | function g => g.walk
  | program p => p.walk

theorem Expr.walkAll_eq (es : List (Expr α)) : Expr.walkAll es = es.flatMap Expr.walk := by
  induction es with
  | nil => rw [Expr.walkAll, List.flatMap_nil]
  | cons e es ih => rw [Expr.walkAll, List.flatMap_cons, ih]

theorem Stmt.walkAll_eq (ts : List (Stmt α)) : Stmt.walkAll ts = ts.flatMap Stmt.walk := by
  induction ts with
  | nil => rw [Stmt.walkAll, List.flatMap_nil]
  | cons t ts ih => rw [Stmt.walkAll, List.flatMap_cons, ih]

namespace Node

variable {n m k : Node α}

theorem walk_ofStmt (t : Stmt α) : (ofStmt t).walk = t.walk := by
  cases t <;> rfl

theorem walk_ofBody (b : Body α) : (ofBody b).walk = b.walk := by
  cases b <;> rfl

theorem walk_ofElse : (r : Else α) → (ofElse r).flatMap walk = r.walk
  | .none => by simp [ofElse, Else.walk]
  | .block b => by simp [ofElse, walk, Else.walk]
  | .elif t b r => by simp [ofElse, walk, Else.walk, walk_ofElse r]

/-- **A walk lists the node, and then what is below it.** -/
theorem walk_eq (h : n.isWrapped = false) : n.walk = n :: n.children.flatMap walk := by
  have hclauses (c : Option (Clause α)) : (c.toList.map clause).flatMap walk =
      c.toList.map clause := by cases c <;> rfl
  cases n with
  | clause | errorDecl | typeDecl => rfl
  | type t =>
    cases t with
    | named => simp [walk, TypeExpr.walk, TypeExpr.walkAll_eq, children, List.flatMap_map]
    | fn => simp [walk, TypeExpr.walk_fn, children, hclauses, List.flatMap_map]
  | expr e =>
    cases e with
    | closure _ _ c b =>
      rw [walk, Expr.walk, children, ofExpr, List.flatMap_cons, walk_ofBody, hclauses]
    | _ => simp [walk, Expr.walk, Expr.walkAll_eq, children, ofExpr, List.flatMap_map]
  | block b =>
    cases b
    rw [walk, Block.walk, Stmt.walkAll_eq, children]
    simp [Block.statements, walk_ofStmt, List.flatMap_map]
  | stmt t =>
    cases t with
    | expr => cases h
    | return_ loc v => cases v <;> simp [walk, Stmt.walk, children]
    | _ => simp [walk, Stmt.walk, children, walk_ofElse, List.flatMap_map]
  | member => simp [walk, Member.walk, children, hclauses, List.flatMap_map]
  | interface => simp [walk, Interface.walk, children, List.flatMap_map]
  | function => simp [walk, FunDecl.walk, children, hclauses, List.flatMap_map]
  | program => simp [walk, Program.walk, children, List.flatMap_map, ← List.map_eq_flatMap]

/-- Whether a node can stand below another one. -/
def isInner : Node α → Bool
  | stmt (.expr _) | program _ => false
  | _ => true

theorem isInner_ofStmt (t : Stmt α) : (ofStmt t).isInner = true := by
  cases t <;> rfl

theorem isInner_ofElse : (r : Else α) → ∀ m ∈ ofElse r, m.isInner = true
  | .none => by simp [ofElse]
  | .block b => by simp [ofElse, isInner]
  | .elif t b r => by simpa [ofElse, isInner] using isInner_ofElse r

theorem isInner_ofExpr (e : Expr α) : ∀ m ∈ ofExpr e, m.isInner = true := by
  cases e with
  | closure _ _ _ b => cases b <;> simp [ofExpr, ofBody, isInner]
  | _ => simp [ofExpr, isInner]

theorem isInner_of_mem_children (h : m ∈ n.children) : m.isInner = true := by
  revert m
  show ∀ m ∈ n.children, m.isInner = true
  cases n with
  | type t => cases t <;> simp [children, isInner, or_imp, forall_and]
  | expr e => exact isInner_ofExpr e
  | block => simpa [children] using fun t _ => isInner_ofStmt t
  | stmt t =>
    cases t with
    | if_ _ _ r => simpa [children, isInner] using isInner_ofElse r
    | expr e => exact isInner_ofExpr e
    | _ => simp [children, isInner]
  | _ => simp [children, isInner, or_imp, forall_and]

theorem isWrapped_of_isInner (h : n.isInner = true) : n.isWrapped = false := by
  cases n with
  | stmt t =>
    cases t with
    | expr => cases h
    | _ => rfl
  | _ => rfl

theorem isWrapped_of_mem_children (h : m ∈ n.children) : m.isWrapped = false :=
  isWrapped_of_isInner (isInner_of_mem_children h)

theorem mem_walk_iff (h : n.isWrapped = false) :
    m ∈ n.walk ↔ m = n ∨ ∃ k ∈ n.children, m ∈ k.walk := by
  rw [walk_eq h, List.mem_cons, List.mem_flatMap]

theorem mem_walk_self (h : n.isWrapped = false) : n ∈ n.walk :=
  (mem_walk_iff h).2 (.inl rfl)

theorem length_walk_lt (h : n.isWrapped = false) (hm : m ∈ n.children) :
    m.walk.length < n.walk.length := by
  rw [walk_eq h, List.length_cons]
  exact Nat.lt_succ_of_le (List.sublist_flatten_of_mem (List.mem_map_of_mem hm)).length_le

/-- **Induction over the nodes below a node.** -/
@[elab_as_elim] theorem below_induction {motive : (n : Node α) → n.isWrapped = false → Prop}
    (step : ∀ n hn, (∀ m (hm : m ∈ n.children), motive m (isWrapped_of_mem_children hm)) →
      motive n hn) (n : Node α) (hn : n.isWrapped = false) : motive n hn :=
  step n hn fun m hm => below_induction step m (isWrapped_of_mem_children hm)
termination_by n.walk.length
decreasing_by exact length_walk_lt hn hm

theorem isInner_of_mem_walk (hn : n.isInner = true) (h : m ∈ n.walk) : m.isInner = true := by
  have hn' := isWrapped_of_isInner hn
  induction n, hn' using below_induction with
  | step n hn' ih =>
    rcases (mem_walk_iff hn').1 h with rfl | ⟨k, hk, h⟩
    · exact hn
    · exact ih k hk (isInner_of_mem_children hk) h

/-- What is below a listed node is listed. -/
theorem mem_walk_of_mem_children (hn : n.isWrapped = false) (h : m ∈ n.walk)
    (hk : k ∈ m.children) : k ∈ n.walk := by
  induction n, hn using below_induction with
  | step n hn ih =>
    rcases (mem_walk_iff hn).1 h with rfl | ⟨l, hl, h⟩
    · exact (mem_walk_iff hn).2 (.inr ⟨k, hk, mem_walk_self (isWrapped_of_mem_children hk)⟩)
    · exact (mem_walk_iff hn).2 (.inr ⟨l, hl, ih l hl h⟩)

end Node

theorem Part.walk_eq (t : Part α) : t.walk = t.tops.flatMap Node.walk := by
  cases t with
  | exprs es => simp [walk, tops, Expr.walkAll_eq, Node.walk, List.flatMap_map]
  | stmts ts => simp [walk, tops, Stmt.walkAll_eq, Node.walk_ofStmt, List.flatMap_map]
  | rest r => rw [walk, tops, Node.walk_ofElse]
  | stmt t => rw [walk, tops, List.flatMap_singleton, Node.walk_ofStmt]
  | body b => rw [walk, tops, List.flatMap_singleton, Node.walk_ofBody]
  | _ => simp [walk, tops, Node.walk]

theorem Part.isInner_tops (t : Part α) : ∀ n ∈ t.tops, n.isInner = true := by
  cases t with
  | stmt t => simpa [tops] using Node.isInner_ofStmt t
  | stmts ts => simpa [tops] using fun t _ => Node.isInner_ofStmt t
  | rest r => exact Node.isInner_ofElse r
  | body b => cases b <;> simp [tops, Node.ofBody, Node.isInner]
  | _ => simp [tops, Node.isInner]

/-- A walk lists the nodes at the top. -/
theorem Part.tops_subset_walk (t : Part α) : t.tops ⊆ t.walk := by
  intro n hn
  rw [t.walk_eq]
  exact List.mem_flatMap.2
    ⟨n, hn, Node.mem_walk_self (Node.isWrapped_of_isInner (t.isInner_tops n hn))⟩

theorem Expr.mem_walk (e : Expr α) : Node.expr e ∈ e.walk :=
  Node.mem_walk_self (n := .expr e) rfl

theorem Block.mem_walk (b : Block α) : Node.block b ∈ b.walk :=
  Node.mem_walk_self (n := .block b) rfl

theorem Expr.mem_walkAll {e : Expr α} {es : List (Expr α)} (h : e ∈ es) :
    Node.expr e ∈ Expr.walkAll es :=
  (Part.exprs es).tops_subset_walk (List.mem_map_of_mem h)

/-! ## Closed lists -/

/-- What is below a listed node is listed, types and clauses apart. -/
structure ClosedBelow (ns : List (Node α)) : Prop where
  below : ∀ n ∈ ns, ∀ m ∈ n.children, m.ofSignature = false → m ∈ ns
  unwrapped : ∀ n ∈ ns, n.isWrapped = false

theorem Node.mem_children_of_mem_exposed {n m : Node α} (h : n.isWrapped = false)
    (hm : m ∈ n.exposed) : m ∈ n.children := by
  unfold Node.exposed at hm
  split at hm
  · cases hm
  · rw [List.mem_singleton.1 hm]
    exact List.mem_cons_of_mem _ (List.mem_cons_self ..)
  · cases h
  · exact hm

/-- **What a listed node exposes is listed.** -/
theorem ClosedBelow.exposes {ns : List (Node α)} {n m : Node α} (h : ClosedBelow ns) (hn : n ∈ ns)
    (hexposes : n.Exposes m) (hm : m.ofSignature = false) : m ∈ ns := by
  induction hexposes with
  | refl => exact hn
  | @tail k m _ hstep ih =>
    have hk : k.ofSignature = false := by
      refine Bool.eq_false_iff.2 fun hk => ?_
      rw [Node.ofSignature_of_mem_exposed hk hstep] at hm
      cases hm
    exact h.below k (ih hk) m
      (Node.mem_children_of_mem_exposed (h.unwrapped k (ih hk)) hstep) hm

/-! ## Bodies -/

/-- Whether a node is part of a body. -/
def Node.inBody : Node α → Bool
  | .expr _ | .block _ | .stmt _ => true
  | _ => false

/-- The nodes of the bodies of a program. -/
def Program.bodies (p : Program α) : List (Node α) := p.functions.flatMap fun g => g.body.walk

theorem Program.bodies_closed (p : Program α) : ClosedBelow p.bodies where
  below n hn m hm _ := by
    obtain ⟨g, hg, hn⟩ := List.mem_flatMap.1 hn
    exact List.mem_flatMap.2
      ⟨g, hg, Node.mem_walk_of_mem_children (n := .block g.body) rfl hn hm⟩
  unwrapped n hn := by
    obtain ⟨g, -, hn⟩ := List.mem_flatMap.1 hn
    exact Node.isWrapped_of_isInner (Node.isInner_of_mem_walk (n := .block g.body) rfl hn)

theorem Node.inBody_of_ofSignature {n : Node α} (h : n.ofSignature = true) :
    n.inBody = false := by
  cases n with
  | clause => rfl
  | type => rfl
  | _ => cases h

/-- What a walk comes to in bodies comes from the functions. -/
theorem Program.mem_bodies {p : Program α} {n : Node α} (h : n ∈ p.walk)
    (hn : n.inBody = true) : n ∈ p.bodies := by
  have hsig (hsig : n.ofSignature = true) : n ∈ p.bodies := by
    rw [Node.inBody_of_ofSignature hsig] at hn
    cases hn
  simp only [Program.walk, FunDecl.walk, Interface.walk, Member.walk, List.mem_cons,
    List.mem_append, List.mem_flatMap, List.mem_map] at h
  obtain rfl | ((⟨g, hg, rfl | (h | h) | h⟩ | ⟨d, -, rfl⟩) | ⟨d, -, rfl⟩) |
    ⟨i, -, rfl | ⟨m, -, rfl | h | h⟩⟩ := h
  · cases hn
  · cases hn
  · exact hsig (Node.ofSignature_of_mem_types (List.mem_flatMap.2 h))
  · exact List.mem_flatMap.2 ⟨g, hg, h⟩
  · exact hsig (Node.ofSignature_of_mem_clauses (List.mem_map.2 h))
  · cases hn
  · cases hn
  · cases hn
  · cases hn
  · exact hsig (Node.ofSignature_of_mem_clauses (List.mem_map.2 h))
  · exact hsig (Node.ofSignature_of_mem_types (List.mem_flatMap.2 h))

end RaisingEffects
