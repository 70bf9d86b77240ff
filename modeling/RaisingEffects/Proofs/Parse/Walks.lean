import Mathlib.Algebra.Group.Nat.Defs
import Mathlib.Data.List.Nodup
import RaisingEffects.Proofs.Parse.Spans
import RaisingEffects.Proofs.Tree.Walk

/-!
# How often a walk lists a node

The first test of a conditional is a field of the conditional and of its first branch, so a walk
comes to it twice, and to all that lies in it. What is nested counts again: a node that lies in the
first tests of `k` conditionals is listed `2 ^ k` times, and nothing else repeats a node.

* `Node.fields` are the nodes directly below a node, each once.
* `Node.Lies k n m`: the path from `n` down to `m` goes through the first tests of `k` conditionals.

Nodes are told apart by where they start: no two nodes of a program that is read from a text start
at one place, and a node without a place of its own holds one that has a place
(`Node.exists_start`). The main result is `Program.parse_walk`.
-/

namespace RaisingEffects

namespace Node

variable {α : Type} {k : Nat} {n m l : Node α}

/-! ## Fields -/

/-- The first test of a conditional. -/
def firstTests : Node α → List (Node α)
  | stmt (.if_ t _ _) => [expr t]
  | _ => []

/-- The nodes directly below a node but for a first test. -/
def others : Node α → List (Node α)
  | stmt (.if_ _ b r) => block b :: ofElse r
  | n => n.children

/-- The nodes directly below a node, each once. -/
def fields (n : Node α) : List (Node α) := n.firstTests ++ n.others

theorem children_eq (n : Node α) : n.children = n.firstTests ++ n.fields := by
  unfold fields firstTests others
  split
  · rfl
  · simp

theorem mem_children_iff : m ∈ n.children ↔ m ∈ n.fields := by
  rw [children_eq, List.mem_append]
  exact or_iff_right_of_imp (List.mem_append_left _)

theorem firstTests_eq (h : m ∈ n.firstTests) : n.firstTests = [m] := by
  unfold firstTests at h ⊢
  split at h
  · rw [List.mem_singleton.1 h]
  · cases h

/-- There is a path from the first node down to the second, through the first tests of `k`
conditionals. -/
inductive Lies : Nat → Node α → Node α → Prop
  | refl (n : Node α) : Lies 0 n n
  | test {k : Nat} {n m l : Node α} (hm : m ∈ n.firstTests) (h : Lies k m l) : Lies (k + 1) n l
  | other {k : Nat} {n m l : Node α} (hm : m ∈ n.others) (h : Lies k m l) : Lies k n l

/-- A walk lists what there is a path to. -/
theorem mem_walk_iff_lies (hn : n.isWrapped = false) : m ∈ n.walk ↔ ∃ k, Lies k n m := by
  induction n, hn using below_induction with
  | step n hn ih =>
    rw [mem_walk_iff hn]
    constructor
    · rintro (rfl | ⟨l, hl, hm⟩)
      · exact ⟨0, .refl _⟩
      · obtain ⟨k, hk⟩ := (ih l hl).1 hm
        rcases List.mem_append.1 (mem_children_iff.1 hl) with hl | hl
        · exact ⟨k + 1, .test hl hk⟩
        · exact ⟨k, .other hl hk⟩
    · rintro ⟨k, h⟩
      have through {j : Nat} {l : Node α} (hl : l ∈ n.fields) (h : Lies j l m) :
          ∃ l ∈ n.children, m ∈ l.walk :=
        ⟨l, mem_children_iff.2 hl, (ih l (mem_children_iff.2 hl)).2 ⟨j, h⟩⟩
      cases h with
      | refl => exact .inl rfl
      | test hl h => exact .inr (through (List.mem_append_left _ hl) h)
      | other hl h => exact .inr (through (List.mem_append_right _ hl) h)

/-! ## Parents before children -/

theorem exists_of_flatMap_eq {β γ : Type} {f : β → List γ} {x : γ} {bs : List β}
    {before after : List γ} (h : bs.flatMap f = before ++ x :: after) :
    ∃ b ∈ bs, ∃ before' after', f b = before' ++ x :: after' ∧ before' ⊆ before := by
  induction bs generalizing before with
  | nil => simp at h
  | cons b bs ih =>
    rw [List.flatMap_cons] at h
    rcases List.append_eq_append_iff.1 h with ⟨cs, rfl, hbs⟩ | ⟨cs, hb, h⟩
    · obtain ⟨b', hb', before', after', hwalk, hbefore⟩ := ih hbs
      exact ⟨b', List.mem_cons_of_mem _ hb', before', after', hwalk,
        fun _ hx => List.mem_append_right _ (hbefore hx)⟩
    · cases cs with
      | nil =>
        obtain ⟨b', hb', before', after', hwalk, hbefore⟩ := @ih [] h.symm
        exact ⟨b', List.mem_cons_of_mem _ hb', before', after', hwalk,
          fun _ hx => absurd (hbefore hx) List.not_mem_nil⟩
      | cons c cs =>
        obtain rfl : x = c := (List.cons.inj h).1
        exact ⟨b, List.mem_cons_self, before, cs, hb, fun _ hx => hx⟩

/-- A walk comes to a node from a node above it. -/
theorem exists_parent (hn : n.isWrapped = false) {before after : List (Node α)}
    (h : n.walk = before ++ m :: after) : m = n ∨ ∃ l ∈ before, m ∈ l.children := by
  induction n, hn using below_induction generalizing before after with
  | step n hn ih =>
    rw [walk_eq hn] at h
    rcases List.cons_eq_append_iff.1 h with ⟨-, htop⟩ | ⟨before, rfl, hsplit⟩
    · exact .inl (List.cons.inj htop).1
    · right
      obtain ⟨k, hk, before', after', hwalk, hbefore⟩ := exists_of_flatMap_eq hsplit
      rcases ih k hk hwalk with rfl | ⟨l, hl, hm⟩
      · exact ⟨n, List.mem_cons_self, hk⟩
      · exact ⟨l, List.mem_cons_of_mem _ (hbefore hl), hm⟩

/-! ## Places -/

/-- All nodes of a tree in the order of the source, those of the types of parameters too. -/
def nodes : Node α → List (Node α)
  | clause c => [clause c]
  | type t => t.walk
  | expr e => e.nodes
  | block b => b.nodes
  | stmt t => t.nodes
  | errorDecl d => [errorDecl d]
  | typeDecl d => [typeDecl d]
  | member m => m.nodes
  | interface i => i.nodes
  | function g => g.nodes
  | program p => p.nodes

theorem nodes_ofStmt (t : Stmt α) : (ofStmt t).nodes = t.nodes := by
  cases t <;> rfl

theorem nodes_ofBody (b : Body α) : (ofBody b).nodes = b.nodes := by
  cases b <;> rfl

theorem nodes_ofElse : (r : Else α) → (ofElse r).flatMap nodes = r.nodes
  | .none => by simp [ofElse, Else.nodes]
  | .block b => by simp [ofElse, nodes, Else.nodes]
  | .elif t b r => by simp [ofElse, nodes, Else.nodes, nodes_ofElse r]

/-- A node is made up of itself, the types of its parameters and its fields. -/
theorem nodes_perm (h : n.isWrapped = false) :
    n.nodes.Perm (n :: (n.params.flatMap Param.nodes ++ n.fields.flatMap nodes)) := by
  have hclauses (c : Option (Clause α)) : (c.toList.map clause).flatMap nodes =
      c.toList.map clause := by cases c <;> rfl
  cases n with
  | clause | errorDecl | typeDecl => exact .refl _
  | type t =>
    cases t with
    | named =>
      simp [nodes, params, fields, firstTests, others, TypeExpr.walk, TypeExpr.walkAll_eq, children,
        List.flatMap_map]
    | fn =>
      simp [nodes, params, fields, firstTests, others, TypeExpr.walk_fn, children, hclauses,
        List.flatMap_map]
  | expr e =>
    cases e with
    | closure loc ps c b =>
      have hfields : (expr (.closure loc ps c b)).fields.flatMap nodes =
          b.nodes ++ c.toList.map clause := by
        rw [← hclauses c, ← nodes_ofBody]
        rfl
      rw [hfields]
      exact (List.perm_append_comm.append_left _).cons _
    | _ =>
      simp [nodes, params, Expr.params, fields, firstTests, others, Expr.nodes, Expr.nodesAll_eq,
        children, ofExpr, List.flatMap_map]
  | block b =>
    cases b
    rw [nodes, Block.nodes, Stmt.nodesAll_eq]
    simp [Block.statements, params, fields, firstTests, others, children, nodes_ofStmt,
      List.flatMap_map]
  | stmt t =>
    cases t with
    | expr => cases h
    | return_ loc v =>
      cases v <;> simp [nodes, params, fields, firstTests, others, Stmt.nodes, children]
    | let_ =>
      simp [nodes, params, fields, firstTests, others, Stmt.nodes, children, List.flatMap_map,
        List.perm_append_comm]
    | _ => simp [nodes, params, fields, firstTests, others, Stmt.nodes, children, nodes_ofElse]
  | member =>
    simp [nodes, params, fields, firstTests, others, Member.nodes, children, hclauses,
      List.flatMap_map]
  | interface =>
    simp [nodes, params, fields, firstTests, others, Interface.nodes, children, List.flatMap_map]
  | function g =>
    have hfields : (function g).fields.flatMap nodes = g.result.toList.flatMap TypeExpr.walk ++
        (g.body.nodes ++ g.clause.toList.map clause) := by
      simp [fields, firstTests, others, children, hclauses, nodes, List.flatMap_map]
    rw [hfields, nodes, FunDecl.nodes, FunDecl.signatureNodes, List.append_assoc,
      List.append_assoc, ← List.append_assoc (List.flatMap TypeExpr.walk _)]
    exact (List.perm_append_comm.append_left _).cons _
  | program =>
    simp [nodes, params, fields, firstTests, others, Program.nodes, children, List.flatMap_map,
      ← List.map_eq_flatMap]

theorem loc_or_field (h : n.isInner = true) : (∃ loc, n.loc? = some loc) ∨ ∃ m, m ∈ n.fields := by
  cases n with
  | type t => cases t <;> exact .inl ⟨_, rfl⟩
  | expr e =>
    cases e with
    | binary | unary => exact .inr ⟨_, List.mem_cons_self⟩
    | _ => exact .inl ⟨_, rfl⟩
  | stmt t =>
    cases t with
    | for_ | while_ | if_ => exact .inr ⟨_, List.mem_cons_self⟩
    | expr => cases h
    | _ => exact .inl ⟨_, rfl⟩
  | program => cases h
  | _ => exact .inl ⟨_, rfl⟩

section Places

variable {n m l : Node Span}

theorem starts_nodes_perm (h : n.isWrapped = false) :
    (starts n.nodes).Perm (starts [n] ++ (starts (n.params.flatMap Param.nodes) ++
      n.fields.flatMap fun m => starts m.nodes)) := by
  have hfields : (n.fields.flatMap fun m => starts m.nodes) = starts (n.fields.flatMap nodes) :=
    List.filterMap_flatMap.symm
  rw [hfields, ← starts_append, ← starts_append]
  exact (nodes_perm h).filterMap _

theorem starts_subset_of_field (hn : n.isWrapped = false) (hm : m ∈ n.fields) :
    starts m.nodes ⊆ starts n.nodes := by
  intro pos hpos
  have hfield : pos ∈ n.fields.flatMap fun m => starts m.nodes :=
    List.mem_flatMap.2 ⟨m, hm, hpos⟩
  exact (starts_nodes_perm hn).mem_iff.2
    (List.mem_append_right _ (List.mem_append_right _ hfield))

theorem starts_subset (hn : n.isWrapped = false) (h : m ∈ n.walk) :
    starts m.nodes ⊆ starts n.nodes := by
  induction n, hn using below_induction with
  | step n hn ih =>
    rcases (mem_walk_iff hn).1 h with rfl | ⟨l, hl, h⟩
    · exact List.Subset.refl _
    · exact List.Subset.trans (ih l hl h) (starts_subset_of_field hn (mem_children_iff.1 hl))

theorem exists_start (h : n.isInner = true) : ∃ pos, pos ∈ starts n.nodes := by
  have hn := isWrapped_of_isInner h
  induction n, hn using below_induction with
  | step n hn ih =>
    rcases loc_or_field h with ⟨loc, hloc⟩ | ⟨m, hm⟩
    · refine ⟨loc.start, (starts_nodes_perm hn).mem_iff.2 (List.mem_append_left _ ?_)⟩
      rw [starts_cons_of_loc hloc]
      exact List.mem_cons_self
    · have hm' := mem_children_iff.2 hm
      obtain ⟨pos, hpos⟩ := ih m hm' (isInner_of_mem_children hm')
      exact ⟨pos, starts_subset_of_field hn hm hpos⟩

/-- Where no two nodes start at one place, the fields of a node share none. -/
theorem disjoint_fields (hn : n.isWrapped = false) (h : (starts n.nodes).Nodup) :
    (∀ m ∈ n.fields, (starts m.nodes).Nodup) ∧
      n.fields.Pairwise fun m l => m.walk.Disjoint l.walk := by
  have hstarts := (starts_nodes_perm hn).nodup_iff.1 h
  obtain ⟨hall, hpairs⟩ := List.nodup_flatMap.1
    (List.Nodup.of_append_right (List.Nodup.of_append_right hstarts))
  refine ⟨hall, hpairs.imp_of_mem fun {m l} hm hl hml k hkm hkl => ?_⟩
  have hm := isInner_of_mem_children (mem_children_iff.2 hm)
  have hl := isInner_of_mem_children (mem_children_iff.2 hl)
  obtain ⟨pos, hpos⟩ := exists_start (isInner_of_mem_walk hm hkm)
  exact hml (starts_subset (isWrapped_of_isInner hm) hkm hpos)
    (starts_subset (isWrapped_of_isInner hl) hkl hpos)

end Places

/-! ## Counts -/

theorem length_walk_le (hn : n.isWrapped = false) (h : m ∈ n.walk) :
    m.walk.length ≤ n.walk.length := by
  induction n, hn using below_induction with
  | step n hn ih =>
    rcases (mem_walk_iff hn).1 h with rfl | ⟨l, hl, h⟩
    · exact le_rfl
    · exact (ih l hl h).trans (length_walk_lt hn hl).le

/-- A node does not lie below itself. -/
theorem notMem_below (hn : n.isWrapped = false) : n ∉ n.children.flatMap walk := by
  intro h
  obtain ⟨m, hm, h⟩ := List.mem_flatMap.1 h
  exact (length_walk_le (isWrapped_of_mem_children hm) h).not_gt (length_walk_lt hn hm)

section Counts

open scoped Classical

theorem count_flatMap_walk {fs : List (Node α)}
    (h : fs.Pairwise fun m l => m.walk.Disjoint l.walk) (hm : m ∈ fs) (hl : l ∈ m.walk) :
    (fs.flatMap walk).count l = m.walk.count l := by
  obtain ⟨before, after, rfl⟩ := List.append_of_mem hm
  have hbefore : l ∉ before.flatMap walk := by
    intro hl'
    obtain ⟨k, hk, hl'⟩ := List.mem_flatMap.1 hl'
    exact (List.pairwise_append.1 h).2.2 k hk m List.mem_cons_self hl' hl
  have hafter : l ∉ after.flatMap walk := by
    intro hl'
    obtain ⟨k, hk, hl'⟩ := List.mem_flatMap.1 hl'
    exact (List.pairwise_cons.1 (List.pairwise_append.1 h).2.1).1 k hk hl hl'
  rw [List.flatMap_append, List.flatMap_cons, List.count_append, List.count_append,
    List.count_eq_zero_of_not_mem hbefore, List.count_eq_zero_of_not_mem hafter, Nat.zero_add,
    Nat.add_zero]

/-- What lies in a field is listed once for the field, and once more if it is a first test. -/
theorem count_walk_of_field {n l m : Node Span} (hn : n.isWrapped = false)
    (h : (starts n.nodes).Nodup) (hl : l ∈ n.fields) (hm : m ∈ l.walk) :
    n.walk.count m = (n.firstTests.flatMap walk).count m + l.walk.count m := by
  have hne : n ≠ m := by
    rintro rfl
    exact notMem_below hn (List.mem_flatMap.2 ⟨l, mem_children_iff.2 hl, hm⟩)
  rw [walk_eq hn, List.count_cons_of_ne hne, children_eq, List.flatMap_append, List.count_append,
    count_flatMap_walk (disjoint_fields hn h).2 hl hm]

/-- **Each first test above a node doubles how often it is listed.** -/
theorem count_walk {n m : Node Span} (hn : n.isWrapped = false) (h : (starts n.nodes).Nodup)
    (hm : Lies k n m) : n.walk.count m = 2 ^ k := by
  induction hm with
  | refl n =>
    rw [walk_eq hn, List.count_cons_self, List.count_eq_zero_of_not_mem (notMem_below hn),
      Nat.zero_add, pow_zero]
  | @test k n l m hl hm ih =>
    have hfield : l ∈ n.fields := List.mem_append_left _ hl
    have hl' := isWrapped_of_mem_children (mem_children_iff.2 hfield)
    rw [count_walk_of_field hn h hfield ((mem_walk_iff_lies hl').2 ⟨k, hm⟩), firstTests_eq hl,
      List.flatMap_singleton, ih hl' ((disjoint_fields hn h).1 l hfield), pow_succ',
      Nat.two_mul]
  | @other k n l m hl hm ih =>
    have hfield : l ∈ n.fields := List.mem_append_right _ hl
    have hl' := isWrapped_of_mem_children (mem_children_iff.2 hfield)
    have hmem := (mem_walk_iff_lies hl').2 ⟨k, hm⟩
    have htests : m ∉ n.firstTests.flatMap walk := by
      intro hm'
      obtain ⟨t, ht, hm'⟩ := List.mem_flatMap.1 hm'
      exact (List.pairwise_append.1 (disjoint_fields hn h).2).2.2 t ht l hl hm' hmem
    rw [count_walk_of_field hn h hfield hmem, List.count_eq_zero_of_not_mem htests, Nat.zero_add,
      ih hl' ((disjoint_fields hn h).1 l hfield)]

end Counts

/-- Every node but those of the types of parameters is listed. -/
theorem mem_walk_of_mem_nodes (hn : n.isWrapped = false) (h : m ∈ n.nodes)
    (hm : m.ofSignature = false) : m ∈ n.walk := by
  induction n, hn using below_induction with
  | step n hn ih =>
    rw [(nodes_perm hn).mem_iff, List.mem_cons, List.mem_append] at h
    rcases h with rfl | h | h
    · exact mem_walk_self hn
    · obtain ⟨p, -, h⟩ := List.mem_flatMap.1 h
      rw [ofSignature_of_mem_types h] at hm
      cases hm
    · obtain ⟨l, hl, h⟩ := List.mem_flatMap.1 h
      have hl := mem_children_iff.2 hl
      exact (mem_walk_iff hn).2 (.inr ⟨l, hl, ih l hl h⟩)

end Node

open scoped Classical in
/-- **What a walk lists.** A walk over a program that is read from a text lists exactly the nodes
that there is a path to, a node always behind one that it is a child of. A node that lies in the
first tests of `k` conditionals is listed `2 ^ k` times. All expressions of all bodies are listed,
closures and collections among them. -/
theorem Program.parse_walk {source : String} {r : Reading} (h : Program.parse source = .ok r) :
    (∀ n, n ∈ r.program.walk ↔ ∃ k, Node.Lies k (.program r.program) n) ∧
    (∀ k n, Node.Lies k (.program r.program) n → r.program.walk.count n = 2 ^ k) ∧
    (∀ before n after, r.program.walk = before ++ n :: after →
      n = .program r.program ∨ ∃ m ∈ before, n ∈ m.children) ∧
    ∀ g ∈ r.program.functions, ∀ e, .expr e ∈ g.body.nodes → .expr e ∈ r.program.walk := by
  obtain ⟨tokens, stop, htokens, hlaid⟩ := Program.exists_laid h
  have hordered := (Token.readAll_ordered htokens).sublist (List.sublist_append_left ..)
  have hstarts : (Node.starts r.program.nodes).Nodup := by
    obtain ⟨starts, hperm, hsub⟩ := hlaid.starts
    exact hperm.nodup_iff.1 (hordered.nodup_pos.sublist hsub)
  have hprogram : (Node.program r.program).isWrapped = false := rfl
  refine ⟨fun n => Node.mem_walk_iff_lies hprogram,
    fun k n hn => Node.count_walk hprogram hstarts hn,
    fun before n after hsplit => Node.exists_parent hprogram hsplit, fun g hg e he => ?_⟩
  have hbody : Node.expr e ∈ (Node.block g.body).walk := Node.mem_walk_of_mem_nodes rfl he rfl
  have hfunction : Node.expr e ∈ (Node.function g).walk :=
    (Node.mem_walk_iff rfl).2 (.inr ⟨_, by simp [Node.children], hbody⟩)
  exact (Node.mem_walk_iff hprogram).2 (.inr ⟨_, by simp [Node.children, hg], hfunction⟩)

/-- A conditional in a closure in the first test of another conditional. -/
def testsSource : String :=
  "fn f(p: T) \x7b if len(|x| \x7b if p(x) \x7b f(x); \x7d \x7d) \x7b f([p]); \x7d \x7d"

/-- The call of `p` is listed four times. -/
theorem count_testsSource :
    ∃ r, Program.parse testsSource = .ok r ∧ (Node.starts r.program.walk).count ⟨1, 30⟩ = 4 :=
  Program.exists_reading testsSource _ rfl (by decide +kernel)

open scoped Classical in
theorem Program.parse_walk_nested :
    ∃ r, Program.parse testsSource = .ok r ∧
      (Node.starts r.program.walk).count ⟨1, 30⟩ = 4 ∧
      (∀ n, n ∈ r.program.walk ↔ ∃ k, Node.Lies k (.program r.program) n) ∧
      (∀ k n, Node.Lies k (.program r.program) n → r.program.walk.count n = 2 ^ k) ∧
      (∀ before n after, r.program.walk = before ++ n :: after →
        n = .program r.program ∨ ∃ m ∈ before, n ∈ m.children) ∧
      ∀ g ∈ r.program.functions, ∀ e, .expr e ∈ g.body.nodes → .expr e ∈ r.program.walk := by
  obtain ⟨r, hr, hcount⟩ := count_testsSource
  exact ⟨r, hr, hcount, Program.parse_walk hr⟩

end RaisingEffects
