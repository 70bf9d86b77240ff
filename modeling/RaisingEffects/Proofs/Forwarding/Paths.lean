import Mathlib.Data.List.Flatten
import Mathlib.Data.List.Pairwise
import RaisingEffects.Proofs.Forwarding.Flags
import RaisingEffects.Proofs.Parse.Spans

/-!
# Raise paths, exactly

The raise paths of a body stand for the calls of the forwarded parameters in it, outside closures:
one for each call, in the order of the source. A path is converted when a `try` around the call
keeps what it raises.

* `Node.Runs n m`: the node `m` is `n` or lies below it, outside the closures in `n`.
* `Block.Converts b n`: a `try` in the block has the node in its body, and does not raise again.

A node is listed with a flag when it is reached with that flag (`Part.mem_flagged_iff`), and the
flag is set when a `try` converts (`Node.Reaches.tries`, `Node.Tries.reaches`). The main result is
`Program.parse_raisePaths`.
-/

namespace RaisingEffects

variable {b : Block Span}

/-! ## Nodes outside closures -/

namespace Node

variable {α : Type}

/-- The nodes directly below a statement, a block or an expression. A closure keeps what is below it
to itself. -/
def inner : Node α → List (Node α)
  | .expr (.closure ..) => []
  | .expr e => ofExpr e
  | .block b => (Node.block b).children
  | .stmt (.expr e) => [.expr e]
  | .stmt s => (Node.stmt s).children
  | _ => []

/-- The second node is the first or lies below it, outside the closures in the first. -/
def Runs : Node α → Node α → Prop := Relation.ReflTransGen fun n m => m ∈ n.inner

end Node

/-- The node lies in the body of a `try` in the block, outside closures, and that `try` has no name
for what it catches, or its handler does not raise the name again. -/
def Block.Converts (b : Block Span) (n : Node Span) : Prop :=
  ∃ loc body binding handler, (Node.block b).Runs (.stmt (.try_ loc body binding handler)) ∧
    (Node.block body).Runs n ∧
    ∀ name, binding = some name → ∀ at_ place,
      ¬ (Node.block handler).Runs (.stmt (.raise at_ (.name place name)))

/-! ## Descending to a node -/

namespace Node

/-- Going down one node outside closures, and what becomes of the flag: it is set in the body of a
`try` that does not raise again, and is otherwise kept, also in the handler. -/
inductive Descends : Bool × Node Span → Bool × Node Span → Prop
  | inner {c : Bool} {n m : Node Span} (hm : m ∈ n.inner)
      (hn : ∀ loc body binding handler, n ≠ .stmt (.try_ loc body binding handler)) :
      Descends (c, n) (c, m)
  | tried (c : Bool) (loc : Span) (body : Block Span) (binding : Option String)
      (handler : Block Span) :
      Descends (c, .stmt (.try_ loc body binding handler))
        (c || !rethrows binding handler, .block body)
  | handled (c : Bool) (loc : Span) (body : Block Span) (binding : Option String)
      (handler : Block Span) :
      Descends (c, .stmt (.try_ loc body binding handler)) (c, .block handler)

/-- Going down any number of nodes. -/
def Reaches : Bool × Node Span → Bool × Node Span → Prop := Relation.ReflTransGen Descends

variable {c : Bool} {x : Bool × Node Span}

/-- A node is reached from itself, and by way of the nodes below it. -/
theorem reaches_iff {n : Node Span}
    (hn : ∀ loc body binding handler, n ≠ .stmt (.try_ loc body binding handler)) :
    Reaches (c, n) x ↔ x = (c, n) ∨ ∃ k ∈ n.inner, Reaches (c, k) x := by
  rw [Reaches, Relation.ReflTransGen.cases_head_iff, eq_comm]
  refine or_congr_right ⟨?_, ?_⟩
  · rintro ⟨y, hy, h⟩
    cases hy with
    | inner hk => exact ⟨_, hk, h⟩
    | tried | handled => exact absurd rfl (hn _ _ _ _)
  · rintro ⟨k, hk, h⟩
    exact ⟨_, .inner hk hn, h⟩

theorem reaches_try_iff {loc : Span} {body : Block Span} {binding : Option String}
    {handler : Block Span} :
    Reaches (c, .stmt (.try_ loc body binding handler)) x ↔
      x = (c, .stmt (.try_ loc body binding handler)) ∨
        Reaches (c || !rethrows binding handler, .block body) x ∨
          Reaches (c, .block handler) x := by
  rw [Reaches, Relation.ReflTransGen.cases_head_iff, eq_comm]
  refine or_congr_right ⟨?_, ?_⟩
  · rintro ⟨y, hy, h⟩
    cases hy with
    | inner _ hn => exact absurd rfl (hn _ _ _ _)
    | tried => exact .inl h
    | handled => exact .inr h
  · rintro (h | h)
    · exact ⟨_, .tried .., h⟩
    · exact ⟨_, .handled .., h⟩

end Node

/-- **A node is listed with a flag when it is reached with that flag.** -/
theorem Part.mem_flagged_iff {x : Bool × Node Span} (c : Bool) (t : Part Span) :
    x ∈ t.flagged c ↔ ∃ k ∈ t.tops, Node.Reaches (c, k) x := by
  induction t using Part.induction generalizing c with
  | exprsNil | exprsCons | stmtsNil | stmtsCons | restNone | restBlock | elif | bodyBlock
  | bodyExpr | stmtExpr =>
    simp_all [flagged, tops, Stmt.flagged, Expr.flaggedAll, Stmt.flaggedAll, Else.flagged,
      Node.ofStmt, Node.ofElse, Node.ofBody, -Bool.forall_bool]
  | try_ =>
    simp_all [flagged, tops, Stmt.flagged, Node.ofStmt, Node.reaches_try_iff, -Bool.forall_bool]
  | let_ _ _ _ type value ih =>
    have htype (k : TypeExpr Span) : Node.Reaches (c, .type k) x ↔ x = (c, .type k) := by
      rw [Node.reaches_iff (by simp)]
      simp [Node.inner]
    simp only [tops, List.mem_singleton, exists_eq_left, Node.ofStmt]
    rw [Node.reaches_iff (by simp)]
    simp_all [flagged, tops, Stmt.flagged, Node.inner, Node.children, eq_comm, or_comm,
      -Bool.forall_bool]
  | _ =>
    simp only [tops, List.mem_singleton, exists_eq_left]
    rw [Node.reaches_iff (by simp [Node.ofStmt])]
    simp_all [flagged, tops, Expr.flagged, Block.flagged, Stmt.flagged, Node.inner, Node.children,
      Node.ofExpr, Node.ofStmt, Block.statements, -Bool.forall_bool]

theorem Block.mem_flagged_iff {c : Bool} {x : Bool × Node Span} :
    x ∈ b.flagged c ↔ Node.Reaches (c, .block b) x := by
  simpa [Part.flagged, Part.tops] using Part.mem_flagged_iff c (.block b)

/-! ## Runs and flags -/

namespace Node

variable {n m k : Node Span} {c c' : Bool} {x y : Bool × Node Span}

/-- The second node lies in the body of a `try` of the first that does not raise again. -/
def Tries (n m : Node Span) : Prop :=
  ∃ loc body binding handler, n.Runs (.stmt (.try_ loc body binding handler)) ∧
    (Node.block body).Runs m ∧ rethrows binding handler = false

theorem Tries.head (hk : k ∈ n.inner) : k.Tries m → n.Tries m
  | ⟨loc, body, binding, handler, hruns, h⟩ => ⟨loc, body, binding, handler, .head hk hruns, h⟩

theorem mem_inner_of_descends (h : Descends x y) : y.2 ∈ x.2.inner := by
  cases h with
  | inner hk => exact hk
  | tried => exact List.mem_cons_self ..
  | handled => exact List.mem_cons_of_mem _ (List.mem_cons_self ..)

theorem Reaches.runs (h : Reaches x y) : x.2.Runs y.2 := by
  induction h with
  | refl => exact .refl
  | tail _ hk ih => exact ih.tail (mem_inner_of_descends hk)

theorem Reaches.kept (h : Reaches x y) (hx : x.1 = true) : y.1 = true := by
  induction h with
  | refl => exact hx
  | tail _ hk ih =>
    cases hk with
    | inner => exact ih
    | tried => exact Bool.or_eq_true_iff.2 (.inl ih)
    | handled => exact ih

/-- A flag that is set was set at the start, or is set by a `try`. -/
theorem Reaches.tries (h : Reaches x y) (hy : y.1 = true) : x.1 = true ∨ x.2.Tries y.2 := by
  induction h using Relation.ReflTransGen.head_induction_on with
  | refl => exact .inl hy
  | head hk hreaches ih =>
    cases hk with
    | inner hk => exact ih.imp_right (.head hk)
    | handled => exact ih.imp_right (.head (mem_inner_of_descends (.handled ..)))
    | tried c loc body binding handler =>
      rcases ih with ih | ih
      · rcases Bool.or_eq_true_iff.1 ih with hc | hc
        · exact .inl hc
        · exact .inr ⟨loc, body, binding, handler, .refl, Reaches.runs hreaches, by simpa using hc⟩
      · exact .inr (ih.head (mem_inner_of_descends (.tried c ..)))

/-- Every node below is gone down to, with some flag. -/
theorem exists_descends (hk : k ∈ n.inner) (c : Bool) : ∃ c', Descends (c, n) (c', k) := by
  by_cases hn : ∃ loc body binding handler, n = .stmt (.try_ loc body binding handler)
  · obtain ⟨loc, body, binding, handler, rfl⟩ := hn
    simp only [inner, children, List.mem_cons, List.not_mem_nil, or_false] at hk
    rcases hk with rfl | rfl
    · exact ⟨_, .tried c loc body binding handler⟩
    · exact ⟨_, .handled c loc body binding handler⟩
  · push Not at hn
    exact ⟨c, .inner hk hn⟩

theorem exists_reaches (h : n.Runs m) (c : Bool) : ∃ c', Reaches (c, n) (c', m) := by
  induction h using Relation.ReflTransGen.head_induction_on generalizing c with
  | refl => exact ⟨c, .refl⟩
  | head hk _ ih =>
    obtain ⟨c₁, hc₁⟩ := exists_descends hk c
    obtain ⟨c', hc'⟩ := ih c₁
    exact ⟨c', .head hc₁ hc'⟩

theorem Tries.reaches (h : n.Tries m) (c : Bool) : Reaches (c, n) (true, m) := by
  obtain ⟨loc, body, binding, handler, hruns, hbody, hraises⟩ := h
  obtain ⟨c₁, htry⟩ := exists_reaches hruns c
  have hset : (c₁ || !rethrows binding handler) = true := by simp [hraises]
  obtain ⟨c₂, hc₂⟩ := exists_reaches hbody true
  obtain rfl : c₂ = true := hc₂.kept rfl
  exact htry.trans (.head (.tried c₁ loc body binding handler) (hset ▸ hc₂))

end Node

theorem Block.raisesAgain_iff {name : String} :
    b.raisesAgain name = true ↔
      ∃ at_ place, (Node.block b).Runs (.stmt (.raise at_ (.name place name))) := by
  rw [← show _ = b.raisesAgain name from Part.flagged_any_raises name false (.block b),
    List.any_eq_true]
  constructor
  · rintro ⟨⟨c, n⟩, hmem, hraises⟩
    have hruns := (Block.mem_flagged_iff.1 hmem).runs
    unfold Node.raises at hraises
    split at hraises
    · rename_i loc value hn
      obtain rfl : n = _ := hn
      cases value with
      | name place id =>
        obtain rfl : id = name := by simpa [Expr.name?] using hraises
        exact ⟨loc, place, hruns⟩
      | _ => simp [Expr.name?] at hraises
    · cases hraises
  · rintro ⟨loc, place, hruns⟩
    obtain ⟨c, hreaches⟩ := Node.exists_reaches hruns false
    refine ⟨_, Block.mem_flagged_iff.2 hreaches, ?_⟩
    simp [Node.raises, Expr.name?]

theorem rethrows_eq_false_iff {binding : Option String} {handler : Block Span} :
    rethrows binding handler = false ↔ ∀ name, binding = some name → ∀ at_ place,
      ¬ (Node.block handler).Runs (.stmt (.raise at_ (.name place name))) := by
  cases binding with
  | none => simp [rethrows]
  | some name =>
    rw [show rethrows (some name) handler = handler.raisesAgain name from rfl,
      ← Bool.not_eq_true, Block.raisesAgain_iff]
    constructor
    · rintro hno _ ⟨⟩ at_ place hruns
      exact hno ⟨at_, place, hruns⟩
    · rintro hno ⟨at_, place, hruns⟩
      exact hno name rfl at_ place hruns

theorem Block.converts_iff {n : Node Span} : b.Converts n ↔ (Node.block b).Tries n := by
  simp only [Block.Converts, Node.Tries, rethrows_eq_false_iff]

/-! ## Bodies that are read -/

/-- The flagged nodes start one behind the other. -/
def FlagsOrdered (xs : List (Bool × Node Span)) : Prop :=
  xs.Pairwise fun x y => ∀ p, x.2.start? = some p → ∀ q, y.2.start? = some q → p < q

theorem Block.flagged_ordered (h : (Node.starts b.nodes).Pairwise (· < ·)) (c : Bool) :
    FlagsOrdered (b.flagged c) := by
  have hsub := (((Part.block b).flagged_sublist c).filterMap Node.start?)
  have hpairs := h.sublist hsub
  rw [List.pairwise_filterMap, List.pairwise_map] at hpairs
  exact hpairs

/-- A flagged node is determined by where it starts. -/
theorem FlagsOrdered.eq_of_start {xs : List (Bool × Node Span)} (h : FlagsOrdered xs)
    {x y : Bool × Node Span} (hx : x ∈ xs) (hy : y ∈ xs) {pos : Pos} (hpos : x.2.start? = some pos)
    (hpos' : y.2.start? = some pos) : x = y := by
  let Same (x y : Bool × Node Span) : Prop := x.2.start? = some pos → y.2.start? = some pos → x = y
  have hsymm : Std.Symm Same := ⟨fun x y hxy hy hx => (hxy hx hy).symm⟩
  have hpairs : xs.Pairwise Same :=
    h.imp fun hlt hp hq => absurd (hlt pos hp pos hq) (lt_irrefl pos)
  exact hpairs.forall_of_forall (fun _ _ _ _ => rfl) hx hy hpos hpos'

/-- The nodes of the body of a function start one behind the other. -/
theorem Program.body_starts {source : String} {r : Reading} (h : Program.parse source = .ok r)
    {g : FunDecl Span} (hg : g ∈ r.program.functions) :
    (Node.starts g.body.nodes).Pairwise (· < ·) := by
  obtain ⟨tokens, stop, htokens, hlaid⟩ := Program.exists_laid h
  have hordered := (Token.readAll_ordered htokens).sublist (List.sublist_append_left ..)
  have hpos : (tokens.map Token.pos).Pairwise (· < ·) :=
    List.pairwise_map.2 hordered.start_lt_start
  have hbody : g.body.nodes.Sublist (r.program.functions.flatMap FunDecl.nodes) := by
    have hnodes : g.body.nodes.Sublist g.nodes :=
      (List.sublist_append_right _ _).trans (List.sublist_cons_self ..)
    exact hnodes.trans (by simpa using (List.singleton_sublist.2 hg).flatMap FunDecl.nodes)
  exact hpos.sublist ((hbody.filterMap _).trans hlaid.functions)

/-- **Raise paths are exact.** In the body of a function that is read from a text, the calls outside
closures start at different places. The raise paths of some names stand in the order of the source,
and they are those of the calls of the names: a path has the span of its call, and is converted when
the call lies in the body of a `try` that has no name for what it catches, or whose handler does not
raise that name. -/
theorem Program.parse_raisePaths {source : String} {r : Reading}
    (h : Program.parse source = .ok r) {g : FunDecl Span} (hg : g ∈ r.program.functions)
    (names : List String) :
    ((g.body.raisePaths names).Pairwise fun p q =>
        ∀ s, p.span = some s → ∀ t, q.span = some t → s.start < t.start) ∧
      (∀ p, p ∈ g.body.raisePaths names ↔
        ∃ span args, (Node.block g.body).Runs (.expr (.call span p.parameter args)) ∧
          p.parameter ∈ names ∧ p.span = some span ∧
          (p.converted = true ↔ g.body.Converts (.expr (.call span p.parameter args)))) ∧
      ∀ span callee args span' callee' args',
        (Node.block g.body).Runs (.expr (.call span callee args)) →
        (Node.block g.body).Runs (.expr (.call span' callee' args')) →
        span.start = span'.start →
        Node.expr (.call span callee args) = .expr (.call span' callee' args') := by
  have hordered := Block.flagged_ordered (Program.body_starts h hg) false
  have hmem {c : Bool} {span : Span} {callee : String} {args : List (Expr Span)}
      (h : Node.Reaches (false, .block g.body) (c, .expr (.call span callee args))) :
      (c, Node.expr (.call span callee args)) ∈ g.body.flagged false :=
    Block.mem_flagged_iff.2 h
  have hpaths : g.body.raisePaths names = _ := (Part.block g.body).raisePaths_eq names false
  refine ⟨?_, fun p => ?_, ?_⟩
  · rw [hpaths, List.pairwise_filterMap]
    refine hordered.imp fun hlt p hp q hq s hs t ht => ?_
    obtain ⟨_, _, rfl, -, hspan⟩ := RaisePath.of?_eq_some hp
    obtain ⟨_, _, rfl, -, hspan'⟩ := RaisePath.of?_eq_some hq
    cases hspan.symm.trans hs
    cases hspan'.symm.trans ht
    exact hlt _ rfl _ rfl
  · rw [hpaths, List.mem_filterMap]
    constructor
    · rintro ⟨x, hx, hp⟩
      obtain ⟨span, args, rfl, hname, hspan⟩ := RaisePath.of?_eq_some hp
      have hreaches := Block.mem_flagged_iff.1 hx
      refine ⟨span, args, hreaches.runs, hname, hspan, ?_⟩
      rw [Block.converts_iff]
      constructor
      · exact fun hc => (hreaches.tries hc).resolve_left (by simp)
      · -- the call is listed once, so with the flag that the `try` sets
        intro htries
        have heq := hordered.eq_of_start hx (hmem (htries.reaches false)) rfl rfl
        exact congrArg Prod.fst heq
    · rintro ⟨span, args, hruns, hname, hspan, hconverted⟩
      obtain ⟨c, hreaches⟩ := Node.exists_reaches hruns false
      refine ⟨_, hmem hreaches, ?_⟩
      have hc : c = p.converted := by
        rw [Block.converts_iff] at hconverted
        cases hflag : p.converted with
        | true =>
          have htries := (hconverted.1 hflag).reaches false
          exact congrArg Prod.fst (hordered.eq_of_start (hmem hreaches) (hmem htries) rfl rfl)
        | false =>
          refine Bool.eq_false_iff.2 fun hc => ?_
          rw [hconverted.2 ((hreaches.tries hc).resolve_left (by simp))] at hflag
          cases hflag
      rw [RaisePath.of?, if_pos hname, hc, ← hspan]
  · intro span callee args span' callee' args' hruns hruns' hstart
    obtain ⟨c, hreaches⟩ := Node.exists_reaches hruns false
    obtain ⟨c', hreaches'⟩ := Node.exists_reaches hruns' false
    have heq := hordered.eq_of_start (hmem hreaches) (hmem hreaches') rfl
      (congrArg some hstart.symm)
    exact congrArg Prod.snd heq

/-- Calls in a test, within a call, in a handler, behind a closure, and in a `try` whose handler
raises again within a `try` whose handler does not. -/
def pathsSource : String := "fn f(g: fn(int) raises) \x7b
  try \x7b if g(g(1)) \x7b try \x7b g(2); \x7d catch e \x7b raise e; \x7d \x7d \x7d
  catch \x7b g(3); \x7d
  try \x7b g(|x| g(x)); \x7d catch e \x7b if g(4) \x7b raise e; \x7d \x7d \x7d"

set_option maxRecDepth 8192 in
theorem Program.parse_raisePaths_nested :
    ∃ r, Program.parse pathsSource = .ok r ∧ ∃ g ∈ r.program.functions,
      g.body.raisePaths ["g"] ≠ [] ∧
      ∀ p, p ∈ g.body.raisePaths ["g"] ↔
        ∃ span args, (Node.block g.body).Runs (.expr (.call span p.parameter args)) ∧
          p.parameter ∈ ["g"] ∧ p.span = some span ∧
          (p.converted = true ↔ g.body.Converts (.expr (.call span p.parameter args))) := by
  obtain ⟨r, hr, g, hg, hpaths⟩ := Program.exists_reading pathsSource
    (fun r => ∃ g ∈ r.program.functions, g.body.raisePaths ["g"] ≠ []) rfl (by decide +kernel)
  exact ⟨r, hr, g, hg, hpaths, (Program.parse_raisePaths hr hg ["g"]).2.1⟩

end RaisingEffects
