import RaisingEffects.Proofs.Analysis.Derivation

/-!
# What the analysis leaves at the nodes

The analysis of a body returns the tree that was read, with a note at each node. This module proves
what the notes say, by one induction over what the analysis derives (`Analysed.traced`):

* the candidates that a part contributes join to the join of the effects noted at its uncaught
  raises and calls (`Traced.joins`);
* every node below carries the note it should carry (`Node.Sound`): each call, raise and closure an
  effect, each collection an aggregate, and what is noted at a `try` or a closure is about the
  uncaught raises and calls of its own body;
* erasing the notes gives back the tree that was read.

`Traced` composes, so each case of the induction is a chain of the parts that the analysis runs.
-/

namespace RaisingEffects

/-! ## Joins of noted effects -/

/-- The effect noted at a node. -/
def Node.effect? (n : Node Note) : Option Effect := n.loc?.bind Note.effect

/-- All nodes of a list have an effect, and `e` is the join of them. -/
def JoinsTo (ns : List (Node Note)) (e : Effect) : Prop :=
  ∃ es : List Effect, ns.map Node.effect? = es.map some ∧ e = .joinAll es

namespace JoinsTo

variable {ns ms : List (Node Note)} {n : Node Note} {d e u : Effect}

theorem nil : JoinsTo [] .nothrow := ⟨[], rfl, rfl⟩

theorem singleton (h : n.effect? = some e) : JoinsTo [n] e :=
  ⟨[e], by simp [h], by simp⟩

theorem append (hn : JoinsTo ns d) (hm : JoinsTo ms e) : JoinsTo (ns ++ ms) (d.join e) := by
  obtain ⟨ds, hds, rfl⟩ := hn
  obtain ⟨es, hes, rfl⟩ := hm
  exact ⟨ds ++ es, by rw [List.map_append, List.map_append, hds, hes],
    (Effect.joinAll_append ds es).symm⟩

/-- The join fits exactly where the effects at all nodes fit. -/
theorem fits_iff (h : JoinsTo ns e) :
    e.fits u = true ↔ ∀ n ∈ ns, ∃ d, n.effect? = some d ∧ d.fits u = true := by
  obtain ⟨es, hes, rfl⟩ := h
  rw [Effect.joinAll_fits_iff]
  constructor
  · intro hu n hn
    have hmem : n.effect? ∈ es.map some := hes ▸ List.mem_map_of_mem hn
    obtain ⟨d, hd, hdn⟩ := List.mem_map.1 hmem
    exact ⟨d, hdn.symm, hu d hd⟩
  · intro hu d hd
    have hmem : some d ∈ ns.map Node.effect? := hes ▸ List.mem_map_of_mem hd
    obtain ⟨n, hn, hnd⟩ := List.mem_map.1 hmem
    obtain ⟨d', hd', hfits⟩ := hu n hn
    rw [hnd, Option.some.injEq] at hd'
    exact hd' ▸ hfits

end JoinsTo

/-! ## Sound notes -/

/-- What is noted at a node, when there are `k` aggregates. -/
def Node.Sound (k : Nat) : Node Note → Prop
  | .expr (.call loc _ _) => loc.effect.isSome = true
  | .expr (.closure loc _ _ body) =>
    ∃ e, loc.effect = some e ∧ ∀ n ∈ body.uncaught, ∃ d, n.effect? = some d ∧ d.fits e = true
  | .expr (.collection loc _ _) => ∃ id < k, loc.aggregate = some id
  | .stmt (.raise loc _) => loc.effect.isSome = true
  | .stmt (.try_ loc body _ _) => ∃ e, loc.caughtEffect = some e ∧ JoinsTo body.uncaught e
  | .member m => m.loc.effect.isSome = true
  | .function f =>
    f.loc.effect.isSome = true ∧ ∃ e, f.loc.bodyEffect = some e ∧ JoinsTo f.body.uncaught e
  | _ => True

theorem Node.Sound.mono {k l : Nat} (hkl : k ≤ l) {n : Node Note} (h : n.Sound k) :
    n.Sound l := by
  unfold Node.Sound at h ⊢
  split at h
  all_goals first | exact h | skip
  obtain ⟨id, hid, hloc⟩ := h
  exact ⟨id, Nat.lt_of_lt_of_le hid hkl, hloc⟩

theorem Node.Sound.of_ofSignature {k : Nat} {n : Node Note} (h : n.ofSignature = true) :
    n.Sound k := by
  cases n with
  | clause => trivial
  | type => trivial
  | _ => simp [Node.ofSignature] at h

/-! ## Traces -/

/-- What happens between two states of an analysis that goes through the given nodes, with the given
uncaught raises and calls among them. -/
structure Traced (s s' : AnalysisState) (nodes uncaught : List (Node Note)) : Prop where
  aggregates_le : s.aggregates.length ≤ s'.aggregates.length
  joins : ∃ e, JoinsTo uncaught e ∧
    Effect.joinAll s'.candidates = (Effect.joinAll s.candidates).join e
  sound : ∀ n ∈ nodes, n.Sound s'.aggregates.length

namespace Traced

variable {s s' s'' : AnalysisState} {ns ms us vs : List (Node Note)}

theorem quiet (ha : s.aggregates.length ≤ s'.aggregates.length)
    (hcand : s'.candidates = s.candidates) : Traced s s' [] [] where
  aggregates_le := ha
  joins := ⟨.nothrow, .nil, by rw [hcand, Effect.join_nothrow]⟩
  sound := by simp

theorem refl (s : AnalysisState) : Traced s s [] [] := quiet (Nat.le_refl _) rfl

theorem trans (h : Traced s s' ns us) (h' : Traced s' s'' ms vs) :
    Traced s s'' (ns ++ ms) (us ++ vs) where
  aggregates_le := Nat.le_trans h.aggregates_le h'.aggregates_le
  joins := by
    obtain ⟨d, hd, hcd⟩ := h.joins
    obtain ⟨e, he, hce⟩ := h'.joins
    exact ⟨d.join e, hd.append he, by rw [hce, hcd, Effect.join_assoc]⟩
  sound := by
    intro n hn
    rcases List.mem_append.1 hn with hn | hn
    · exact (h.sound n hn).mono h'.aggregates_le
    · exact h'.sound n hn

/-- The nodes may be listed in any order and any number of times, with others that are sound. -/
theorem relist (h : Traced s s' ns us)
    (hm : ∀ n ∈ ms, n ∈ ns ∨ n.Sound s'.aggregates.length) : Traced s s' ms us where
  aggregates_le := h.aggregates_le
  joins := h.joins
  sound := fun n hn => (hm n hn).elim (h.sound n) id

theorem then_quiet (h : Traced s s' ns us) (ha : s'.aggregates.length ≤ s''.aggregates.length)
    (hcand : s''.candidates = s'.candidates) : Traced s s'' ns us := by
  have := h.trans (quiet ha hcand)
  rwa [List.append_nil, List.append_nil] at this

theorem after_quiet (h : Traced s' s'' ns us) (ha : s.aggregates.length ≤ s'.aggregates.length)
    (hcand : s'.candidates = s.candidates) : Traced s s'' ns us :=
  (quiet ha hcand).trans h

/-- Adding a candidate, at a node that carries it. -/
theorem contribute (n : Node Note) {e : Effect} (hn : n.effect? = some e)
    (hs : n.Sound s.aggregates.length) :
    Traced s { s with candidates := s.candidates ++ [e] } [n] [n] where
  aggregates_le := Nat.le_refl _
  joins := ⟨e, .singleton hn, by rw [Effect.joinAll_append, Effect.joinAll_cons, Effect.joinAll_nil,
    Effect.join_nothrow]⟩
  sound := by
    intro m hm
    rw [List.mem_singleton.1 hm]
    exact hs

theorem cons {n : Node Note} (h : Traced s s' ns us) (hn : n.Sound s'.aggregates.length) :
    Traced s s' (n :: ns) us :=
  h.relist fun m hm => by
    rcases List.mem_cons.1 hm with rfl | hm
    · exact .inr hn
    · exact .inl hm

/-- A node may be listed before those below it. -/
theorem node_first {n : Node Note} (h : Traced s s' (ns ++ [n]) us) : Traced s s' (n :: ns) us :=
  h.relist fun m hm => .inl (by
    rcases List.mem_cons.1 hm with rfl | hm
    · exact List.mem_append_right _ (List.mem_singleton.2 rfl)
    · exact List.mem_append_left _ hm)

/-- A node that raises nothing needs no candidate. -/
theorem silent (n : Node Note) (hn : n.effect? = some .nothrow)
    (hs : n.Sound s.aggregates.length) : Traced s s [n] [n] where
  aggregates_le := Nat.le_refl _
  joins := ⟨.nothrow, .singleton hn, (Effect.join_nothrow _).symm⟩
  sound := by
    intro m hm
    rw [List.mem_singleton.1 hm]
    exact hs

variable (h : Traced s s' ns us)

include h

theorem with_types (type : Option (TypeExpr Note)) :
    Traced s s' (ns ++ type.toList.flatMap TypeExpr.walk) us :=
  h.relist fun n hn => by
    rcases List.mem_append.1 hn with hn | hn
    · exact .inl hn
    · exact .inr (.of_ofSignature (Node.ofSignature_of_mem_types hn))

theorem with_clause (clause : Option (Clause Note)) :
    Traced s s' (ns ++ clause.toList.map .clause) us :=
  h.relist fun n hn => by
    rcases List.mem_append.1 hn with hn | hn
    · exact .inl hn
    · exact .inr (.of_ofSignature (Node.ofSignature_of_mem_clauses hn))

/-- A trace that starts without candidates ends with the join of what is uncaught. -/
theorem joinsTo_candidates (hs : s.candidates = []) : JoinsTo us (.joinAll s'.candidates) := by
  obtain ⟨e, he, hc⟩ := h.joins
  rw [hs, Effect.joinAll_nil, Effect.nothrow_join] at hc
  rwa [hc]

/-- What is collected apart does not reach the candidates around it. -/
theorem caught {t t' : AnalysisState} (ha : t.aggregates.length ≤ s.aggregates.length)
    (ha' : t'.aggregates = s'.aggregates) (hcand : t'.candidates = t.candidates) :
    Traced t t' ns [] := by
  have hquiet : Traced t t' [] [] := quiet (ha' ▸ Nat.le_trans ha h.aggregates_le) hcand
  exact ⟨hquiet.aggregates_le, hquiet.joins, ha' ▸ h.sound⟩

end Traced

open Analysis

/-! ## The induction -/

/-- **What the analysis of a part leaves at the nodes.** -/
theorem Analysed.traced {c : Context} {s s' : AnalysisState} {t : Part Span} {vs : List Visit}
    {t' : Part Note} (h : Analysed c s t vs t' s') :
    t'.map Note.span = t ∧ Traced s s' t'.walk t'.uncaught := by
  induction h with
  | name | literal | returnNone => exact ⟨rfl, (Traced.refl _).cons trivial⟩
  | exprsNil | stmtsNil | restNone => exact ⟨rfl, .refl _⟩
  | @call s s₁ span callee args args' vs _ ih =>
    obtain ⟨⟨⟩, h₁⟩ := ih
    have h₂ : Traced s (s₁.logged c.function (s₁.env.called callee span.start args').2)
        (Expr.walkAll args') (Expr.uncaughtAll args') := h₁.then_quiet (Nat.le_refl _) rfl
    refine ⟨rfl, Traced.node_first (h₂.trans ?_)⟩
    generalize (s₁.env.called callee span.start args').1 = e
    cases he : e.isRaising with
    | true =>
      rw [List.filter_cons_of_pos he]
      exact .contribute _ rfl rfl
    | false =>
      obtain rfl : e = .nothrow := Effect.isRaising_eq_false.1 he
      exact Traced.then_quiet (.silent _ rfl rfl) (Nat.le_refl _) (List.append_nil _)
  | @closure s s₁ span params clause body body' vs _ ih =>
    obtain ⟨⟨⟩, h₁⟩ := ih
    have hfits := closureOutcome_fits c span s₁.candidates clause
    refine ⟨?_, .cons (.with_clause ?_ _) ⟨_, rfl, (h₁.joinsTo_candidates rfl).fits_iff.1 hfits⟩⟩
    · rw [Part.map, Expr.map, Param.list_map_span_blank, Clause.option_map_span_blank]
    · exact h₁.caught (by simp [AnalysisState.inClosure]) rfl rfl
  | @collection s s₁ _ _ _ _ _ _ ih =>
    obtain ⟨⟨⟩, h₁⟩ := ih
    exact ⟨rfl, Traced.cons (h₁.then_quiet (by simp) rfl)
      ⟨s₁.aggregates.length, by simp, rfl⟩⟩
  | unary _ ih | returnSome _ ih =>
    obtain ⟨⟨⟩, h₁⟩ := ih
    exact ⟨rfl, h₁.cons trivial⟩
  | bodyBlock _ ih | bodyExpr _ ih | stmtExpr _ ih | restBlock _ ih =>
    obtain ⟨⟨⟩, h₁⟩ := ih
    exact ⟨rfl, h₁⟩
  | binary _ _ ih₁ ih₂ | while_ _ _ ih₁ ih₂ =>
    obtain ⟨⟨⟨⟩, h₁⟩, ⟨⟩, h₂⟩ := And.intro ih₁ ih₂
    exact ⟨rfl, (h₁.trans h₂).cons trivial⟩
  | exprsCons _ _ ih₁ ih₂ | stmtsCons _ _ ih₁ ih₂ =>
    obtain ⟨⟨⟨⟩, h₁⟩, ⟨⟩, h₂⟩ := And.intro ih₁ ih₂
    exact ⟨rfl, h₁.trans h₂⟩
  | block _ ih =>
    obtain ⟨⟨⟩, h₁⟩ := ih
    exact ⟨rfl, Traced.cons
      (.then_quiet (.after_quiet h₁ (Nat.le_refl _) rfl) (Nat.le_refl _) rfl) trivial⟩
  | @letCollection s s₁ _ _ _ _ _ _ _ _ _ _ ih =>
    obtain ⟨⟨⟩, h₁⟩ := ih
    refine ⟨?_, .cons (.with_types (.cons ?_ ?_) _) trivial⟩
    · rw [Part.map, Stmt.map, TypeExpr.option_map_span_blank]
      rfl
    · exact .then_quiet (.after_quiet h₁ (Nat.le_refl _) rfl) (by simp) rfl
    · exact ⟨s₁.aggregates.length, by simp, rfl⟩
  | letValue _ _ ih =>
    obtain ⟨⟨⟩, h₁⟩ := ih
    refine ⟨?_, .cons (.with_types ?_ _) trivial⟩
    · rw [Part.map, Stmt.map, TypeExpr.option_map_span_blank]
    · exact .then_quiet (.after_quiet h₁ (Nat.le_refl _) rfl) (Nat.le_refl _) rfl
  | assign _ he ih =>
    obtain ⟨⟨⟩, h₁⟩ := ih
    refine ⟨rfl, .cons ?_ trivial⟩
    cases he <;> exact h₁.then_quiet (Nat.le_refl _) rfl
  | @raise s s₁ span _ value' _ _ ih =>
    obtain ⟨⟨⟩, h₁⟩ := ih
    have h₂ : Traced s (s₁.logged c.function (s₁.env.raised c.isError value').2) value'.walk
        value'.uncaught := h₁.then_quiet (Nat.le_refl _) rfl
    exact ⟨rfl, (h₂.trans (.contribute (.stmt (.raise { span, effect := some _ } value')) rfl
      rfl)).node_first⟩
  | @try_ s s₁ _ _ _ _ _ _ _ _ _ _ _ ih₁ ih₂ =>
    obtain ⟨⟨⟨⟩, h₁⟩, ⟨⟩, h₂⟩ := And.intro ih₁ ih₂
    have hcaught : Traced s { s₁ with candidates := s.candidates } _ [] :=
      h₁.caught (Nat.le_refl _) rfl rfl
    have h₃ := hcaught.trans (h₂.after_quiet (Nat.le_refl _) rfl)
    exact ⟨rfl, Traced.cons (h₃.then_quiet (Nat.le_refl _) rfl) ⟨_, rfl, h₁.joinsTo_candidates rfl⟩⟩
  | insert _ he ih =>
    obtain ⟨⟨⟩, h₁⟩ := ih
    refine ⟨rfl, .cons ?_ trivial⟩
    cases he with
    | accepted => exact h₁.then_quiet (by simp) rfl
    | nowhere | refused => exact h₁.then_quiet (Nat.le_refl _) rfl
  | for_ _ _ ih₁ ih₂ =>
    obtain ⟨⟨⟨⟩, h₁⟩, ⟨⟩, h₂⟩ := And.intro ih₁ ih₂
    have h₃ := h₁.trans (h₂.after_quiet (Nat.le_refl _) rfl)
    exact ⟨rfl, Traced.cons (h₃.then_quiet (Nat.le_refl _) rfl) trivial⟩
  | if_ _ _ _ ih₁ ih₂ ih₃ =>
    obtain ⟨⟨⟨⟩, h₁⟩, ⟨⟨⟩, h₂⟩, ⟨⟩, h₃⟩ := And.intro ih₁ (And.intro ih₂ ih₃)
    -- the walk lists the test twice
    refine ⟨rfl, (((h₁.trans h₂).trans h₃).relist fun n hn => .inl ?_).cons trivial⟩
    simpa only [Part.walk, List.mem_append, or_self] using hn
  | elif _ _ _ ih₁ ih₂ ih₃ =>
    obtain ⟨⟨⟨⟩, h₁⟩, ⟨⟨⟩, h₂⟩, ⟨⟩, h₃⟩ := And.intro ih₁ (And.intro ih₂ ih₃)
    exact ⟨rfl, (h₁.trans h₂).trans h₃⟩

/-- The effect of a function's body is the join of what is uncaught in it. -/
theorem Analysis.bodyEffect_traced {c : Context} (hc : c.Collects) (body : Block Span)
    (s : AnalysisState) : Yields c s (bodyEffect body) fun r s' =>
      (r.1.map Note.span = body ∧ JoinsTo r.1.uncaught r.2) ∧ Traced s s' r.1.walk [] := by
  refine (bodyEffect_derives hc body s).mono fun r s' h => ?_
  obtain ⟨s₁, hr, rfl, h⟩ := h
  obtain ⟨hmap, htraced⟩ := h.traced
  exact ⟨⟨Part.block.inj hmap, hr ▸ htraced.joinsTo_candidates rfl⟩,
    htraced.caught (Nat.le_refl _) rfl rfl⟩

end RaisingEffects
