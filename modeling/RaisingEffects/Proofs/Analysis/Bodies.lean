import RaisingEffects.Proofs.Analysis.Course

/-!
# The course of the walk over a body

The analysis of every expression, statement and block takes a `Course`, whatever the state it starts
in. A statement may bind the name that it declares in the scope that it stands in; everything else
is bound in scopes that the walk opens itself.
-/

namespace RaisingEffects

/-! ## Parameters -/

/-- If the meaning has an aggregate, it is that of a collection with a fixed effect, and has that
effect. -/
def Binding.Declared (aggregates : List Aggregate) (b : Binding) : Prop :=
  ∀ id, b.aggregate = some id →
    b.kind = .collection ∧ ∃ a, aggregates[id]? = some a ∧ a.effect = some b.effect

theorem Binding.Declared.follows {aggregates : List Aggregate} {b : Binding}
    (h : b.Declared aggregates) : b.Follows aggregates := by
  intro id hid
  obtain ⟨hkind, a, ha, heffect⟩ := h id hid
  refine ⟨hkind, a, ha, ?_⟩
  rw [Aggregate.current, heffect, Option.getD_some]

/-- The aggregate of a parameter has the number that its meaning has, and is declared. -/
theorem Param.binding_declared (isError : String → Bool) (p : Param Span)
    (before after : List Aggregate) :
    (p.binding isError before.length).Declared (before ++ (p.aggregates isError ++ after)) := by
  obtain ⟨name, _ | ⟨loc, type, args⟩ | ⟨loc, params, clause, result⟩⟩ := p
  · intro id hid
    cases hid
  · intro id hid
    dsimp only [Param.binding, Param.aggregates] at hid ⊢
    cases hclause : Option.bind (some (TypeExpr.named loc type args)) Analysis.elementClause? with
    | some clause =>
      rw [hclause] at hid
      cases hid
      refine ⟨rfl, { effect := some (Clause.declared isError clause), declared := true }, ?_, rfl⟩
      simp
    | none =>
      rw [hclause] at hid
      dsimp only at hid
      split at hid <;> cases hid
  · intro id hid
    cases hid

theorem Param.bindings_declared (isError : String → Bool) (ps : List (Param Span))
    (before : List Aggregate) : ∀ b ∈ Param.bindings isError before.length ps,
      b.Declared (before ++ ps.flatMap (Param.aggregates isError)) := by
  induction ps generalizing before with
  | nil => simp [Param.bindings]
  | cons p ps ih =>
    have hrest := ih (before ++ p.aggregates isError)
    rw [List.length_append, List.append_assoc] at hrest
    rw [Param.bindings, List.flatMap_cons]
    exact List.forall_mem_cons.2 ⟨p.binding_declared isError before _, hrest⟩

theorem Param.made_of_mem_aggregates {policy : Policy} {isError : String → Bool}
    {ps : List (Param Span)} {a : Aggregate} (h : a ∈ ps.flatMap (Param.aggregates isError)) :
    a.Made policy := by
  obtain ⟨p, -, hp⟩ := List.mem_flatMap.1 h
  unfold Param.aggregates at hp
  split at hp
  · cases hp
  · obtain ⟨clause, -, rfl⟩ := List.mem_map.1 hp
    exact .declared _ _

theorem Param.cause_of_mem_entries {isError : String → Bool} {ps : List (Param Span)}
    {w : Violation} (h : .violation w ∈ ps.flatMap (Param.entries isError)) :
    ∃ type, w.cause = .clauseNotError type := by
  obtain ⟨p, -, hp⟩ := List.mem_flatMap.1 h
  exact cause_of_mem_clauseEntries hp

namespace Analysis

variable {c : Context} {own : Violation → Prop}

/-- The course from around a closure to its body. -/
theorem inClosure_course (hown : ∀ w type, w.cause = .clauseNotError type → own w)
    (ps : List (Param Span)) (names : List String) (d : Nat) (s : AnalysisState) :
    Course c own names (d + 1) (s.opened []) (s.inClosure c ps) [] [] := by
  have hmade : ∀ a ∈ ps.flatMap (Param.aggregates c.isError), a.Made c.policy :=
    fun a ha => Param.made_of_mem_aggregates ha
  have hfollows : ∀ entry ∈ (ps.map Param.name).zip
      (Param.bindings c.isError s.aggregates.length ps),
      entry.2.Follows (s.aggregates ++ ps.flatMap (Param.aggregates c.isError)) := by
    intro entry hentry
    have hb := (List.of_mem_zip hentry).2
    exact (Param.bindings_declared c.isError ps s.aggregates entry.2 hb).follows
  have hrun : Run c.policy names (d + 1) (s.opened []) [] (d + 1)
      { s.inClosure c ps with candidates := s.candidates } :=
    ((Run.one (.log _ _ _)).trans (.aggregates hmade _ _)).trans (.defineAll d hfollows)
  refine .of_run (hrun.snoc (.candidates _ _ [])) rfl ?_
  · intro function w hw
    obtain ⟨entry, hentry, heq⟩ := List.mem_map.1 hw
    cases heq
    obtain ⟨type, htype⟩ := Param.cause_of_mem_entries hentry
    exact ⟨rfl, hown _ type htype⟩

end Analysis

open Analysis

/-! ## The induction -/

/-- The names that a part binds in the scope that it stands in. -/
@[simp] def Part.declares {α : Type} : Part α → List String
  | stmt t => t.declares?.toList
  | stmts ts => ts.filterMap Stmt.declares?
  | _ => []

/-- A collection that is written out gets the next number, whatever was declared for its
elements. -/
theorem Expr.collection_returns {c : Context} {s s₁ : AnalysisState} (hc : c.Collects)
    {elements : List (Expr Span)} {es : List (Expr Note)}
    (hrun : Expr.analyseAll elements c s = (.ok es, s₁)) (span : Span) (kind : CollectionKind) :
    Visit.Returns ⟨c, s, .expr (.collection span kind elements)⟩
      (.expr (.collection { span, aggregate := some s₁.aggregates.length } kind es)) := by
  have hmade := aggregateOf_eq hc.failFast kind none es s₁
  exact ⟨_, { AnalysisState.logged s₁ c.function _ with aggregates := s₁.aggregates ++ [_] }, rfl,
    (bind_eq_of_ok hrun).trans (bind_eq_of_ok hmade)⟩

/-- **The analysis of a part takes a course.** -/
theorem Analysed.course {c : Context} {s s' : AnalysisState} {t : Part Span} {vs : List Visit}
    {t' : Part Note} {names : List String} (hc : c.Collects) (h : Analysed c s t vs t' s') (d : Nat)
    (hd : d = 0 → ∀ x ∈ t.declares, x ∈ names) :
    Course c (fun _ => False) names d s s' vs t'.walk := by
  induction h generalizing d with
  | exprsNil | stmtsNil | restNone => exact .refl _
  | name s | literal s | returnNone s => exact (Course.refl s).visit ⟨_, s, rfl, rfl⟩
  | bodyBlock _ ih | bodyExpr _ ih | stmtExpr _ ih | restBlock _ ih => exact ih d (by simp)
  | unary h ih =>
    exact (ih d (by simp)).lift.visit ⟨_, _, rfl, (Analysed.unary h).returns hc⟩
  | returnSome h ih =>
    exact (ih d (by simp)).lift.visit
      ⟨_, _, rfl, (Analysed.returnSome h).returns hc⟩
  | binary h₁ h₂ ih₁ ih₂ =>
    have hparts := (ih₁ d (by simp)).trans (ih₂ d (by simp))
    exact hparts.lift.visit ⟨_, _, rfl, (Analysed.binary h₁ h₂).returns hc⟩
  | while_ h₁ h₂ ih₁ ih₂ =>
    have hparts := (ih₁ d (by simp)).trans (ih₂ d (by simp))
    exact hparts.lift.visit ⟨_, _, rfl, (Analysed.while_ h₁ h₂).returns hc⟩
  | exprsCons _ _ ih₁ ih₂ =>
    exact (ih₁ d (by simp)).trans (ih₂ d (by simp))
  | @stmtsCons _ _ _ t ts _ _ _ _ _ _ ih₁ ih₂ =>
    have hdeclares : (Part.stmts (t :: ts)).declares =
        (Part.stmt t).declares ++ (Part.stmts ts).declares := by
      cases hx : t.declares? <;> simp [hx]
    rw [hdeclares] at hd
    exact (ih₁ d fun h x hx => hd h x (List.mem_append_left _ hx)).trans
      (ih₂ d fun h x hx => hd h x (List.mem_append_right _ hx))
  | @call s s₁ span callee args args' vs hargs ih =>
    have hargument := Faults.argument (c := c) (s := s) span callee args
    have hparts := (ih d (by simp)).lift.snoc
      (.called span.start args' hargument (Faults.rule span callee args))
    exact (hparts.snoc (.candidates _ _)).visit
      ⟨_, _, rfl, (Analysed.call hargs).returns hc⟩
  | @closure s s₁ span params clause body body' vs hbody ih =>
    have hclause := Faults.closureClause (c := c) (s := s) span params clause body
    have hraises := Faults.closureBody (c := c) (s := s) span params clause body
    have hparams := inClosure_course (c := c) hclause params names d s
    have hinner := (hparams.cons (ih (d + 1) (by simp)).lift).inScope.snoc
      (.candidates _ s.candidates)
    have hnoted := hinner.snoc (.closure span clause s₁.candidates hclause hraises)
    exact (hnoted.with_signature fun _ hn => Node.ofSignature_of_mem_clauses hn).visit
      ⟨_, _, rfl, (Analysed.closure hbody).returns hc⟩
  | @collection s s₁ span kind elements es vs helements ih =>
    have hmisfit (m : Misfit) (hm : Aggregate.ofElements c.policy none kind.noun
        (es.map s₁.env.effectOf) = .error m) := Faults.element span (helements.returns hc) hm
    exact ((ih d (by simp)).lift.snoc (.elements none es hmisfit)).visit
      ⟨_, _, rfl, (Analysed.collection helements).returns hc⟩
  | block h ih =>
    have hstmts := (ih (d + 1) (by simp)).inScope
    exact hstmts.lift.visit ⟨_, _, rfl, (Analysed.block h).returns hc⟩
  | @letCollection s s₁ span x isMut type cspan kind elements es vs helements ih =>
    have hclause := Faults.letClause (c := c) (s := s) span x isMut type
      (.collection cspan kind elements)
    have hrun : Expr.analyseAll elements c (s.declaring c type) = (.ok es, s₁) :=
      (helements.returns hc)
    have hcollection := (ih d (by simp)).lift.visit
      (Expr.collection_returns hc hrun cspan kind)
    rw [← enterLet_final hc.failFast] at hrun
    have hparts := (((Course.clause hclause _).cons (.clause hclause _)).cons
      hcollection.lift).snoc (.elements (c.elementEffect? type) es fun m =>
        Faults.letElement span x isMut cspan hrun)
    have hname (h : d = 0) : x ∈ names := hd h x (by simp [Stmt.declares?])
    refine ((hparts.snoc (.define hname fun _ id hid => ?_)).with_signature
      fun _ hn => Node.ofSignature_of_mem_types hn).visit
      ⟨_, _, rfl, (Analysed.letCollection helements).returns hc⟩
    cases hid
    exact ⟨rfl, _, by simp, rfl⟩
  | @letValue s s₁ span x isMut type value value' vs hvalue h ih =>
    have hclause := Faults.letClause (c := c) (s := s) span x isMut type value
    have hmismatch := Faults.letValue (c := c) (s := s) span x isMut type value
    have hname (h : d = 0) : x ∈ names := hd h x (by simp [Stmt.declares?])
    have hparts := (((Course.clause hclause _).cons (.clause hclause _)).cons
      (ih d (by simp)).lift).snoc (.bound span.start type value' hname hmismatch)
    exact (hparts.with_signature fun _ hn => Node.ofSignature_of_mem_types hn).visit
      ⟨_, _, rfl, (Analysed.letValue hvalue h).returns hc⟩
  | @assign s s₁ s₂ span target value value' vs e h he ih =>
    have hmismatch := Faults.assigned (c := c) (s := s) span target value
    exact ((ih d (by simp)).lift.snoc (he.course hmismatch)).visit
      ⟨_, _, rfl, (Analysed.assign h he).returns hc⟩
  | @raise s s₁ span value value' vs h ih =>
    have hown := Faults.raised (c := c) (s := s) span value
    exact (((ih d (by simp)).lift.snoc (.raised value' hown)).snoc (.candidates _ _)).visit
      ⟨_, _, rfl, (Analysed.raise h).returns hc⟩
  | @try_ s s₁ s₂ span body binding handler body' handler' vs ws hbody hhandler ih₁ ih₂ =>
    have hbinding : Course c (fun _ => False) names (d + 1)
        (AnalysisState.opened { s₁ with candidates := s.candidates } [])
        (AnalysisState.opened { s₁ with candidates := s.candidates } (binding.toList.map fun name =>
          (name, caughtBinding (.joinAll s₁.candidates)))) [] [] :=
      .quiet (.defineAll d fun entry hentry => by
        obtain ⟨x, -, rfl⟩ := List.mem_map.1 hentry
        exact .of_none rfl) rfl
    have hhandled := (hbinding.cons (ih₂ (d + 1) (by simp))).inScope
    exact ((ih₁ d (by simp)).collecting.trans hhandled).lift.visit
      ⟨_, _, rfl, (Analysed.try_ hbody hhandler).returns hc⟩
  | @insert s s₁ s₂ span target how value value' vs e h he ih =>
    have hmisfit (id : Nat) (a : Aggregate) (m : Misfit)
        (hid : (s₁.env.lookup target).bind Binding.aggregate = some id)
        (ha : s₁.aggregates[id]? = some a)
        (hm : a.insert (s₁.env.effectOf value') none = .error m) :=
      Faults.inserted span how (h.returns hc) hid ha hm
    exact ((ih d (by simp)).lift.snoc (he.course hmisfit)).visit
      ⟨_, _, rfl, (Analysed.insert h he).returns hc⟩
  | @for_ s s₁ s₂ target iterable body iterable' body' vs ws hiterable hbody ih₁ ih₂ =>
    have hplain : (loopBinding (s₁.iterated iterable')).aggregate = none := by
      cases s₁.iterated iterable' <;> rfl
    have hlooped := (Course.cons (.define (by simp) fun _ => .of_none hplain)
      (ih₂ (d + 1) (by simp))).inScope
    exact ((ih₁ d (by simp)).trans hlooped).lift.visit
      ⟨_, _, rfl, (Analysed.for_ hiterable hbody).returns hc⟩
  | if_ h₁ h₂ h₃ ih₁ ih₂ ih₃ =>
    have hparts := ((ih₁ d (by simp)).trans (ih₂ d (by simp))).trans
      (ih₃ d (by simp))
    -- the walk lists the test twice
    refine (hparts.lift.relist fun n hn => .inl ?_).visit
      ⟨_, _, rfl, (Analysed.if_ h₁ h₂ h₃).returns hc⟩
    simp only [List.mem_append] at hn ⊢
    tauto
  | elif _ _ _ ih₁ ih₂ ih₃ =>
    exact ((ih₁ d (by simp)).trans (ih₂ d (by simp))).trans
      (ih₃ d (by simp))

theorem Analysed.log_extends {c : Context} {s s' : AnalysisState} {t : Part Span} {vs : List Visit}
    {t' : Part Note} (hc : c.Collects) (h : Analysed c s t vs t' s') : s.log <+: s'.log := by
  have hcourse : Course c _ [] 1 s s' vs t'.walk := h.course hc 1 (by simp)
  obtain ⟨new, hlog, -⟩ := hcourse.reported
  exact ⟨new, hlog.symm⟩

/-- The body of a function, with candidates of its own. -/
theorem Analysis.bodyEffect_course {c : Context} (hc : c.Collects) (body : Block Span)
    (names : List String) (d : Nat) (s : AnalysisState) :
    Yields c s (bodyEffect body) fun r s' => Course c (fun _ => False) names d s s'
      (body.visits c (setApart.final c s)) r.1.walk := by
  refine (bodyEffect_derives hc body s).mono fun r s' h => ?_
  obtain ⟨s₁, -, rfl, h⟩ := h
  exact (h.course hc d (by simp)).collecting

end RaisingEffects
