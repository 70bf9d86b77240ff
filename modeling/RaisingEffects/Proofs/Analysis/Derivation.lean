import RaisingEffects.Proofs.Analysis.Visits
import RaisingEffects.Proofs.Tree.Uncaught

/-!
# Derivations of the walk over a body

`Analysed c s t visits t' s'` says rule by rule what the analysis of a part of a body does: from the
state `s` it comes through `visits`, returns `t'` and ends in the state `s'`. All kinds of parts are
of one type, `Part`, so that a proof about the walk is one induction over a derivation, and what the
walk does is said here once.

* `Analysed.run_visits` says that a derivation is a run of an analysis that collects violations.
* `Part.derives` says that every part has a derivation, and `Part.Returns.derives` that every run in
  a context that collects violations is one.
-/

namespace RaisingEffects

open Analysis

/-- The analysis of the first part returns the second, and ends in the second state. -/
def Part.Returns (c : Context) (s : AnalysisState) : Part Span → Part Note → AnalysisState → Prop
  | expr e, expr e', s' => e.analyse c s = (.ok e', s')
  | exprs es, exprs es', s' => Expr.analyseAll es c s = (.ok es', s')
  | body b, body b', s' => b.analyse c s = (.ok b', s')
  | block b, block b', s' => b.analyse c s = (.ok b', s')
  | stmt t, stmt t', s' => t.analyse c s = (.ok t', s')
  | stmts ts, stmts ts', s' => Stmt.analyseAll ts c s = (.ok ts', s')
  | rest r, rest r', s' => r.analyse c s = (.ok r', s')
  | _, _, _ => False

/-- What the analysis of a part comes to. -/
def Part.visits (c : Context) (s : AnalysisState) : Part Span → List Visit
  | expr e => e.visits c s
  | exprs es => Expr.visitsAll c es s
  | body b => b.visits c s
  | block b => b.visits c s
  | stmt t => t.visits c s
  | stmts ts => Stmt.visitsAll c ts s
  | rest r => r.visits c s

/-! ## States -/

namespace AnalysisState

/-- The state in a new scope, in which the given names have meanings. -/
def opened (s : AnalysisState) (entries : List (String × Binding)) : AnalysisState :=
  { s with env := Env.defineAll ([] :: s.env) entries }

/-- The state after a scope was left. -/
def closed (s : AnalysisState) : AnalysisState := { s with env := s.env.drop 1 }

/-- The state in which the body of a closure is analysed. -/
def inClosure (s : AnalysisState) (c : Context) (params : List (Param Span)) : AnalysisState where
  env := Env.defineAll ([] :: s.env)
    ((params.map Param.name).zip (Param.bindings c.isError s.aggregates.length params))
  aggregates := s.aggregates ++ params.flatMap (Param.aggregates c.isError)
  candidates := []
  log := s.log ++ (params.flatMap (Param.entries c.isError)).map fun entry => (c.function, entry)

/-- The state in which the value of a `let` is analysed: what is reported about the type of the name
is logged before. -/
def declaring (s : AnalysisState) (c : Context) (type : Option (TypeExpr Span)) : AnalysisState :=
  (s.logged c.function (clauseEntries c.isError (functionClause? type))).logged c.function
    (clauseEntries c.isError (type.bind elementClause?))

/-- What binding a name to a value comes to, under the type it is declared with. -/
def bound (s : AnalysisState) (c : Context) (name : String) (pos : Pos)
    (type : Option (TypeExpr Span)) (value : Expr Note) :
    Option Effect × Binding × List LogEntry :=
  s.env.bound c.isError name pos type value (c.functionEffect? type)

/-- The effect that the elements of an iterable have, if it is a collection. -/
def iterated (s : AnalysisState) (iterable : Expr Note) : Option Effect :=
  let id? := match iterable with
    | .name _ id => (s.env.lookup id).bind Binding.aggregate
    | .collection loc _ _ => loc.aggregate
    | _ => none
  (id?.bind fun id => s.aggregates[id]?).bind Aggregate.effect

theorem iterated_name (s : AnalysisState) (n : Note) (id : String) :
    s.iterated (.name n id) = (((s.env.lookup id).bind Binding.aggregate).bind
      fun id => s.aggregates[id]?).bind Aggregate.effect := rfl

theorem iterated_collection (s : AnalysisState) (n : Note) (kind : CollectionKind)
    (es : List (Expr Note)) : s.iterated (.collection n kind es) =
      (n.aggregate.bind fun id => s.aggregates[id]?).bind Aggregate.effect := rfl

end AnalysisState

/-! ## The rules -/

/-- In the context `c`, the analysis of a part that starts in the first state comes through the
visits, returns the second part and ends in the second state. -/
inductive Analysed (c : Context) :
    AnalysisState → Part Span → List Visit → Part Note → AnalysisState → Prop
  | name (s span id) : Analysed c s (.expr (.name span id)) [⟨c, s, .expr (.name span id)⟩]
      (.expr (.name (.blank span) id)) s
  | literal (s span value) : Analysed c s (.expr (.literal span value))
      [⟨c, s, .expr (.literal span value)⟩] (.expr (.literal (.blank span) value)) s
  | call {s s₁ span callee args args' vs}
      (hargs : Analysed c s (.exprs args) vs (.exprs args') s₁) :
      Analysed c s (.expr (.call span callee args)) (⟨c, s, .expr (.call span callee args)⟩ :: vs)
        (.expr (.call { span, effect := some (s₁.env.called callee span.start args').1 } callee
          args'))
        { s₁.logged c.function (s₁.env.called callee span.start args').2 with
          candidates := s₁.candidates ++
            [(s₁.env.called callee span.start args').1].filter Effect.isRaising }
  | closure {s s₁ span params clause body body' vs}
      (hbody : Analysed c (s.inClosure c params) (.body body) vs (.body body') s₁) :
      Analysed c s (.expr (.closure span params clause body))
        (⟨c, s, .expr (.closure span params clause body)⟩ :: vs)
        (.expr (.closure
          { span, effect := some (closureOutcome c span s₁.candidates clause).1 }
          (params.map (·.map .blank)) (clause.map (·.map .blank)) body'))
        (AnalysisState.logged { s₁.closed with candidates := s.candidates } c.function
          ((closureOutcome c span s₁.candidates clause).2 ++
            [.closure span (closureOutcome c span s₁.candidates clause).1]))
  | collection {s s₁ span kind elements elements' vs}
      (helements : Analysed c s (.exprs elements) vs (.exprs elements') s₁) :
      Analysed c s (.expr (.collection span kind elements))
        (⟨c, s, .expr (.collection span kind elements)⟩ :: vs)
        (.expr (.collection { span, aggregate := some s₁.aggregates.length } kind elements'))
        { s₁.logged c.function
            (elementEntries c.policy kind none elements' (elements'.map s₁.env.effectOf)) with
          aggregates := s₁.aggregates ++
            [.settled c.policy none kind.noun (elements'.map s₁.env.effectOf)] }
  | binary {s s₁ s₂ op left right left' right' vs ws}
      (hleft : Analysed c s (.expr left) vs (.expr left') s₁)
      (hright : Analysed c s₁ (.expr right) ws (.expr right') s₂) :
      Analysed c s (.expr (.binary op left right))
        (⟨c, s, .expr (.binary op left right)⟩ :: (vs ++ ws)) (.expr (.binary op left' right')) s₂
  | unary {s s₁ op operand operand' vs}
      (h : Analysed c s (.expr operand) vs (.expr operand') s₁) :
      Analysed c s (.expr (.unary op operand)) (⟨c, s, .expr (.unary op operand)⟩ :: vs)
        (.expr (.unary op operand')) s₁
  | exprsNil (s) : Analysed c s (.exprs []) [] (.exprs []) s
  | exprsCons {s s₁ s₂ e es e' es' vs ws} (he : Analysed c s (.expr e) vs (.expr e') s₁)
      (hes : Analysed c s₁ (.exprs es) ws (.exprs es') s₂) :
      Analysed c s (.exprs (e :: es)) (vs ++ ws) (.exprs (e' :: es')) s₂
  | bodyBlock {s s₁ b b' vs} (h : Analysed c s (.block b) vs (.block b') s₁) :
      Analysed c s (.body (.block b)) vs (.body (.block b')) s₁
  | bodyExpr {s s₁ e e' vs} (h : Analysed c s (.expr e) vs (.expr e') s₁) :
      Analysed c s (.body (.expr e)) vs (.body (.expr e')) s₁
  | block {s s₁ span ts ts' vs} (h : Analysed c (s.opened []) (.stmts ts) vs (.stmts ts') s₁) :
      Analysed c s (.block (.mk span ts)) (⟨c, s, .block (.mk span ts)⟩ :: vs)
        (.block (.mk (.blank span) ts')) s₁.closed
  /-- A name is bound to a collection that is written out. -/
  | letCollection {s s₁ span name isMut type cspan kind elements elements' vs}
      (helements : Analysed c (s.declaring c type) (.exprs elements) vs (.exprs elements') s₁) :
      Analysed c s (.stmt (.let_ span name isMut type (.collection cspan kind elements)))
        (⟨c, s, .stmt (.let_ span name isMut type (.collection cspan kind elements))⟩ ::
          ⟨c, s.declaring c type, .expr (.collection cspan kind elements)⟩ :: vs)
        (.stmt (.let_ (.blank span) name isMut (type.map (·.map .blank)) (.collection
          { span := cspan, aggregate := some s₁.aggregates.length } kind elements')))
        { s₁.logged c.function (elementEntries c.policy kind (c.elementEffect? type) elements'
            (elements'.map s₁.env.effectOf)) with
          aggregates := s₁.aggregates ++ [.settled c.policy (c.elementEffect? type) kind.noun
            (elements'.map s₁.env.effectOf)]
          env := s₁.env.define name
            { kind := .collection
              effect := (Aggregate.settled c.policy (c.elementEffect? type) kind.noun
                (elements'.map s₁.env.effectOf)).current
              aggregate := some s₁.aggregates.length } }
  /-- A name is bound to any other value. -/
  | letValue {s s₁ span name isMut type value value' vs}
      (hvalue : ∀ cspan kind elements, value ≠ .collection cspan kind elements)
      (h : Analysed c (s.declaring c type) (.expr value) vs (.expr value') s₁) :
      Analysed c s (.stmt (.let_ span name isMut type value))
        (⟨c, s, .stmt (.let_ span name isMut type value)⟩ :: vs)
        (.stmt (.let_ { span, effect := (s₁.bound c name span.start type value').1 } name isMut
          (type.map (·.map .blank)) value'))
        { s₁.logged c.function (s₁.bound c name span.start type value').2.2 with
          env := s₁.env.define name (s₁.bound c name span.start type value').2.1 }
  | assign {s s₁ s₂ span target value value' vs e}
      (h : Analysed c s (.expr value) vs (.expr value') s₁)
      (he : Assigns c target span.start value' s₁ e s₂) :
      Analysed c s (.stmt (.assign span target value))
        (⟨c, s, .stmt (.assign span target value)⟩ :: vs)
        (.stmt (.assign { span, effect := e } target value')) s₂
  | returnNone (s span) : Analysed c s (.stmt (.return_ span none))
      [⟨c, s, .stmt (.return_ span none)⟩] (.stmt (.return_ (.blank span) none)) s
  | returnSome {s s₁ span value value' vs}
      (h : Analysed c s (.expr value) vs (.expr value') s₁) :
      Analysed c s (.stmt (.return_ span (some value)))
        (⟨c, s, .stmt (.return_ span (some value))⟩ :: vs)
        (.stmt (.return_ (.blank span) (some value'))) s₁
  | raise {s s₁ span value value' vs}
      (h : Analysed c s (.expr value) vs (.expr value') s₁) :
      Analysed c s (.stmt (.raise span value)) (⟨c, s, .stmt (.raise span value)⟩ :: vs)
        (.stmt (.raise { span, effect := some (s₁.env.raised c.isError value').1 } value'))
        { s₁.logged c.function (s₁.env.raised c.isError value').2 with
          candidates := s₁.candidates ++ [(s₁.env.raised c.isError value').1] }
  | try_ {s s₁ s₂ span body binding handler body' handler' vs ws}
      (hbody : Analysed c { s with candidates := [] } (.block body) vs (.block body') s₁)
      (hhandler : Analysed c
        (AnalysisState.opened { s₁ with candidates := s.candidates } (binding.toList.map fun name =>
          (name, caughtBinding (.joinAll s₁.candidates))))
        (.block handler) ws (.block handler') s₂) :
      Analysed c s (.stmt (.try_ span body binding handler))
        (⟨c, s, .stmt (.try_ span body binding handler)⟩ :: (vs ++ ws))
        (.stmt (.try_ { span, caughtEffect := some (.joinAll s₁.candidates) } body' binding
          handler')) s₂.closed
  | insert {s s₁ s₂ span target how value value' vs e}
      (h : Analysed c s (.expr value) vs (.expr value') s₁)
      (he : Inserts c target span.start value' s₁ e s₂) :
      Analysed c s (.stmt (.insert span target how value))
        (⟨c, s, .stmt (.insert span target how value)⟩ :: vs)
        (.stmt (.insert { span, effect := e } target how value')) s₂
  | for_ {s s₁ s₂ target iterable body iterable' body' vs ws}
      (hiterable : Analysed c s (.expr iterable) vs (.expr iterable') s₁)
      (hbody : Analysed c (s₁.opened [(target, loopBinding (s₁.iterated iterable'))])
        (.block body) ws (.block body') s₂) :
      Analysed c s (.stmt (.for_ target iterable body))
        (⟨c, s, .stmt (.for_ target iterable body)⟩ :: (vs ++ ws))
        (.stmt (.for_ target iterable' body')) s₂.closed
  | while_ {s s₁ s₂ condition body condition' body' vs ws}
      (hcondition : Analysed c s (.expr condition) vs (.expr condition') s₁)
      (hbody : Analysed c s₁ (.block body) ws (.block body') s₂) :
      Analysed c s (.stmt (.while_ condition body))
        (⟨c, s, .stmt (.while_ condition body)⟩ :: (vs ++ ws))
        (.stmt (.while_ condition' body')) s₂
  | if_ {s s₁ s₂ s₃ test body rest test' body' rest' vs ws us}
      (htest : Analysed c s (.expr test) vs (.expr test') s₁)
      (hbody : Analysed c s₁ (.block body) ws (.block body') s₂)
      (hrest : Analysed c s₂ (.rest rest) us (.rest rest') s₃) :
      Analysed c s (.stmt (.if_ test body rest))
        (⟨c, s, .stmt (.if_ test body rest)⟩ :: (vs ++ ws ++ us))
        (.stmt (.if_ test' body' rest')) s₃
  | stmtExpr {s s₁ e e' vs} (h : Analysed c s (.expr e) vs (.expr e') s₁) :
      Analysed c s (.stmt (.expr e)) vs (.stmt (.expr e')) s₁
  | stmtsNil (s) : Analysed c s (.stmts []) [] (.stmts []) s
  | stmtsCons {s s₁ s₂ t ts t' ts' vs ws} (ht : Analysed c s (.stmt t) vs (.stmt t') s₁)
      (hts : Analysed c s₁ (.stmts ts) ws (.stmts ts') s₂) :
      Analysed c s (.stmts (t :: ts)) (vs ++ ws) (.stmts (t' :: ts')) s₂
  | restNone (s) : Analysed c s (.rest .none) [] (.rest .none) s
  | restBlock {s s₁ b b' vs} (h : Analysed c s (.block b) vs (.block b') s₁) :
      Analysed c s (.rest (.block b)) vs (.rest (.block b')) s₁
  | elif {s s₁ s₂ s₃ test body rest test' body' rest' vs ws us}
      (htest : Analysed c s (.expr test) vs (.expr test') s₁)
      (hbody : Analysed c s₁ (.block body) ws (.block body') s₂)
      (hrest : Analysed c s₂ (.rest rest) us (.rest rest') s₃) :
      Analysed c s (.rest (.elif test body rest)) (vs ++ ws ++ us)
        (.rest (.elif test' body' rest')) s₃

/-! ## Derivations are runs -/

section Runs

variable {c : Context} {s s' : AnalysisState} {t : Part Span} {vs : List Visit} {t' : Part Note}

theorem Analysis.bindParams_eq (hc : c.failFast = false) (ps : List (Param Span))
    (s : AnalysisState) :
    bindParams ps c { s with env := [] :: s.env } =
      (.ok (), { s.inClosure c ps with candidates := s.candidates }) := by
  obtain ⟨_, _, hdefine, rfl⟩ := defineAll_yields (c := c) ((ps.map Param.name).zip
    (Param.bindings c.isError s.aggregates.length ps))
    { s.logged c.function (ps.flatMap (Param.entries c.isError)) with
      env := [] :: s.env
      aggregates := s.aggregates ++ ps.flatMap (Param.aggregates c.isError) }
  rw [bindParams, bind_eq_of_ok (parameterBindings_eq hc ps _)]
  exact hdefine

theorem Analysis.enterLet_final (hc : c.failFast = false) (type : Option (TypeExpr Span))
    (s : AnalysisState) : (enterLet type).final c s = s.declaring c type := by
  rw [enterLet, final_bind (declaredFunction_eq hc type s),
    final_bind (declaredElement_eq hc type _)]
  rfl

theorem Analysis.iterableEffect_eq (iterable : Expr Note)
    (h : ∀ loc kind elements, iterable ≠ .collection loc kind elements) (s : AnalysisState) :
    iterableEffect iterable c s = (.ok (s.iterated iterable), s) := by
  cases iterable with
  | name loc id =>
    rw [iterableEffect, lookup_bind, AnalysisState.iterated_name]
    cases (s.env.lookup id).bind Binding.aggregate <;> rfl
  | collection loc kind elements => exact absurd rfl (h loc kind elements)
  | _ => rfl

theorem Analysis.inScope_eq_of_ok {α : Type} {m : Analysis α} {a : α}
    (h : m c (s.opened []) = (.ok a, s')) : inScope m c s = (.ok a, s'.closed) := by
  rw [inScope, show m c { s with env := [] :: s.env } = _ from h]
  rfl

theorem Analysis.collecting_eq_of_ok {α : Type} {m : Analysis α} {a : α}
    (h : m c { s with candidates := [] } = (.ok a, s')) :
    collecting m c s = (.ok (a, s'.candidates), { s' with candidates := s.candidates }) := by
  rw [collecting, h]

/-- The parts of a run that returns a value return values. -/
theorem Analysis.exists_of_bind_eq_ok {α β : Type} {m : Analysis α} {f : α → Analysis β} {b : β}
    (h : (m >>= f) c s = (.ok b, s')) : ∃ a s₁, m c s = (.ok a, s₁) ∧ f a c s₁ = (.ok b, s') := by
  obtain ⟨r, s₁, hm⟩ : ∃ r s₁, m c s = (r, s₁) := ⟨_, _, rfl⟩
  simp only [Bind.bind, hm] at h
  cases r with
  | ok a => exact ⟨a, s₁, hm, h⟩
  | error v => cases h

/-- The visits of two parts, where the second is come to from the first. -/
theorem Analysis.visits_append {α : Type} {m : Analysis α} {a : α} {l vs ws : List Visit}
    {f : AnalysisState → List Visit} (hm : m c s = (.ok a, s')) (hl : l = vs) (hf : f s' = ws) :
    l ++ f (m.final c s) = vs ++ ws := by
  rw [final_eq hm, hl, hf]

/-- **A derivation is a run of the analysis.** -/
theorem Analysed.run_visits (hc : c.Collects) (h : Analysed c s t vs t' s') :
    t.Returns c s t' s' ∧ t.visits c s = vs := by
  induction h with
  | name | literal | exprsNil | returnNone | stmtsNil | restNone => exact ⟨rfl, rfl⟩
  | @call s s₁ span callee args args' vs _ ih =>
    refine ⟨?_, congrArg (List.cons _) ih.2⟩
    rw [Part.Returns, Expr.analyse, bind_eq_of_ok ih.1,
      bind_eq_of_ok (callEffect_eq hc.failFast ..)]
    cases hraises : (s₁.env.called callee span.start args').1.isRaising
    · simp [hraises, Pure.pure, AnalysisState.logged]
    · simp only [if_true, List.filter_cons_of_pos hraises]
      rfl
  | @closure s s₁ span params clause body body' vs _ ih =>
    have hentry : (enterClosure params).final c s = s.inClosure c params := by
      rw [enterClosure, final_bind (show enter c s = (.ok (), _) from rfl),
        final_bind (bindParams_eq hc.failFast params s)]
      rfl
    have hbody : (do bindParams params; collecting body.analyse) c (s.opened []) =
        (.ok (body', s₁.candidates), { s₁ with candidates := s.candidates }) := by
      refine (bind_eq_of_ok (bindParams_eq hc.failFast params s)).trans ?_
      exact collecting_eq_of_ok (s := { s.inClosure c params with candidates := s.candidates }) ih.1
    refine ⟨?_, ?_⟩
    · rw [Part.Returns, Expr.analyse, bind_eq_of_ok (show context c s = (.ok c, s) from rfl),
        hc.known span, ← AnalysisState.logged_logged]
      exact (bind_eq_of_ok (inScope_eq_of_ok hbody)).trans
        (bind_eq_of_ok (closureEffect_eq hc.failFast ..))
    · rw [Part.visits, Expr.visits, hentry]
      exact congrArg (List.cons _) ih.2
  | collection _ ih =>
    refine ⟨?_, congrArg (List.cons _) ih.2⟩
    rw [Part.Returns, Expr.analyse, bind_eq_of_ok ih.1,
      bind_eq_of_ok (aggregateOf_eq hc.failFast ..)]
    rfl
  | unary _ ih | returnSome _ ih =>
    exact ⟨bind_eq_of_ok ih.1, congrArg (List.cons _) ih.2⟩
  | bodyBlock _ ih | bodyExpr _ ih | stmtExpr _ ih | restBlock _ ih =>
    exact ⟨bind_eq_of_ok ih.1, ih.2⟩
  | binary _ _ ih₁ ih₂ | while_ _ _ ih₁ ih₂ =>
    exact ⟨(bind_eq_of_ok ih₁.1).trans (bind_eq_of_ok ih₂.1),
      congrArg (List.cons _) (visits_append ih₁.1 ih₁.2 ih₂.2)⟩
  | exprsCons _ _ ih₁ ih₂ | stmtsCons _ _ ih₁ ih₂ =>
    exact ⟨(bind_eq_of_ok ih₁.1).trans (bind_eq_of_ok ih₂.1), visits_append ih₁.1 ih₁.2 ih₂.2⟩
  | if_ _ _ _ ih₁ ih₂ ih₃ =>
    refine ⟨(bind_eq_of_ok ih₁.1).trans ((bind_eq_of_ok ih₂.1).trans (bind_eq_of_ok ih₃.1)), ?_⟩
    rw [Part.visits, Stmt.visits, final_eq ih₁.1, final_eq ih₂.1]
    exact congrArg (List.cons _) (congrArg₂ _ (congrArg₂ _ ih₁.2 ih₂.2) ih₃.2)
  | elif _ _ _ ih₁ ih₂ ih₃ =>
    refine ⟨(bind_eq_of_ok ih₁.1).trans ((bind_eq_of_ok ih₂.1).trans (bind_eq_of_ok ih₃.1)), ?_⟩
    rw [Part.visits, Else.visits, final_eq ih₁.1, final_eq ih₂.1]
    exact congrArg₂ _ (congrArg₂ _ ih₁.2 ih₂.2) ih₃.2
  | block _ ih =>
    exact ⟨bind_eq_of_ok (inScope_eq_of_ok ih.1), congrArg (List.cons _) ih.2⟩
  | assign _ he ih | insert _ he ih =>
    exact ⟨(bind_eq_of_ok ih.1).trans (bind_eq_of_ok (he.run hc.failFast)),
      congrArg (List.cons _) ih.2⟩
  | raise _ ih =>
    refine ⟨?_, congrArg (List.cons _) ih.2⟩
    rw [Part.Returns, Stmt.analyse, bind_eq_of_ok ih.1,
      bind_eq_of_ok (raisedEffect_eq hc.failFast ..)]
    rfl
  | @letCollection s _ _ _ _ type _ _ _ _ _ _ ih =>
    refine ⟨?_, ?_⟩
    · rw [Part.Returns, Stmt.analyse, bind_eq_of_ok (declaredFunction_eq hc.failFast type s),
        bind_eq_of_ok (declaredElement_eq hc.failFast type _)]
      refine (bind_eq_of_ok ih.1).trans ((bind_eq_of_ok (aggregateOf_eq hc.failFast ..)).trans ?_)
      rfl
    · rw [Part.visits, Stmt.visits, enterLet_final hc.failFast]
      exact congrArg (fun l => _ :: _ :: l) ih.2
  | @letValue s s₁ span name isMut type value _ _ hvalue _ ih =>
    refine ⟨?_, ?_⟩
    · rw [Part.Returns, Stmt.analyse, bind_eq_of_ok (declaredFunction_eq hc.failFast type s),
        bind_eq_of_ok (declaredElement_eq hc.failFast type _)]
      cases value with
      | collection cspan kind elements => exact absurd rfl (hvalue cspan kind elements)
      | _ => exact (bind_eq_of_ok ih.1).trans (bind_eq_of_ok (bindValue_eq hc.failFast ..))
    · rw [Part.visits, Stmt.visits, enterLet_final hc.failFast]
      exact congrArg (List.cons _) ih.2
  | @try_ s s₁ s₂ span body binding handler body' handler' vs ws _ _ ih₁ ih₂ =>
    have hbody := collecting_eq_of_ok ih₁.1
    have hentry : (enterHandler body binding).final c s =
        AnalysisState.opened { s₁ with candidates := s.candidates } (binding.toList.map fun x =>
          (x, caughtBinding (.joinAll s₁.candidates))) := by
      rw [enterHandler, final_bind hbody]
      cases binding <;> rfl
    refine ⟨?_, ?_⟩
    · rw [Part.Returns, Stmt.analyse, bind_eq_of_ok hbody]
      cases binding <;> exact bind_eq_of_ok (inScope_eq_of_ok ih₂.1)
    · rw [Part.visits, Stmt.visits, hentry]
      exact congrArg (List.cons _) (congrArg₂ _ ih₁.2 ih₂.2)
  | @for_ s s₁ s₂ target iterable body iterable' body' vs ws hiterable _ ih₁ ih₂ =>
    have hbody : inScope (do
        define target (loopBinding (s₁.iterated iterable'))
        body.analyse) c s₁ = (.ok body', s₂.closed) := inScope_eq_of_ok ih₂.1
    cases iterable with
    | collection cspan kind elements =>
      -- the elements are analysed in place, with the outcome that they have in the collection
      obtain ⟨es, w, helements, h⟩ := exists_of_bind_eq_ok ih₁.1
      obtain ⟨a, w₁, ha, h⟩ := exists_of_bind_eq_ok h
      cases h
      have ho : AnalysisState.iterated { w₁ with aggregates := w₁.aggregates ++ [a] }
          (.collection { span := cspan, aggregate := some w₁.aggregates.length } kind es) =
            a.effect := by
        simp [AnalysisState.iterated_collection]
      rw [ho] at hbody
      refine ⟨?_, ?_⟩
      · rw [Part.Returns, Stmt.analyse, bind_eq_of_ok helements, bind_eq_of_ok ha]
        exact bind_eq_of_ok hbody
      · rw [Part.visits, Stmt.visits, enterLoop, final_bind helements, final_bind ha]
        rw [ho] at ih₂
        exact congrArg (List.cons _) (congrArg₂ _ ih₁.2 ih₂.2)
    | _ =>
      have hother : ∀ loc kind es, iterable' ≠ .collection loc kind es := by
        rintro loc kind es rfl
        cases hiterable
      have heffect := iterableEffect_eq (c := c) iterable' hother s₁
      refine ⟨(bind_eq_of_ok ih₁.1).trans ((bind_eq_of_ok heffect).trans (bind_eq_of_ok hbody)), ?_⟩
      rw [Part.visits, Stmt.visits, enterLoop, final_bind ih₁.1, final_bind heffect]
      · exact congrArg (List.cons _) (congrArg₂ _ ih₁.2 ih₂.2)
      · simp

theorem Analysed.returns (hc : c.Collects) (h : Analysed c s t vs t' s') : t.Returns c s t' s' :=
  (h.run_visits hc).1

end Runs

/-! ## Every part has a derivation -/

section Derivations

variable {c : Context}

/-- From every state there is a derivation for the part. -/
def Part.Derives (c : Context) : Part Span → Prop
  | expr e => ∀ s, ∃ vs e' s', Analysed c s (.expr e) vs (.expr e') s'
  | exprs es => ∀ s, ∃ vs es' s', Analysed c s (.exprs es) vs (.exprs es') s'
  | body b => ∀ s, ∃ vs b' s', Analysed c s (.body b) vs (.body b') s'
  | block b => ∀ s, ∃ vs b' s', Analysed c s (.block b) vs (.block b') s'
  | stmt t => ∀ s, ∃ vs t' s', Analysed c s (.stmt t) vs (.stmt t') s'
  | stmts ts => ∀ s, ∃ vs ts' s', Analysed c s (.stmts ts) vs (.stmts ts') s'
  | rest r => ∀ s, ∃ vs r' s', Analysed c s (.rest r) vs (.rest r') s'

/-- **Every part has a derivation.** -/
theorem Part.derives (c : Context) (t : Part Span) : t.Derives c := by
  induction t using Part.induction with
  | name | literal | exprsNil | returnNone | stmtsNil | restNone =>
    exact fun s => ⟨_, _, _, by constructor⟩
  | closure _ params _ _ ih =>
    intro s
    obtain ⟨_, _, _, hbody⟩ := ih (s.inClosure c params)
    exact ⟨_, _, _, .closure hbody⟩
  | call _ _ _ ih | collection _ _ _ ih | unary _ _ ih | bodyBlock _ ih | bodyExpr _ ih
  | returnSome _ _ ih | raise _ _ ih | stmtExpr _ ih | restBlock _ ih =>
    intro s
    obtain ⟨_, _, _, h⟩ := ih s
    exact ⟨_, _, _, by constructor; exact h⟩
  | block_ _ _ ih =>
    intro s
    obtain ⟨_, _, _, h⟩ := ih (s.opened [])
    exact ⟨_, _, _, .block h⟩
  | binary _ _ _ ih ih' | exprsCons _ _ ih ih' | while_ _ _ ih ih' | stmtsCons _ _ ih ih' =>
    intro s
    obtain ⟨_, _, s₁, h⟩ := ih s
    obtain ⟨_, _, _, h'⟩ := ih' s₁
    exact ⟨_, _, _, by constructor; exacts [h, h']⟩
  | let_ _ _ _ type value ih =>
    intro s
    obtain ⟨_, _, _, h⟩ := ih (s.declaring c type)
    cases value with
    | collection cspan kind elements =>
      cases h with
      | collection helements => exact ⟨_, _, _, .letCollection helements⟩
    | _ => exact ⟨_, _, _, .letValue (by simp) h⟩
  | assign loc target _ ih =>
    intro s
    obtain ⟨_, value', s₁, h⟩ := ih s
    obtain ⟨_, _, he⟩ := exists_assigns c target loc.start value' s₁
    exact ⟨_, _, _, .assign h he⟩
  | try_ _ _ _ _ ih ih' =>
    intro s
    obtain ⟨_, _, _, hbody⟩ := ih { s with candidates := [] }
    obtain ⟨_, _, _, hhandler⟩ := ih' _
    exact ⟨_, _, _, .try_ hbody hhandler⟩
  | insert loc target _ _ ih =>
    intro s
    obtain ⟨_, value', s₁, h⟩ := ih s
    obtain ⟨_, _, he⟩ := exists_inserts c target loc.start value' s₁
    exact ⟨_, _, _, .insert h he⟩
  | for_ _ _ _ ih ih' =>
    intro s
    obtain ⟨_, _, _, hiterable⟩ := ih s
    obtain ⟨_, _, _, hbody⟩ := ih' _
    exact ⟨_, _, _, .for_ hiterable hbody⟩
  | if_ _ _ _ ih ih' ih'' | elif _ _ _ ih ih' ih'' =>
    intro s
    obtain ⟨_, _, s₁, htest⟩ := ih s
    obtain ⟨_, _, s₂, hbody⟩ := ih' s₁
    obtain ⟨_, _, _, hrest⟩ := ih'' s₂
    exact ⟨_, _, _, by constructor; exacts [htest, hbody, hrest]⟩

theorem Part.Returns.unique {s s₁ s₂ : AnalysisState} {t : Part Span} {t₁ t₂ : Part Note}
    (h₁ : t.Returns c s t₁ s₁) (h₂ : t.Returns c s t₂ s₂) : t₁ = t₂ ∧ s₁ = s₂ := by
  cases t <;> cases t₁ <;> first
    | exact h₁.elim
    | cases t₂ <;> first
      | exact h₂.elim
      | cases h₁.symm.trans h₂
        exact ⟨rfl, rfl⟩

/-- **Every run has a derivation.** -/
theorem Part.Returns.derives (hc : c.Collects) {s s' : AnalysisState} {t : Part Span}
    {t' : Part Note} (h : t.Returns c s t' s') : Analysed c s t (t.visits c s) t' s' := by
  obtain ⟨vs, t₁, s₁, hd⟩ : ∃ vs t₁ s₁, Analysed c s t vs t₁ s₁ := by
    have hd := t.derives c
    cases t <;> exact (hd s).imp fun _ ⟨_, h⟩ => ⟨_, h⟩
  obtain ⟨hrun, rfl⟩ := hd.run_visits hc
  obtain ⟨rfl, rfl⟩ := hrun.unique h
  exact hd

/-- **The analysis of a function's body has a derivation.** -/
theorem Analysis.bodyEffect_derives (hc : c.Collects) (body : Block Span) (s : AnalysisState) :
    Yields c s (bodyEffect body) fun r s' => ∃ s₁, r.2 = .joinAll s₁.candidates ∧
      s' = { s₁ with candidates := s.candidates } ∧
      Analysed c { s with candidates := [] } (.block body)
        (body.visits c { s with candidates := [] }) (.block r.1) s₁ := by
  obtain ⟨vs, body', s₁, h⟩ := (Part.block body).derives c { s with candidates := [] }
  obtain ⟨hrun, rfl⟩ := h.run_visits hc
  exact ⟨(body', .joinAll s₁.candidates), { s₁ with candidates := s.candidates },
    bind_eq_of_ok (collecting_eq_of_ok hrun), s₁, rfl, rfl, h⟩

/-- The body of a function, in a scope in which its parameters have meanings. -/
theorem Analysis.functionBody_derives (hc : c.Collects) (entries : List (String × Binding))
    (body : Block Span) (s : AnalysisState) :
    Yields c s (inScope do defineAll entries; bodyEffect body) fun r s' =>
      ∃ s₁, r.2 = .joinAll s₁.candidates ∧
        s' = AnalysisState.closed { s₁ with candidates := s.candidates } ∧
        Analysed c { s.opened entries with candidates := [] } (.block body)
          (body.visits c { s.opened entries with candidates := [] }) (.block r.1) s₁ := by
  refine .inScope ((defineAll_yields entries _).bind fun _ s₁ h₁ => ?_)
  subst h₁
  refine (bodyEffect_derives hc body _).mono fun r s' h => ?_
  obtain ⟨s₁, hr, rfl, h⟩ := h
  exact ⟨s₁, hr, rfl, h⟩

end Derivations

end RaisingEffects
