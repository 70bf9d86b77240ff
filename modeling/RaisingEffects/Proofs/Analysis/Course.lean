import RaisingEffects.Proofs.Analysis.Changes
import RaisingEffects.Proofs.Analysis.Invariant
import RaisingEffects.Proofs.Analysis.Occasions
import RaisingEffects.Proofs.Tree.WellFormed

/-!
# The course of an analysis

A `Course` is what the walk over a body goes through from one state to another:

* it is a run of changes, with the visits of the walk between them, all in one context;
* every node that it returns, types and clauses apart, is what the analysis of a visited node
  returns in the state of the visit (`Visit.Returns`);
* every violation that it reports is one that a visited node is at fault for (`Faults`).

`Analysed.course` shows that the analysis of every tree takes such a course. While the parts of one
node are put together, what the node itself reports is kept apart as its `own` violations; the node
is then added together with its visit.
-/

namespace RaisingEffects

namespace Analysis

/-! ## Faults -/

/-- What the node, analysed in the given context and state, may report. -/
inductive Faults (c : Context) (s : AnalysisState) : Node Span → Violation → Prop
  | argument (span : Span) (callee : String) (args : List (Expr Span)) (w : Violation)
      (position : Nat) (expected actual : Effect)
      (hw : w.cause = .argumentMismatch callee position expected actual) :
      Faults c s (.expr (.call span callee args)) w
  | rule (span : Span) (callee : String) (args : List (Expr Span)) (w : Violation)
      (hw : w.cause.topic = .rule) : Faults c s (.expr (.call span callee args)) w
  | closureClause (span : Span) (params : List (Param Span)) (clause : Option (Clause Span))
      (body : Body Span) (w : Violation) (type : String) (hw : w.cause = .clauseNotError type) :
      Faults c s (.expr (.closure span params clause body)) w
  | closureBody (span : Span) (params : List (Param Span)) (clause : Option (Clause Span))
      (body : Body Span) (w : Violation) (declared raised : Effect)
      (hw : w.cause = .closureRaises declared raised) :
      Faults c s (.expr (.closure span params clause body)) w
  /-- An element of a collection that stands as an expression. -/
  | element (span : Span) {kind : CollectionKind} {elements : List (Expr Span)}
      {es : List (Expr Note)} {s' : AnalysisState} {m : Misfit}
      (hrun : Expr.analyseAll elements c s = (.ok es, s'))
      (hm : Aggregate.ofElements c.policy none kind.noun (es.map s'.env.effectOf) = .error m) :
      Faults c s (.expr (.collection span kind elements))
        { cause := .misfit m, pos := elementPos es m.index }
  | letClause (span : Span) (name : String) (isMut : Bool) (declaration : Option (TypeExpr Span))
      (value : Expr Span) (w : Violation) (type : String) (hw : w.cause = .clauseNotError type) :
      Faults c s (.stmt (.let_ span name isMut declaration value)) w
  | letValue (span : Span) (name : String) (isMut : Bool) (type : Option (TypeExpr Span))
      (value : Expr Span) (w : Violation) (declared actual : Effect)
      (hw : w.cause = .letMismatch name declared actual) :
      Faults c s (.stmt (.let_ span name isMut type value)) w
  /-- An element of a collection that a name is bound to. -/
  | letElement (span : Span) (name : String) (isMut : Bool) {type : Option (TypeExpr Span)}
      (cspan : Span) {kind : CollectionKind} {elements : List (Expr Span)} {es : List (Expr Note)}
      {s' : AnalysisState} {m : Misfit}
      (hrun : Expr.analyseAll elements c ((enterLet type).final c s) = (.ok es, s'))
      (hm : Aggregate.ofElements c.policy
        ((type.bind elementClause?).map (Clause.declared c.isError)) kind.noun
        (es.map s'.env.effectOf) = .error m) :
      Faults c s (.stmt (.let_ span name isMut type (.collection cspan kind elements)))
        { cause := .misfit m, pos := elementPos es m.index }
  | assigned (span : Span) (target : String) (value : Expr Span) (w : Violation)
      (declared actual : Effect) (hw : w.cause = .assignMismatch target declared actual) :
      Faults c s (.stmt (.assign span target value)) w
  /-- A value that a collection does not accept. -/
  | inserted (span : Span) {target : String} (how : Insertion) {value : Expr Span}
      {value' : Expr Note} {s' : AnalysisState} {id : Nat} {a : Aggregate} {m : Misfit}
      (hrun : value.analyse c s = (.ok value', s'))
      (hid : (s'.env.lookup target).bind Binding.aggregate = some id)
      (ha : s'.aggregates[id]? = some a)
      (hm : a.insert (s'.env.effectOf value') none = .error m) :
      Faults c s (.stmt (.insert span target how value)) (.at_ (.misfit m) span.start)
  | raised (span : Span) (value : Expr Span) (w : Violation) (type : String)
      (hw : w.cause = .raisedNotError type) : Faults c s (.stmt (.raise span value)) w

end Analysis

open Analysis

/-- The visited node is at fault for the violation, which is reported on behalf of the function. -/
def Visit.Reports (v : Visit) (function : Option String) (w : Violation) : Prop :=
  function = v.context.function ∧ Faults v.context v.state v.node w

/-- The analysis of the visited node returns the given node. -/
def Visit.Returns (v : Visit) : Node Note → Prop
  | .expr e' => ∃ e s', v.node = .expr e ∧ e.analyse v.context v.state = (.ok e', s')
  | .stmt t' => ∃ t s', v.node = .stmt t ∧ t.analyse v.context v.state = (.ok t', s')
  | .block b' => ∃ b s', v.node = .block b ∧ b.analyse v.context v.state = (.ok b', s')
  | _ => False

namespace Analysis

/-- What an analysis goes through from one state to another. -/
structure Course (c : Context) (own : Violation → Prop) (names : List String) (d : Nat)
    (s s' : AnalysisState) (visits : List Visit) (nodes : List (Node Note)) : Prop where
  run : Run c.policy names d s visits d s'
  contexts : ∀ v ∈ visits, v.context = c
  returned : ∀ n ∈ nodes, n.ofSignature = false → ∃ v ∈ visits, v.Returns n
  reported : ∃ new, s'.log = s.log ++ new ∧ ∀ function w, (function, .violation w) ∈ new →
    (function = c.function ∧ own w) ∨ ∃ v ∈ visits, v.Reports function w

namespace Course

variable {c : Context} {own : Violation → Prop} {names : List String} {d : Nat}
  {s s' s'' : AnalysisState} {vs ws : List Visit} {ns ms : List (Node Note)}

/-- A run without visits that reports what is given. -/
theorem of_run (h : Run c.policy names d s [] d s') {new : List (Option String × LogEntry)}
    (hlog : s'.log = s.log ++ new)
    (hnew : ∀ function w, (function, .violation w) ∈ new → function = c.function ∧ own w) :
    Course c own names d s s' [] [] where
  run := h
  contexts := by simp
  returned := by simp
  reported := ⟨new, hlog, fun function w hw => .inl (hnew function w hw)⟩

/-- A run without visits that writes nothing to the log. -/
theorem quiet (h : Run c.policy names d s [] d s') (hlog : s'.log = s.log) :
    Course c own names d s s' [] [] :=
  .of_run h (hlog.trans (List.append_nil _).symm) (by simp)

theorem refl (s : AnalysisState) : Course c own names d s s [] [] := .quiet (.refl d s) rfl

theorem candidates (s : AnalysisState) (candidates : List Effect) :
    Course c own names d s { s with candidates } [] [] :=
  .quiet (.one (.candidates d s candidates)) rfl

theorem aggregate {a : Aggregate} (h : a.Made c.policy) (s : AnalysisState) :
    Course c own names d s { s with aggregates := s.aggregates ++ [a] } [] [] :=
  .quiet (.one (.aggregate d s h)) rfl

theorem define {name : String} {b : Binding} (hname : d = 0 → name ∈ names)
    (hb : s.Linked → b.Follows s.aggregates) :
    Course c own names d s { s with env := s.env.define name b } [] [] :=
  .quiet (.one (.define hname hb)) rfl

theorem trans (h : Course c own names d s s' vs ns) (h' : Course c own names d s' s'' ws ms) :
    Course c own names d s s'' (vs ++ ws) (ns ++ ms) where
  run := h.run.trans h'.run
  contexts := fun v hv => (List.mem_append.1 hv).elim (h.contexts v) (h'.contexts v)
  returned := by
    intro n hn hsig
    rcases List.mem_append.1 hn with hn | hn
    · obtain ⟨v, hv, hreturns⟩ := h.returned n hn hsig
      exact ⟨v, List.mem_append_left _ hv, hreturns⟩
    · obtain ⟨v, hv, hreturns⟩ := h'.returned n hn hsig
      exact ⟨v, List.mem_append_right _ hv, hreturns⟩
  reported := by
    obtain ⟨new, hlog, hnew⟩ := h.reported
    obtain ⟨more, hlog', hmore⟩ := h'.reported
    refine ⟨new ++ more, by rw [hlog', hlog, List.append_assoc], fun function w hw => ?_⟩
    rcases List.mem_append.1 hw with hw | hw
    · refine (hnew function w hw).imp_right fun hv => ?_
      obtain ⟨v, hv, hreports⟩ := hv
      exact ⟨v, List.mem_append_left _ hv, hreports⟩
    · refine (hmore function w hw).imp_right fun hv => ?_
      obtain ⟨v, hv, hreports⟩ := hv
      exact ⟨v, List.mem_append_right _ hv, hreports⟩

/-- A part without visits comes last. -/
theorem snoc (h : Course c own names d s s' vs ns) (h' : Course c own names d s' s'' [] []) :
    Course c own names d s s'' vs ns := by
  have hcourse := h.trans h'
  rwa [List.append_nil, List.append_nil] at hcourse

/-- A part without visits comes first. -/
theorem cons (h : Course c own names d s s' [] []) (h' : Course c own names d s' s'' vs ns) :
    Course c own names d s s'' vs ns := h.trans h'

/-- A course that reports nothing on its own account is part of any other. -/
theorem lift (h : Course c (fun _ => False) names d s s' vs ns) :
    Course c own names d s s' vs ns where
  run := h.run
  contexts := h.contexts
  returned := h.returned
  reported := by
    obtain ⟨new, hlog, hnew⟩ := h.reported
    exact ⟨new, hlog, fun function w hw => (hnew function w hw).imp_left fun hown => hown.2.elim⟩

/-- The nodes may be listed in any order and any number of times, with types and clauses. -/
theorem relist (h : Course c own names d s s' vs ns)
    (hm : ∀ n ∈ ms, n ∈ ns ∨ n.ofSignature = true) : Course c own names d s s' vs ms where
  run := h.run
  contexts := h.contexts
  returned := by
    intro n hn hsig
    rcases hm n hn with hn | hn
    · exact h.returned n hn hsig
    · rw [hsig] at hn
      cases hn
  reported := h.reported

theorem with_signature (h : Course c own names d s s' vs ns)
    (hm : ∀ n ∈ ms, n.ofSignature = true) : Course c own names d s s' vs (ns ++ ms) :=
  h.relist fun n hn => (List.mem_append.1 hn).imp_right (hm n)

/-- What the parts of a node report on its own account is reported by its visit. -/
theorem visit {n : Node Span} {n' : Node Note}
    (h : Course c (Faults c s n) names d s s' vs ns)
    (hn : Visit.Returns ⟨c, s, n⟩ n') :
    Course c (fun _ => False) names d s s' (⟨c, s, n⟩ :: vs) (n' :: ns) where
  run := .visit ⟨c, s, n⟩ h.run
  contexts := List.forall_mem_cons.2 ⟨rfl, h.contexts⟩
  returned := by
    intro m hm hsig
    rcases List.mem_cons.1 hm with rfl | hm
    · exact ⟨_, List.mem_cons_self .., hn⟩
    · obtain ⟨v, hv, hreturns⟩ := h.returned m hm hsig
      exact ⟨v, List.mem_cons_of_mem _ hv, hreturns⟩
  reported := by
    obtain ⟨new, hlog, hnew⟩ := h.reported
    refine ⟨new, hlog, fun function w hw => .inr ?_⟩
    rcases hnew function w hw with hown | ⟨v, hv, hreports⟩
    · exact ⟨_, List.mem_cons_self .., hown⟩
    · exact ⟨v, List.mem_cons_of_mem _ hv, hreports⟩

theorem inScope (h : Course c own names (d + 1) { s with env := [] :: s.env } s' vs ns) :
    Course c own names d s { s' with env := s'.env.drop 1 } vs ns where
  run := .change (.enter d s) (h.run.snoc (.leave d s'))
  contexts := h.contexts
  returned := h.returned
  reported := h.reported

theorem collecting (h : Course c own names d { s with candidates := [] } s' vs ns) :
    Course c own names d s { s' with candidates := s.candidates } vs ns where
  run := .change (.candidates d s []) (h.run.snoc (.candidates d s' s.candidates))
  contexts := h.contexts
  returned := h.returned
  reported := h.reported

end Course

/-! ## What happens at a node -/

section Parts

variable {c : Context} {own : Violation → Prop} {names : List String} {d : Nat}
  {s s' : AnalysisState} {pos : Pos} {value : Expr Note}

/-- What is written to the log in one go. -/
theorem Course.logged {entries : List LogEntry}
    (hown : ∀ w, .violation w ∈ entries → own w) :
    Course c own names d s (s.logged c.function entries) [] [] := by
  refine .of_run (.one (.log d s _)) rfl fun function w hw => ?_
  obtain ⟨entry, hentry, heq⟩ := List.mem_map.1 hw
  cases heq
  exact ⟨rfl, hown w hentry⟩

theorem Course.silent (s : AnalysisState) :
    Course c own names d s (s.logged c.function []) [] [] := .logged (by simp)

/-- What is reported about one cause. -/
theorem Course.report {v : Violation} (hv : own v) :
    Course c own names d s (s.logged c.function [.violation v]) [] [] := by
  refine .logged fun w hw => ?_
  cases List.mem_singleton.1 hw
  exact hv

theorem Course.clause (hown : ∀ w type, w.cause = .clauseNotError type → own w)
    (clause? : Option (Option (Clause Span))) :
    Course c own names d s (s.logged c.function (clauseEntries c.isError clause?)) [] [] := by
  refine .logged fun w hw => ?_
  obtain ⟨type, hcause⟩ := cause_of_mem_clauseEntries hw
  exact hown _ type hcause

theorem Course.called {callee : String} (pos : Pos) (args : List (Expr Note))
    (harguments : ∀ w i expected actual,
      w.cause = .argumentMismatch callee i expected actual → own w)
    (hrule : ∀ w, w.cause.topic = .rule → own w) :
    Course c own names d s (s.logged c.function (s.env.called callee pos args).2) [] [] := by
  refine .logged fun w hw => ?_
  rcases Env.of_mem_called hw with ⟨i, expected, actual, hcause⟩ | ⟨f, effects, v, hv, rfl⟩
  · exact harguments _ i expected actual hcause
  · refine hrule _ ?_
    rw [Violation.cause_locate]
    exact Forwarding.topic_of_callSite hv

theorem Course.raised (value : Expr Note)
    (hown : ∀ w type, w.cause = .raisedNotError type → own w) :
    Course c own names d s (s.logged c.function (s.env.raised c.isError value).2) [] [] := by
  rcases s.env.raised_entries c.isError value with hnone | ⟨name, loc, -, hone⟩
  · exact hnone ▸ .silent s
  · exact hone ▸ .report (hown _ name rfl)

theorem Course.closure (span : Span) (clause : Option (Clause Span)) (candidates : List Effect)
    (hclause : ∀ w type, w.cause = .clauseNotError type → own w)
    (hraises : ∀ w declared raised, w.cause = .closureRaises declared raised → own w) :
    Course c own names d s (s.logged c.function ((closureOutcome c span candidates clause).2 ++
      [.closure span (closureOutcome c span candidates clause).1])) [] [] := by
  rw [← AnalysisState.logged_logged]
  refine .snoc ?_ (.logged (by simp))
  cases clause with
  | none => exact .silent s
  | some clause =>
    rw [closureOutcome]
    split
    · exact .clause hclause _
    · rw [← AnalysisState.logged_logged]
      exact (Course.clause hclause _).snoc (.report (hraises _ _ _ rfl))

/-- Making an aggregate reports the element that does not fit. -/
theorem Course.elements {kind : CollectionKind} (declared : Option Effect)
    (elements : List (Expr Note))
    (hown : ∀ m, Aggregate.ofElements c.policy declared kind.noun
      (elements.map s.env.effectOf) = .error m →
        own { cause := .misfit m, pos := elementPos elements m.index }) :
    Course c own names d s { s.logged c.function
        (elementEntries c.policy kind declared elements (elements.map s.env.effectOf)) with
      aggregates := s.aggregates ++
        [.settled c.policy declared kind.noun (elements.map s.env.effectOf)] } [] [] := by
  rw [elementEntries, Aggregate.settled]
  cases hof : Aggregate.ofElements c.policy declared kind.noun (elements.map s.env.effectOf) with
  | ok a => exact (Course.silent s).snoc (.aggregate (.elements hof) _)
  | error m =>
    refine (Course.report (hown m hof)).snoc (.aggregate ?_ _)
    cases declared with
    | none => exact .anything kind.noun
    | some e => exact .declared e kind.noun

/-- A name is bound to something that follows its aggregate: a new meaning has none, and that of
another name follows already. -/
theorem bindingOf_follows (hs : s.Linked) (isError : String → Bool) (type : Option (TypeExpr Span))
    (e : Expr Note) : (s.env.bindingOf isError type e).Follows s.aggregates := by
  have hannotated : (annotated isError type).Follows s.aggregates := by
    unfold annotated
    split <;> exact .of_none rfl
  cases e with
  | closure => exact .of_none rfl
  | call loc callee args =>
    rw [Env.bindingOf]
    split
    · exact .of_none rfl
    · exact hannotated
  | name loc id =>
    rw [Env.bindingOf]
    cases hb : effectful? (s.env.lookup id) with
    | none => exact hannotated
    | some b => exact hs.lookup (Option.filter_eq_some_iff.1 hb).1
  | _ => exact hannotated

theorem Course.bound {name : String} (pos : Pos) (type : Option (TypeExpr Span))
    (value : Expr Note) (hname : d = 0 → name ∈ names)
    (hown : ∀ w declared actual, w.cause = .letMismatch name declared actual → own w) :
    Course c own names d s { s.logged c.function (s.bound c name pos type value).2.2 with
      env := s.env.define name (s.bound c name pos type value).2.1 } [] [] := by
  have hplain (s : AnalysisState) (e : Effect) : Course c own names d s
      { s with env := s.env.define name (.callable e) } [] [] :=
    .define hname fun _ => .of_none rfl
  rw [AnalysisState.bound]
  cases c.functionEffect? type with
  | none =>
    refine (Course.silent s).snoc (.define hname fun hs => ?_)
    exact bindingOf_follows hs c.isError type value
  | some d =>
    rw [Env.bound]
    split
    · exact (Course.silent s).snoc (hplain _ d)
    · exact (Course.report (hown _ _ _ rfl)).snoc (hplain _ .raisesAny)

theorem Assigns.course {target : String} {e : Option Effect}
    (h : Assigns c target pos value s e s')
    (hown : ∀ w declared actual,
      w.cause = .assignMismatch target declared actual → own w) :
    Course c own names d s s' [] [] := by
  cases h with
  | fits => exact .refl s
  | mismatch hb hkind hfits =>
    refine .of_run (.one (.assign d hb hkind hfits c.function pos)) rfl fun function w hw => ?_
    cases List.mem_singleton.1 hw
    exact ⟨rfl, hown _ _ _ rfl⟩

theorem Inserts.course {target : String} {e : Option Effect}
    (h : Inserts c target pos value s e s')
    (hown : ∀ id a m, (s.env.lookup target).bind Binding.aggregate = some id →
      s.aggregates[id]? = some a → a.insert (s.env.effectOf value) none = .error m →
        own (.at_ (.misfit m) pos)) : Course c own names d s s' [] [] := by
  cases h with
  | nowhere => exact .refl s
  | accepted _ ha hinsert => exact .quiet (.one (.insert d ha hinsert)) rfl
  | refused hid ha hm => exact .report (hown _ _ _ hid ha hm)

end Parts

end Analysis

end RaisingEffects
