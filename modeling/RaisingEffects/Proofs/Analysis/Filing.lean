import RaisingEffects.Proofs.Analysis.Occasions
import RaisingEffects.Proofs.Analysis.Trace

/-!
# What the walk over a body reports

`Filed os s s'` says that whatever was reported between the states has its occasion among `os`, one
for each report. `Analysed.filed` says so of the walk over a part of a body, with the occasions at
the nodes of the part. Faults of forwarding rules at calls are left out here: there are none, but
that depends on the signatures.
-/

namespace RaisingEffects

open Analysis

/-- What was reported between the states has its occasions among the given ones. Faults of
forwarding rules are not counted. -/
def Filed (os : List Occasion) (s s' : AnalysisState) : Prop :=
  ∃ new, s'.log = s.log ++ new ∧
    Reports os ((sitesIn (new.map Prod.snd)).filter fun site => site.topic ≠ .rule)

namespace Filed

variable {os os' : List Occasion} {s s' s'' : AnalysisState} {function : Option String}
  {entries : List LogEntry}

theorem quiet (h : s'.log = s.log) : Filed os s s' :=
  ⟨[], by rw [h, List.append_nil], .nil _⟩

theorem counted (h : Reports os ((sitesIn entries).filter fun site => site.topic ≠ .rule)) :
    Filed os s (s.logged function entries) := by
  refine ⟨_, rfl, ?_⟩
  rw [List.map_map]
  exact (List.map_id entries).symm ▸ h

theorem logged (h : Reports os (sitesIn entries)) : Filed os s (s.logged function entries) :=
  counted (h.sublist List.filter_sublist)

theorem silent (s : AnalysisState) : Filed os s (s.logged function []) := logged (.nil _)

theorem report {v : Violation} {o : Occasion} (hv : v.site ∈ o.sites) :
    Filed [o] s (s.logged function [.violation v]) := logged (.one hv)

theorem clause (isError : String → Bool) {clause? : Option (Option (Clause Span))}
    {ns : List (Node Span)} (h : ∀ clause ∈ clause?, ∀ c ∈ clause, .clause c ∈ ns) :
    Filed (occasionsIn ns) s (s.logged function (clauseEntries isError clause?)) := by
  cases clause? with
  | none => exact silent s
  | some clause => exact logged (Clause.fault?_reports isError (h clause rfl))

theorem trans (h : Filed os s s') (h' : Filed os' s' s'') : Filed (os ++ os') s s'' := by
  obtain ⟨new, hlog, hreports⟩ := h
  obtain ⟨more, hlog', hreports'⟩ := h'
  refine ⟨new ++ more, by rw [hlog', hlog, List.append_assoc], ?_⟩
  rw [List.map_append, sitesIn_append, List.filter_append]
  exact hreports.append hreports'

theorem mono (h : Filed os s s') (hos : ∀ P, os.countP P ≤ os'.countP P) : Filed os' s s' := by
  obtain ⟨new, hlog, hreports⟩ := h
  exact ⟨new, hlog, hreports.mono hos⟩

/-- What reports nothing comes last. -/
theorem snoc (h : Filed os s s') (h' : Filed [] s' s'') : Filed os s s'' := by
  have htrans := h.trans h'
  rwa [List.append_nil] at htrans

theorem append {ns ms : List (Node Span)} (h : Filed (occasionsIn ns) s s')
    (h' : Filed (occasionsIn ms) s' s'') : Filed (occasionsIn (ns ++ ms)) s s'' := by
  rw [occasionsIn_append]
  exact h.trans h'

/-- What a node itself is an occasion for is reported behind what is below it. -/
theorem node {n : Node Span} {ns : List (Node Span)} (h : Filed (occasionsIn ns) s s')
    (h' : Filed n.occasions s' s'') : Filed (occasionsIn (n :: ns)) s s'' := by
  refine (h.trans h').mono fun P => Nat.le_of_eq ?_
  rw [occasionsIn_cons, List.countP_append, List.countP_append, Nat.add_comm]

end Filed

/-! ## What happens at a node -/

namespace Analysis

variable {c : Context} {s s' : AnalysisState} {pos : Pos} {value : Expr Note}

/-- A type has at most one clause that is looked at. -/
theorem declaring_filed (s : AnalysisState) (c : Context) (type : Option (TypeExpr Span)) :
    Filed (occasionsIn (type.toList.flatMap TypeExpr.walk)) s (s.declaring c type) := by
  rw [AnalysisState.declaring]
  cases type with
  | none => exact (Filed.silent s).snoc (.silent _)
  | some type =>
    rw [Option.toList_some, List.flatMap_singleton]
    cases type with
    | fn loc params clause result =>
      refine (Filed.clause c.isError fun _ hclause c hc => ?_).snoc (.silent _)
      cases hclause
      cases hc
      simp [TypeExpr.walk_fn]
    | named loc name args =>
      rw [show clauseEntries c.isError (functionClause? (some (.named loc name args))) = []
        from rfl, AnalysisState.logged_nil]
      exact .clause c.isError fun _ h => mem_walk_of_elementClause? h

/-- What a call by a rule reports is not counted. -/
theorem called_reports (f : Forwarding) (pos : Pos) (arguments : List Effect)
    (os : List Occasion) :
    Reports os ((sitesIn (f.called pos arguments).2).filter fun site => site.topic ≠ .rule) := by
  have hnone : (sitesIn (f.called pos arguments).2).filter (fun site => site.topic ≠ .rule) =
      [] := by
    refine List.filter_eq_nil_iff.2 fun site hsite => ?_
    obtain ⟨entry, hentry, hsite⟩ := List.mem_filterMap.1 hsite
    cases entry with
    | violation v =>
      cases hsite
      obtain ⟨w, hw, rfl⟩ := Forwarding.of_mem_called hentry
      simp [Violation.site, Violation.cause_locate, Forwarding.topic_of_callSite hw]
    | _ => cases hsite
  rw [hnone]
  exact .nil os

theorem call_filed (pos : Pos) (callee : String) (args : List (Expr Note))
    (function : Option String) :
    Filed ((List.range args.length).map fun i => ⟨.argument i, [pos]⟩) s
      (s.logged function (s.env.called callee pos args).2) := by
  have hfaults (params : List (Option Effect)) :
      Reports ((List.range args.length).map fun i => ⟨.argument i, [pos]⟩) (sitesIn
        ((argumentFaults callee pos (args.map s.env.effectOf) 0 params).map .violation)) := by
    rw [sitesIn_violations]
    have hsites := argumentFaults_sites callee pos (args.map s.env.effectOf) 0 params
    rw [Nat.sub_zero, List.length_map, ← List.range_eq_range'] at hsites
    exact (Reports.map fun i _ => List.mem_singleton.2 rfl).sublist hsites
  cases hb : s.env.lookup callee with
  | none =>
    rw [Env.called_of_other (by simp [hb])]
    exact .silent s
  | some b =>
    rw [Env.called_of_some hb]
    by_cases hkind : b.kind = .callable
    · cases hrule : b.forwarding with
      | none =>
        rw [Binding.called_direct hkind hrule]
        exact .logged (hfaults b.params)
      | some f =>
        rw [Binding.called_rule hkind hrule]
        split
        · exact .counted (called_reports f pos _ _)
        · exact .logged (hfaults b.params)
    · rw [Binding.called, if_neg hkind]
      exact .silent s

theorem raised_filed (isError : String → Bool) (function : Option String) :
    Filed [⟨.errorType, Node.starts [.expr (value.map Note.span)]⟩] s
      (s.logged function (s.env.raised isError value).2) := by
  rcases s.env.raised_entries isError value with hnone | ⟨name, loc, hloc, hone⟩
  · exact hnone ▸ .silent s
  · rw [hone]
    refine .report (List.mem_map.2 ⟨_, Node.mem_starts (List.mem_singleton.2 rfl) ?_, rfl⟩)
    exact Node.start?_map_span hloc

theorem closure_filed (span : Span) (clause : Option (Clause Span)) (candidates : List Effect) :
    Filed (occasionsIn (clause.toList.map .clause) ++ [⟨.raises, [span.start]⟩]) s
      (s.logged c.function (closureOutcome c span candidates clause).2) := by
  cases clause with
  | none => exact .silent s
  | some clause =>
    have hclause : Filed (occasionsIn [.clause clause]) s
        (s.logged c.function (clauseEntries c.isError (some clause))) := by
      refine .clause c.isError fun _ h c hc => ?_
      cases h
      cases hc
      exact List.mem_singleton.2 rfl
    rw [closureOutcome]
    split
    · exact hclause.mono fun P => by simp
    · rw [← AnalysisState.logged_logged]
      exact hclause.trans (.report (List.mem_singleton.2 rfl))

theorem collection_filed (policy : Policy) (kind : CollectionKind) (declared : Option Effect)
    (elements : List (Expr Note)) (function : Option String) :
    Filed [⟨.element, Node.starts ((Expr.mapAll Note.span elements).map .expr)⟩] s
      (s.logged function
        (elementEntries policy kind declared elements (elements.map s.env.effectOf))) := by
  rw [elementEntries]
  cases hof : Aggregate.ofElements policy declared kind.noun (elements.map s.env.effectOf) with
  | ok a => exact .silent s
  | error m =>
    obtain ⟨i, e, bound, hindex, he, hfits⟩ := Aggregate.ofElements_error hof
    rw [List.getElem?_map, Option.map_eq_some_iff] at he
    obtain ⟨element, helement, rfl⟩ := he
    obtain ⟨loc, hloc⟩ := Env.loc?_of_fits hfits
    refine .report (List.mem_map.2 ⟨_, Node.mem_starts ?_ (Node.start?_map_span hloc), ?_⟩)
    · rw [Expr.mapAll_eq_map]
      exact List.mem_map_of_mem (List.mem_map_of_mem (List.mem_of_getElem? helement))
    · simp [Violation.site, Cause.topic, hindex, elementPos, helement, hloc]

theorem bound_filed (name : String) (type : Option (TypeExpr Span)) :
    Filed [⟨.bound, [pos]⟩] s (s.logged c.function (s.bound c name pos type value).2.2) := by
  refine .logged ?_
  rw [AnalysisState.bound]
  cases c.functionEffect? type with
  | none => exact .nil _
  | some d =>
    rw [Env.bound]
    split
    · exact .nil _
    · exact .one (List.mem_singleton.2 rfl)

theorem Assigns.filed {target : String} {e : Option Effect}
    (h : Assigns c target pos value s e s') : Filed [⟨.bound, [pos]⟩] s s' := by
  cases h with
  | fits => exact .quiet rfl
  | mismatch => exact (Filed.report (List.mem_singleton.2 rfl)).snoc (.quiet rfl)

theorem Inserts.filed {target : String} {e : Option Effect}
    (h : Inserts c target pos value s e s') : Filed [⟨.bound, [pos]⟩] s s' := by
  cases h with
  | nowhere | accepted => exact .quiet rfl
  | @refused _ _ m _ _ hm =>
    have hindex : m.index = none := by
      unfold Aggregate.insert at hm
      split at hm
      · cases hm
      · split at hm <;> cases hm
        rfl
    refine .report (List.mem_singleton.2 ?_)
    simp [Violation.site, Violation.at_, Cause.topic, hindex]

end Analysis

/-! ## The walk over a body -/

/-- **What the walk over a part reports has its occasions at the nodes of the part.** -/
theorem Analysed.filed {c : Context} {s s' : AnalysisState} {t : Part Span} {vs : List Visit}
    {t' : Part Note} (h : Analysed c s t vs t' s') :
    Filed (occasionsIn t.nodes) s s' := by
  induction h with
  | name | literal | exprsNil | returnNone | stmtsNil | restNone => exact .quiet rfl
  | bodyBlock _ ih | bodyExpr _ ih | stmtExpr _ ih | restBlock _ ih => exact ih
  | unary _ ih | returnSome _ ih | block _ ih => exact ih.node (.quiet rfl)
  | exprsCons _ _ ih₁ ih₂ | stmtsCons _ _ ih₁ ih₂ => exact ih₁.append ih₂
  | binary _ _ ih₁ ih₂ | while_ _ _ ih₁ ih₂ | try_ _ _ ih₁ ih₂ | for_ _ _ ih₁ ih₂ =>
    exact (ih₁.append ih₂).node (.quiet rfl)
  | elif _ _ _ ih₁ ih₂ ih₃ => exact ih₁.append (ih₂.append ih₃)
  | if_ _ _ _ ih₁ ih₂ ih₃ => exact (ih₁.append (ih₂.append ih₃)).node (.quiet rfl)
  | @call s s₁ span callee args args' vs hargs ih =>
    have hcall := call_filed (s := s₁) span.start callee args' c.function
    rw [show args'.length = args.length by
      rw [← Part.exprs.inj hargs.traced.1, Expr.mapAll_eq_map, List.length_map]] at hcall
    exact ih.node (hcall.snoc (.quiet rfl))
  | @closure s s₁ span params clause body body' vs _ ih =>
    have hparams : Filed (occasionsIn (params.flatMap Param.nodes)) s (s.inClosure c params) :=
      (Filed.logged (Param.flatMap_entries_reports c.isError params)).snoc (.quiet rfl)
    rw [← AnalysisState.logged_logged]
    refine ((hparams.trans ih).trans (Filed.snoc
      (closure_filed (s := s₁) span clause s₁.candidates) (.logged (.nil _)))).mono fun P => ?_
    simp only [Part.nodes, Expr.nodes, occasionsIn_cons, occasionsIn_append, Node.occasions,
      List.countP_append]
    omega
  | collection helements ih =>
    obtain rfl := Part.exprs.inj helements.traced.1
    exact ih.node ((collection_filed ..).snoc (.quiet rfl))
  | @letCollection s _ _ _ _ type cspan kind _ elements' _ helements ih =>
    obtain rfl := Part.exprs.inj helements.traced.1
    have hcollection := ih.node (n := .expr (.collection cspan kind _))
      (collection_filed c.policy kind (c.elementEffect? type) elements' c.function)
    exact ((declaring_filed s c type).append hcollection).node (.quiet rfl)
  | letValue _ _ ih =>
    exact ((declaring_filed ..).append ih).node ((bound_filed ..).snoc (.quiet rfl))
  | assign _ he ih | insert _ he ih => exact ih.node he.filed
  | raise h ih =>
    obtain rfl := Part.expr.inj h.traced.1
    exact ih.node ((raised_filed ..).snoc (.quiet rfl))

end RaisingEffects
