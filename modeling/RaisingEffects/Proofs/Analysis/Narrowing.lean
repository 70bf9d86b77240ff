import RaisingEffects.Proofs.Analysis.Bodies
import RaisingEffects.Proofs.Analysis.Policies

/-!
# Bodies under two policies

A body is walked under the precise and under the compatibility policy. As long as the second walk
finds no violation, every effect that the first notes at a call, raise or closure narrows the one
that the second notes there (`Analysed.narrowed`, by one induction over the derivations), and so
does the effect of the whole body.
-/

namespace RaisingEffects

variable {p : Part Span}

/-! ## Narrower nodes -/

/-- What a call, raise or closure raises, or the body of a function. -/
def Node.raised? : Node Note → Option Effect
  | .expr (.call loc _ _) => loc.effect
  | .expr (.closure loc _ _ _) => loc.effect
  | .stmt (.raise loc _) => loc.effect
  | .function g => g.loc.bodyEffect
  | _ => none

/-- What is raised at the first node narrows what is raised at the second. -/
def Node.Narrows (n n' : Node Note) : Prop := Option.Rel Effect.Narrows n.raised? n'.raised?

/-- The nodes of the first list narrow those of the second. -/
def NodesNarrow (ns ns' : List (Node Note)) : Prop := List.Forall₂ Node.Narrows ns ns'

namespace NodesNarrow

variable {ns ns' ms ms' : List (Node Note)} {n n' : Node Note}

theorem silent (hn : n.raised? = none) (hn' : n'.raised? = none) (h : NodesNarrow ns ns') :
    NodesNarrow (n :: ns) (n' :: ns') := by
  refine .cons ?_ h
  rw [Node.Narrows, hn, hn']
  exact .none

theorem raising {d e : Effect} (hn : n.raised? = some d) (hn' : n'.raised? = some e)
    (hde : d.Narrows e) (h : NodesNarrow ns ns') : NodesNarrow (n :: ns) (n' :: ns') := by
  refine .cons ?_ h
  rw [Node.Narrows, hn, hn']
  exact .some hde

theorem append (h : NodesNarrow ns ns') (h' : NodesNarrow ms ms') :
    NodesNarrow (ns ++ ms) (ns' ++ ms') := List.rel_append h h'

theorem refl (ns : List (Node Note)) : NodesNarrow ns ns := by
  refine List.forall₂_same.2 fun n _ => ?_
  rw [Node.Narrows]
  cases n.raised? with
  | none => exact .none
  | some e => exact .some (.refl e)

theorem with_clause (h : NodesNarrow ns ns') (clause : Option (Clause Note)) :
    NodesNarrow (ns ++ clause.toList.map .clause) (ns' ++ clause.toList.map .clause) :=
  h.append (.refl _)

theorem with_types (h : NodesNarrow ns ns') (type : Option (TypeExpr Note)) :
    NodesNarrow (ns ++ type.toList.flatMap TypeExpr.walk)
      (ns' ++ type.toList.flatMap TypeExpr.walk) :=
  h.append (.refl _)

end NodesNarrow

open Analysis

variable {c : Context}

/-! ## The induction -/

/-- What is returned for an expression is narrower, as far as it is read as a value. -/
def Part.Narrows : Part Note → Part Note → Prop
  | expr e, expr e' => e.Narrows e'
  | exprs es, exprs es' => List.Forall₂ Expr.Narrows es es'
  | _, _ => True

/-- What finds no violation started without one. -/
theorem Analysed.clean {s s' : AnalysisState} {x : Part Note} {vs : List Visit} (hc : c.Collects)
    (h : Analysed c s p vs x s') (hclean : s'.Clean) : s.Clean :=
  hclean.earlier (h.log_extends hc)

/-- **A part has narrower effects under the precise policy**, if the compatibility policy finds no
violation. -/
theorem Analysed.narrowed (hc : c.Collects) {x y : Part Note} {vs ws : List Visit}
    {s s' t t' : AnalysisState} (h : Analysed (c.under .precise) s p vs x s')
    (h' : Analysed (c.under .compatibility) t p ws y t') (hclean : t'.Clean) (hs : s.Narrows t) :
    x.Narrows y ∧ NodesNarrow x.walk y.walk ∧ s'.Narrows t' := by
  have hc' := hc.under .compatibility
  induction h generalizing t ws y t' with
  | name => cases h'; exact ⟨.name .., .silent rfl rfl .nil, hs⟩
  | literal => cases h'; exact ⟨.literal .., .silent rfl rfl .nil, hs⟩
  | exprsNil => cases h'; exact ⟨.nil, .nil, hs⟩
  | returnNone => cases h'; exact ⟨trivial, .silent rfl rfl .nil, hs⟩
  | stmtsNil | restNone => cases h'; exact ⟨trivial, .nil, hs⟩
  | call _ ih =>
    cases h' with | call h₁ =>
    obtain ⟨hclean₁, hquiet⟩ := AnalysisState.clean_logged.1 hclean
    obtain ⟨hes, hns, hs₁⟩ := ih h₁ hclean₁ hs
    obtain ⟨hde, hquiet⟩ := hs₁.env.called _ _ hes hquiet
    refine ⟨.call .., .raising rfl rfl hde hns, { hs₁ with
      candidates := List.rel_append hs₁.candidates
        (List.rel_filter (fun _ _ h => Bool.eq_iff_iff.1 h.raising) (.cons hde .nil))
      placements := hs₁.placing_quiet hquiet c.function }⟩
  | @closure s s₁ span params clause _ _ _ _ ih =>
    cases h' with | @closure _ t₁ _ _ _ _ _ _ h₁ =>
    obtain ⟨hclean₁, hquiet⟩ := AnalysisState.clean_logged.1 hclean
    obtain ⟨-, hns, hs₁⟩ := ih h₁ hclean₁ (hs.inClosure _ params (h₁.clean hc' hclean₁))
    obtain ⟨hde, hquiet⟩ := closureOutcome_narrows c span clause hs₁.candidates
      fun v hv => hquiet v (List.mem_append_left _ hv)
    have hnoted : Quiet ((closureOutcome (c.under .precise) span s₁.candidates clause).2 ++
      [.closure span (closureOutcome (c.under .precise) span s₁.candidates clause).1]) := by
      simpa [Quiet] using hquiet
    exact ⟨.closure rfl rfl hde .., .raising rfl rfl hde (hns.with_clause _), hs₁.env.pop,
      hs₁.aggregates, hs.candidates, hs₁.placing_quiet hnoted c.function⟩
  | collection _ ih =>
    cases h' with | collection h₁ =>
    obtain ⟨hclean₁, hquiet⟩ := AnalysisState.clean_logged.1 hclean
    obtain ⟨hes, hns, hs₁⟩ := ih h₁ hclean₁ hs
    obtain ⟨haa, hplacements⟩ := hs₁.collection _ _ hes hquiet
    exact ⟨.collection .., .silent rfl rfl hns,
      { hs₁.newAggregate haa with placements := hs₁.placing hplacements c.function }⟩
  | binary _ _ ih₁ ih₂ =>
    cases h' with | binary h₁ h₂ =>
    obtain ⟨-, hns₁, hs₁⟩ := ih₁ h₁ (h₂.clean hc' hclean) hs
    obtain ⟨-, hns₂, hs₂⟩ := ih₂ h₂ hclean hs₁
    exact ⟨.binary .., .silent rfl rfl (hns₁.append hns₂), hs₂⟩
  | unary _ ih =>
    cases h' with | unary h₁ =>
    obtain ⟨-, hns, hs₁⟩ := ih h₁ hclean hs
    exact ⟨.unary .., .silent rfl rfl hns, hs₁⟩
  | exprsCons _ _ ih₁ ih₂ =>
    cases h' with | exprsCons h₁ h₂ =>
    obtain ⟨he, hns₁, hs₁⟩ := ih₁ h₁ (h₂.clean hc' hclean) hs
    obtain ⟨hes, hns₂, hs₂⟩ := ih₂ h₂ hclean hs₁
    exact ⟨.cons he hes, hns₁.append hns₂, hs₂⟩
  | bodyBlock _ ih | bodyExpr _ ih | stmtExpr _ ih | restBlock _ ih =>
    cases h'
    rename_i h₁
    exact ⟨trivial, (ih h₁ hclean hs).2⟩
  | block _ ih =>
    cases h' with | block h₁ =>
    obtain ⟨-, hns, hs₁⟩ := ih h₁ hclean hs.push
    exact ⟨trivial, .silent rfl rfl hns, hs₁.pop⟩
  | letCollection _ ih =>
    cases h' with
    | letValue hvalue => exact absurd rfl (hvalue _ _ _)
    | letCollection h₁ =>
      obtain ⟨hclean₁, hquiet⟩ := AnalysisState.clean_logged.1 hclean
      obtain ⟨hes, hns, hs₁⟩ := ih h₁ hclean₁ (hs.entered (h₁.clean hc' hclean₁))
      obtain ⟨haa, hplacements⟩ := hs₁.collection _ _ hes hquiet
      have hlength := hs₁.aggregates.length_eq
      refine ⟨trivial, .silent rfl rfl (.with_types (.silent rfl rfl hns) _),
        { (hs₁.newAggregate haa).define _ ?_ with
          placements := hs₁.placing hplacements c.function }⟩
      rw [hlength]
      exact .collection _ _ _
  | letValue hvalue _ ih =>
    cases h' with
    | letCollection => exact absurd rfl (hvalue _ _ _)
    | letValue _ h₁ =>
      obtain ⟨hclean₁, hquiet⟩ := AnalysisState.clean_logged.1 hclean
      obtain ⟨hv, hns, hs₁⟩ := ih h₁ hclean₁ (hs.entered (h₁.clean hc' hclean₁))
      obtain ⟨hbb, hnil⟩ := hs₁.env.bound _ _ _ _ _ hv hquiet
      exact ⟨trivial, .silent rfl rfl (hns.with_types _),
        { hs₁.define _ hbb with placements := hs₁.placing_quiet (hnil ▸ .nil) c.function }⟩
  | assign _ he ih =>
    cases h' with | assign h₁ he' =>
    obtain ⟨hv, hns, hs₁⟩ := ih h₁ (AnalysisState.clean_of_assign he' hclean) hs
    exact ⟨trivial, .silent rfl rfl hns, hs₁.assign hv he he' hclean⟩
  | insert _ he ih =>
    cases h' with | insert h₁ he' =>
    obtain ⟨hv, hns, hs₁⟩ := ih h₁ (AnalysisState.clean_of_insert he' hclean) hs
    exact ⟨trivial, .silent rfl rfl hns, hs₁.insert hv he he' hclean⟩
  | raise _ ih =>
    cases h' with | raise h₁ =>
    obtain ⟨hclean₁, hquiet⟩ := AnalysisState.clean_logged.1 hclean
    obtain ⟨hv, hns, hs₁⟩ := ih h₁ hclean₁ hs
    obtain ⟨hde, hnil⟩ := hs₁.env.raised _ hv hquiet
    exact ⟨trivial, .raising rfl rfl hde hns, { hs₁ with
      candidates := List.rel_append hs₁.candidates (.cons hde .nil)
      placements := hs₁.placing_quiet (hnil ▸ .nil) c.function }⟩
  | returnSome _ ih =>
    cases h' with | returnSome h₁ =>
    obtain ⟨-, hns, hs₁⟩ := ih h₁ hclean hs
    exact ⟨trivial, .silent rfl rfl hns, hs₁⟩
  | @try_ s s₁ _ _ _ binding _ _ _ _ _ _ _ ih₁ ih₂ =>
    cases h' with | @try_ _ t₁ _ _ _ _ _ _ _ _ _ h₁ h₂ =>
    have hclean₁ := h₂.clean hc' hclean
    obtain ⟨-, hns₁, hs₁⟩ := ih₁ h₁ hclean₁ hs.collect
    have hback : AnalysisState.Narrows { s₁ with candidates := s.candidates }
        { t₁ with candidates := t.candidates } :=
      ⟨hs₁.env, hs₁.aggregates, hs.candidates, hs₁.placements⟩
    have hcaught := Binding.Narrows.caught (.joinAll hs₁.candidates)
    have hopened : AnalysisState.Narrows (.opened { s₁ with candidates := s.candidates }
          (binding.toList.map fun x => (x, caughtBinding (.joinAll s₁.candidates))))
        (.opened { t₁ with candidates := t.candidates }
          (binding.toList.map fun x => (x, caughtBinding (.joinAll t₁.candidates)))) := by
      cases binding with
      | none => exact hback.push
      | some x => exact hback.push.define x hcaught
    obtain ⟨-, hns₂, hs₂⟩ := ih₂ h₂ hclean hopened
    exact ⟨trivial, .silent rfl rfl (hns₁.append hns₂), hs₂.pop⟩
  | for_ h₀ _ ih₁ ih₂ =>
    cases h' with | for_ h₁ h₂ =>
    have hclean₁ := h₂.clean hc' hclean
    obtain ⟨-, hns₁, hs₁⟩ := ih₁ h₁ hclean₁ hs
    have hiterated := h₀.iterated_rel h₁ (hs₁.env.lookup_aggregate fun _ _ hb => hb.aggregate)
      hs₁.aggregates fun _ _ ha => ha.effect
    obtain ⟨-, hns₂, hs₂⟩ := ih₂ h₂ hclean (hs₁.push.define _
      (Binding.Narrows.relates.loopBinding hiterated))
    exact ⟨trivial, .silent rfl rfl (hns₁.append hns₂), hs₂.pop⟩
  | while_ _ _ ih₁ ih₂ =>
    cases h' with | while_ h₁ h₂ =>
    obtain ⟨-, hns₁, hs₁⟩ := ih₁ h₁ (h₂.clean hc' hclean) hs
    obtain ⟨-, hns₂, hs₂⟩ := ih₂ h₂ hclean hs₁
    exact ⟨trivial, .silent rfl rfl (hns₁.append hns₂), hs₂⟩
  | if_ _ _ _ ih₁ ih₂ ih₃ =>
    cases h' with | if_ h₁ h₂ h₃ =>
    have hclean₂ := h₃.clean hc' hclean
    obtain ⟨-, hns₁, hs₁⟩ := ih₁ h₁ (h₂.clean hc' hclean₂) hs
    obtain ⟨-, hns₂, hs₂⟩ := ih₂ h₂ hclean₂ hs₁
    obtain ⟨-, hns₃, hs₃⟩ := ih₃ h₃ hclean hs₂
    exact ⟨trivial, .silent rfl rfl (((hns₁.append hns₁).append hns₂).append hns₃), hs₃⟩
  | stmtsCons _ _ ih₁ ih₂ =>
    cases h' with | stmtsCons h₁ h₂ =>
    obtain ⟨-, hns₁, hs₁⟩ := ih₁ h₁ (h₂.clean hc' hclean) hs
    obtain ⟨-, hns₂, hs₂⟩ := ih₂ h₂ hclean hs₁
    exact ⟨trivial, hns₁.append hns₂, hs₂⟩
  | elif _ _ _ ih₁ ih₂ ih₃ =>
    cases h' with | elif h₁ h₂ h₃ =>
    have hclean₂ := h₃.clean hc' hclean
    obtain ⟨-, hns₁, hs₁⟩ := ih₁ h₁ (h₂.clean hc' hclean₂) hs
    obtain ⟨-, hns₂, hs₂⟩ := ih₂ h₂ hclean₂ hs₁
    obtain ⟨-, hns₃, hs₃⟩ := ih₃ h₃ hclean hs₂
    exact ⟨trivial, (hns₁.append hns₂).append hns₃, hs₃⟩

end RaisingEffects
