import RaisingEffects.Proofs.Verdict.Course

/-!
# Erased effects

Under the compatibility policy the types of errors survive only where they are written down. What is
inferred names no type: the effect of a closure without a clause, and the effect of a collection
whose declaration gives its elements none (`Aggregate.Erased`). Every change of the state keeps
this, so it holds wherever a check comes.

Erased bounds refuse little. A collection that is written out is refused only under a declared
effect, and an insertion into a collection that was not declared only if nothing in it raises and
the inserted value does (`Visit.Refuses`).
-/

namespace RaisingEffects

open Analysis

/-! ## Effects -/

/-- The effect names no type. -/
def Effect.Erased (e : Effect) : Prop := e = .nothrow ∨ e = .raisesAny

theorem Effect.collapse_erased (es : List Effect) :
    (Effect.collapse .compatibility es).Erased := by
  rw [Effect.collapse_compatibility]
  split
  · exact .inr rfl
  · exact .inl rfl

/-- A value misfits an erased bound only if the bound is that of raising nothing. -/
theorem Effect.Erased.of_misfit {bound e : Effect} (h : bound.Erased)
    (he : ¬e.fits bound = true) : bound = .nothrow ∧ e.isRaising = true := by
  rcases h with rfl | rfl
  · cases e with
    | nothrow => exact absurd rfl he
    | raises | raisesAny => exact ⟨rfl, rfl⟩
  · exact absurd (Effect.fits_raisesAny e) he

/-! ## Aggregates -/

/-- The aggregate was declared, or its effect is erased. While it is open, it erases the effect of
what is inserted first. -/
structure Aggregate.Erased (a : Aggregate) : Prop where
  fixed : ∀ e, a.effect = some e → a.declared = true ∨ e.Erased
  opened : a.effect = none → a.erase = true

namespace Aggregate

variable {a a' : Aggregate} {e : Effect} {m : Misfit}

theorem Erased.of_declared (hdeclared : a.declared = true) (heffect : a.effect ≠ none) :
    a.Erased where
  fixed _ _ := .inl hdeclared
  opened hnone := absurd hnone heffect

theorem Erased.of_effect (heffect : a.effect = some e) (he : e.Erased) : a.Erased where
  fixed e' he' := by
    cases heffect.symm.trans he'
    exact .inr he
  opened hnone := by cases heffect.symm.trans hnone

theorem Made.erased (h : a.Made .compatibility) : a.Erased := by
  cases h with
  | @elements declared kind es _ h =>
    cases declared with
    | some bound =>
      obtain ⟨rfl, -⟩ := (insertFrom_eq_ok_iff rfl 0).1 h
      exact .of_declared rfl nofun
    | none =>
      cases es with
      | nil =>
        cases h
        exact ⟨nofun, fun _ => rfl⟩
      | cons e es =>
        cases h
        exact .of_effect rfl (Effect.collapse_erased _)
  | declared e kind => exact .of_declared rfl nofun
  | anything kind => exact .of_effect rfl (.inr rfl)

theorem Erased.insert (ha : a.Erased) (h : a.insert e none = .ok a') : a'.Erased := by
  unfold Aggregate.insert at h
  split at h
  · rename_i hopen
    cases h
    refine .of_effect rfl ?_
    rw [ha.opened hopen, Bool.true_and]
    cases e with
    | nothrow => exact .inl rfl
    | raises | raisesAny => exact .inr rfl
  · split at h
    · cases h
      exact ha
    · cases h

/-- A collection that was not declared refuses a raising value if none in it raises. -/
theorem Erased.of_insert_error (ha : a.Erased) (h : a.insert e none = .error m) :
    a.declared = true ∨ a.effect = some .nothrow ∧ e.isRaising = true := by
  unfold Aggregate.insert at h
  split at h
  · cases h
  · rename_i bound heffect
    split at h
    · cases h
    · rename_i hmisfit
      refine (ha.fixed bound heffect).imp_right fun hbound => ?_
      obtain ⟨rfl, hraising⟩ := hbound.of_misfit hmisfit
      exact ⟨heffect, hraising⟩

/-- Without a declared effect all elements are accepted. -/
theorem ofElements_compatibility_ne_error (kind : String) (es : List Effect) :
    ofElements .compatibility none kind es ≠ .error m := by
  cases es <;> exact nofun

end Aggregate

/-! ## States -/

def AnalysisState.Erased (s : AnalysisState) : Prop := ∀ a ∈ s.aggregates, a.Erased

namespace Analysis

variable {names : List String} {d d' : Nat} {s s' : AnalysisState}

theorem Change.erased (h : Change .compatibility names d s d' s') (hs : s.Erased) : s'.Erased := by
  cases h with
  | aggregate d s hmade =>
    intro a ha
    rcases List.mem_append.1 ha with ha | ha
    · exact hs a ha
    · rw [List.mem_singleton.1 ha]
      exact hmade.erased
  | insert d ha he =>
    intro b hb
    rcases List.mem_or_eq_of_mem_set hb with hb | rfl
    · exact hs b hb
    · exact (hs _ (List.mem_of_getElem? ha)).insert he
  | _ => exact hs

theorem Run.erased {vs : List Visit} (h : Run .compatibility names d s vs d' s')
    (hs : s.Erased) : s'.Erased ∧ ∀ v ∈ vs, v.state.Erased := by
  obtain ⟨hend, hvisits⟩ := h.invariant (P := fun _ s => s.Erased) Change.erased hs
  refine ⟨hend, fun v hv => ?_⟩
  obtain ⟨-, hv⟩ := hvisits v hv
  exact hv

end Analysis

/-! ## Refused values -/

/-- The visited node has a value that is refused for the effect it is bound to, which is reported at
the position: an element of a collection that is declared with the effect of its elements, or a
value that is inserted into a collection that was declared, or whose values raise nothing. -/
inductive Visit.Refuses (v : Visit) (m : Misfit) (pos : Option Pos) : Prop
  | element {span cspan : Span} {name : String} {isMut : Bool} {type : TypeExpr Span}
      {kind : CollectionKind} {elements : List (Expr Span)} {clause : Option (Clause Span)}
      {es : List (Expr Note)} {s : AnalysisState}
      (hnode : v.node =
        .stmt (.let_ span name isMut (some type) (.collection cspan kind elements)))
      (htype : elementClause? type = some clause)
      (hrun : Expr.analyseAll elements v.context ((enterLet (some type)).final v.context v.state) =
        (.ok es, s))
      (hm : Aggregate.ofElements v.context.policy (some (Clause.declared v.context.isError clause))
        kind.noun (es.map s.env.effectOf) = .error m)
      (hpos : pos = elementPos es m.index)
  | inserted {span : Span} {target : String} {how : Insertion} {value : Expr Span}
      {value' : Expr Note} {s : AnalysisState} {id : Nat} {a : Aggregate}
      (hnode : v.node = .stmt (.insert span target how value))
      (hrun : value.analyse v.context v.state = (.ok value', s))
      (hid : (s.env.lookup target).bind Binding.aggregate = some id)
      (ha : s.aggregates[id]? = some a)
      (hm : a.insert (s.env.effectOf value') none = .error m)
      (hbound : a.declared = true ∨
        a.effect = some .nothrow ∧ (s.env.effectOf value').isRaising = true)
      (hpos : pos = some span.start)

theorem Visit.Reports.refuses {v : Visit} {function : Option String} {w : Violation} {m : Misfit}
    (h : v.Reports function w) (hc : v.context.Collects)
    (hpolicy : v.context.policy = .compatibility) (hs : v.state.Erased)
    (hm : w.cause = .misfit m) : v.Refuses m w.pos := by
  obtain ⟨c, s, n⟩ := v
  obtain ⟨-, hfault⟩ := h
  dsimp only at hc hpolicy hs hfault
  cases hfault with
  | rule _ _ _ _ htopic =>
    rw [hm, Cause.topic] at htopic
    split at htopic <;> cases htopic
  | element span hrun hmisfit =>
    rw [hpolicy] at hmisfit
    exact absurd hmisfit (Aggregate.ofElements_compatibility_ne_error _ _)
  | @letElement span name isMut type cspan kind elements es s' _ hrun hmisfit =>
    cases hm
    cases hclause : type.bind elementClause? with
    | none =>
      rw [hpolicy, hclause] at hmisfit
      exact absurd hmisfit (Aggregate.ofElements_compatibility_ne_error _ _)
    | some clause =>
      obtain ⟨t, rfl, ht⟩ := Option.bind_eq_some_iff.1 hclause
      rw [hclause] at hmisfit
      exact .element rfl ht hrun hmisfit rfl
  | @inserted span target how value value' s' id a _ hrun hid ha hmisfit =>
    cases hm
    have hreturns : (Part.expr value).Returns c s (.expr value') s' := hrun
    have hcourse : Course c (fun _ => False) [] 0 s s' (value.visits c s) value'.walk :=
      (hreturns.derives hc).course hc 0 (by simp)
    have herased : s'.Erased := ((hpolicy ▸ hcourse.run).erased hs).1
    have ha' := herased a (List.mem_of_getElem? ha)
    exact .inserted rfl hrun hid ha hmisfit (ha'.of_insert_error hmisfit) rfl
  | _ => simp_all

/-! ## Closures -/

/-- A closure without a clause gets the collapsed effect of its body. -/
theorem Expr.closure_collapses {c : Context} (hc : c.Collects) (span : Span)
    (params : List (Param Span)) (body : Body Span) (s : AnalysisState) :
    Yields c s (Expr.closure span params none body).analyse fun e' _ => ∃ es params' body',
      e' = .closure { span, effect := some (.collapse c.policy es) } params' none body' := by
  obtain ⟨_, _, _, h⟩ := (Part.expr (.closure span params none body)).derives _ s
  have hrun := h.returns hc
  cases h with
  | @closure _ s₁ _ _ _ _ body' _ hbody =>
    exact ⟨_, _, hrun, s₁.candidates, _, body', rfl⟩

theorem Visit.Returns.closure_erased {v : Visit} {loc : Note} {params : List (Param Note)}
    {body : Body Note} (h : v.Returns (.expr (.closure loc params none body)))
    (hc : v.context.Collects) (hpolicy : v.context.policy = .compatibility) :
    ∃ e, loc.effect = some e ∧ e.Erased := by
  obtain ⟨e, s', -, hrun⟩ := h
  have hreturns : (Part.expr e).Returns v.context v.state
      (.expr (.closure loc params none body)) s' := hrun
  have hshape := Part.expr.inj (hreturns.derives hc).traced.1
  rw [Expr.map] at hshape
  subst hshape
  obtain ⟨es, params', body', heq⟩ :=
    (Expr.closure_collapses hc loc.span _ _ v.state).of_run hrun
  rw [Expr.closure.injEq] at heq
  refine ⟨_, congrArg Note.effect heq.1, ?_⟩
  rw [hpolicy]
  exact Effect.collapse_erased es

/-! ## Programs -/

namespace Program

/-- The aggregates of parameters are declared. -/
theorem seeded_erased (p : Program Span) (isError : String → Bool) (skipped : List Ambiguity) :
    (p.seeded isError skipped).Erased := by
  intro a ha
  obtain ⟨g, -, ha⟩ := List.mem_flatMap.1 ha
  exact (Param.made_of_mem_aggregates ha).erased

/-- **The compatibility policy erases everything that is not declared.** What does not fit its
collection is an element of one that is declared with the effect of its elements, or is inserted
into one that was declared or in which nothing raises. -/
theorem check_erases (p : Program Span) (checkBodies : Bool) (isError : String → Bool)
    (skipped : List Ambiguity) :
    ∃ v, p.check { policy := .compatibility, checkBodies } isError skipped = .ok v ∧
      (∀ loc params body, .expr (.closure loc params none body) ∈ v.program.bodies →
        ∃ e, loc.effect = some e ∧ e.Erased) ∧
      (∀ w ∈ p.visits isError { policy := .compatibility, checkBodies } skipped,
        w.state.Erased) ∧
      (∀ a ∈ v.aggregates, a.Erased) ∧
      ∀ d ∈ v.diagnostics, ∀ m, d.cause = .misfit m →
        ∃ w ∈ p.visits isError { policy := .compatibility, checkBodies } skipped,
          d.function = w.context.function ∧ w.Refuses m d.pos := by
  obtain ⟨v, s', hv, haggregates, hlog, hchecks⟩ :=
    p.check_course { policy := .compatibility, checkBodies } isError skipped
  obtain ⟨hend, hvisits⟩ := hchecks.run.erased (p.seeded_erased isError skipped)
  have hcollects (w : Visit)
      (hw : w ∈ p.visits isError { policy := .compatibility, checkBodies } skipped) :
      w.context.Collects ∧ w.context.policy = .compatibility := by
    rw [hchecks.contexts w hw]
    exact ⟨⟨rfl, fun _ => rfl⟩, rfl⟩
  refine ⟨v, hv, ?_, hvisits, ?_, ?_⟩
  · intro loc params body hmem
    obtain ⟨w, hw, hreturns⟩ := hchecks.returned _ hmem rfl
    exact hreturns.closure_erased (hcollects w hw).1 (hcollects w hw).2
  · rw [haggregates]
    exact hend
  · intro d hd m hm
    obtain ⟨function, w, hw, rfl⟩ := mem_diagnosticsOf.1 hd
    have hm : w.cause = .misfit m := hm
    obtain ⟨new, hnew, hreported⟩ := hchecks.reported
    rw [hlog, hnew, List.mem_append] at hw
    rcases hw with hw | hw
    · -- Nothing is bound to an effect before the first body.
      rcases cause_of_mem_seeded hw with hcause | ⟨_, hcause⟩ | ⟨_, hcause⟩
      all_goals
        rw [hm] at hcause
        cases hcause
    · rcases hreported function w hw with hcause | ⟨u, hu, hreports⟩
      · rw [hm] at hcause
        cases hcause
      · refine ⟨u, hu, hreports.1, ?_⟩
        exact hreports.refuses (hcollects u hu).1 (hcollects u hu).2 (hvisits u hu) hm

end Program

end RaisingEffects
