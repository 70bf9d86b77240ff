import RaisingEffects.Proofs.Analysis.Paired
import RaisingEffects.Proofs.Analysis.Trace
import RaisingEffects.Proofs.Parse.Declarations

/-!
# Bodies whose callees raise no more

If the callables around a body raise no more, neither does the body, unless there is a node at which
a lesser effect is replaced by that of raising anything (`Analysis.bodyEffect_mono`). The walks over
the body are paired by one induction (`Analysed.paired`).
-/

namespace RaisingEffects

open Analysis

variable {c : Context}

/-! ## The induction -/

/-- What is returned for an expression, as far as it is read as a value, raises no more in the
first. -/
def Part.Below : Part Note → Part Note → Prop
  | expr x, expr y => x.Below y
  | exprs xs, exprs ys => List.Forall₂ Expr.Below xs ys
  | _, _ => True

/-- A collection that is written out. The walks may differ at its node. -/
theorem Paired.collection {s t s₁ t₁ : AnalysisState} {xs ys : List (Expr Note)} {R : Prop}
    (h : Paired s t s₁ t₁ (Expr.walkAll xs) (Expr.walkAll ys) R)
    (hR : R → List.Forall₂ Expr.Below xs ys) (kind : CollectionKind) (declared : Option Effect)
    (log log' : List (Option String × LogEntry)) (span : Span) :
    Paired s t
      { s₁ with log, aggregates := s₁.aggregates ++
          [.settled c.policy declared kind.noun (xs.map s₁.env.effectOf)] }
      { t₁ with log := log', aggregates := t₁.aggregates ++
          [.settled c.policy declared kind.noun (ys.map t₁.env.effectOf)] }
      (Expr.collection { span, aggregate := some s₁.aggregates.length } kind xs).walk
      (Expr.collection { span, aggregate := some t₁.aggregates.length } kind ys).walk
      (s₁.aggregates.length = t₁.aggregates.length) := by
  refine h.step_at _ _ (.append rfl) (.append rfl) fun u v hu hv hagree hr hs => ?_
  refine ⟨hs.aggregates.length_eq, (hs.newAggregate ?_).log log log'⟩
  rcases Aggregate.settled_below_or c.policy declared kind.noun
    (Binding.Below.relates.map_effectOf hs.env (hR hr)) with ha | ⟨ha, ha'⟩
  · exact ha
  · obtain ⟨e, he⟩ := Option.isSome_iff_exists.1 ha'
    have hgives := hagree (hu _ _ ((s₁.elementEffect?_last _).trans ha))
    have hfixed := hv _ _ ((t₁.elementEffect?_last _).trans he)
    cases hgives.symm.trans hfixed
    exact .of_some ha he (Effect.fits_refl _)

/-- **Two walks over a part are paired.** -/
theorem Analysed.paired {p : Part Span} {x y : Part Note} {vs ws : List Visit}
    {s s' t t' : AnalysisState} (h : Analysed c s p vs x s') (h' : Analysed c t p ws y t') :
    Paired s t s' t' x.walk y.walk (x.Below y) := by
  induction h generalizing t ws y t' with
  | name => cases h'; exact ((Paired.refl _ t).mono fun _ => .name ..).node _ _
  | literal => cases h'; exact ((Paired.refl _ t).mono fun _ => .literal ..).node _ _
  | exprsNil => cases h'; exact (Paired.refl _ t).mono fun _ => .nil
  | returnNone => cases h'; exact (Paired.refl _ t).node _ _
  | stmtsNil | restNone => cases h'; exact .refl _ t
  | call _ ih =>
    cases h' with | call h₁ =>
    refine ((ih h₁).node _ _).step (.of_eq rfl) (.of_eq rfl) fun hxs hs => ⟨.call .., ?_⟩
    exact (hs.heard (Env.called_below hs.env _ _ hxs)).log _ _
  | @closure s _ span params clause _ _ _ _ ih =>
    cases h' with | closure h₁ =>
    have hparams : Paired s t { s.inClosure c params with candidates := s.candidates }
        { t.inClosure c params with candidates := t.candidates } [] [] True :=
      (Paired.refl s t).step (.append rfl) (.append rfl) fun _ hs =>
        ⟨trivial, { hs.inClosure c params with candidates := hs.candidates }⟩
    have hbody := (ih h₁).collect (s := { s.inClosure c params with candidates := s.candidates })
      (t := { t.inClosure c params with candidates := t.candidates })
    have h₂ := (hparams.trans hbody).pop
    exact (((h₂.log _ _).append rfl).mono fun hR =>
      .closure rfl rfl (closureOutcome_below c span clause hR.2.2) ..).node _ _
  | collection _ ih =>
    cases h' with | collection h₁ =>
    exact ((ih h₁).collection id _ none _ _ _).mono fun _ => .collection ..
  | binary _ _ ih₁ ih₂ =>
    cases h' with | binary h₁ h₂ =>
    exact (((ih₁ h₁).trans (ih₂ h₂)).mono fun _ => .binary ..).node _ _
  | unary _ ih =>
    cases h' with | unary h₁ =>
    exact ((ih h₁).mono fun _ => .unary ..).node _ _
  | exprsCons _ _ ih₁ ih₂ =>
    cases h' with | exprsCons h₁ h₂ =>
    exact ((ih₁ h₁).trans (ih₂ h₂)).mono fun hR => .cons hR.1 hR.2
  | bodyBlock _ ih | bodyExpr _ ih | stmtExpr _ ih | restBlock _ ih =>
    cases h'
    rename_i h₁
    exact (ih h₁).mono fun _ => trivial
  | block _ ih =>
    cases h' with | block h₁ =>
    exact (((Paired.refl _ t).push.trans (ih h₁)).pop.mono fun _ => trivial).node _ _
  | @letCollection s _ _ x _ type cspan kind _ _ _ _ ih =>
    cases h' with
    | letValue hvalue => exact absurd rfl (hvalue _ _ _)
    | letCollection h₁ =>
      have h₂ := (((Paired.refl s t).log _ _).trans (ih h₁)).collection (c := c) And.right kind
        (c.elementEffect? type) [] [] cspan
      refine (Paired.append (((h₂.define x fun hlength => ?_).log _ _).mono fun _ => trivial)
        rfl).node _ _
      exact .ofCollection hlength _ _
  | @letValue s _ _ x _ _ _ _ _ hvalue _ ih =>
    cases h' with
    | letCollection => exact absurd rfl (hvalue _ _ _)
    | letValue _ h₁ =>
      have h₂ := ((Paired.refl s t).log _ _).trans (ih h₁)
      refine Paired.node (.append (h₂.step ?left ?right fun hR hs => ⟨trivial, ?below⟩) rfl) _ _
      case left | right => exact .of_eq rfl
      case below => exact (hs.define x (Env.bound_below hs.env _ _ _ _ _ hR.2)).log _ _
  | assign _ he ih =>
    cases h' with | assign h₁ he' =>
    have hpersists {x : Expr Note} {s s' : AnalysisState} {e : Option Effect} {target : String}
        {pos : Pos} (h : Assigns c target pos x s e s') : s.Persists s' := by
      cases h <;> exact .of_eq rfl
    refine (ih h₁).step_at _ _ (hpersists he) (hpersists he') fun u v _ _ hagree _ hs => ?_
    exact ⟨trivial, .assign he he' hs hagree⟩
  | returnSome _ ih =>
    cases h' with | returnSome h₁ =>
    exact ((ih h₁).mono fun _ => trivial).node _ _
  | raise _ ih =>
    cases h' with | raise h₁ =>
    refine ((ih h₁).node _ _).step (.of_eq rfl) (.of_eq rfl) fun hxy hs => ⟨trivial, ?_⟩
    exact (hs.contribute (Binding.Below.relates.raised hs.env _ hxy).1).log _ _
  | @try_ s s₁ s₂ span body binding handler body' handler' vs ws hbody hhandler ih₁ ih₂ =>
    cases h' with | @try_ _ t₁ t₂ _ _ _ _ body'' handler'' _ _ h₁ h₂ =>
    have hcaught := (ih₁ h₁).collect (s := s) (t := t)
    cases binding with
    | none =>
      have hhandled := (hcaught.push.trans (ih₂ h₂)).pop
      exact (hhandled.mono fun _ => trivial).node _ _
    | some x =>
      -- the walks may differ in what is caught under a name
      have hbound := hcaught.step_at
        (.stmt (.try_ { span, caughtEffect := some (.joinAll s₁.candidates) } body' (some x)
          handler'))
        (.stmt (.try_ { span, caughtEffect := some (.joinAll t₁.candidates) } body'' (some x)
          handler''))
        (.refl _) (.refl _) fun u v _ _ hagree hR hs =>
          ⟨caughtBinding_below hR.2 fun hany => Option.some.inj (hagree (congrArg some hany)), hs⟩
      exact ((hbound.push.define x id).trans (ih₂ h₂)).pop.mono fun _ => trivial
  | insert _ he ih =>
    cases h' with | insert h₁ he' =>
    exact ((ih h₁).node _ _).step (.insertedInto he.changes.1) (.insertedInto he'.changes.1)
      fun hxy hs => ⟨trivial, .insert he he' hxy hs⟩
  | @for_ _ _ _ target _ _ _ _ _ _ h₀ _ ih₁ ih₂ =>
    cases h' with | for_ h₁ h₂ =>
    have hiterated := (ih₁ h₁).step (.refl _) (.refl _) fun _ hs =>
      ⟨h₀.iterated_rel h₁ (hs.env.lookup_aggregate fun _ _ hb => hb.aggregate) hs.aggregates
        fun _ _ ha => ha.effect, hs⟩
    have hlooped := (hiterated.push.define target Binding.Below.relates.loopBinding).trans (ih₂ h₂)
    exact (hlooped.pop.mono fun _ => trivial).node _ _
  | while_ _ _ ih₁ ih₂ =>
    cases h' with | while_ h₁ h₂ =>
    exact (((ih₁ h₁).trans (ih₂ h₂)).mono fun _ => trivial).node _ _
  | if_ _ _ _ ih₁ ih₂ ih₃ =>
    cases h' with | if_ h₁ h₂ h₃ =>
    have htwice := ((ih₁ h₁).trans ((ih₂ h₂).trans (ih₃ h₃))).twice (ih₁ h₁).length_eq
    rw [← List.append_assoc, ← List.append_assoc] at htwice
    exact (htwice.mono fun _ => trivial).node _ _
  | stmtsCons _ _ ih₁ ih₂ =>
    cases h' with | stmtsCons h₁ h₂ =>
    exact ((ih₁ h₁).trans (ih₂ h₂)).mono fun _ => trivial
  | elif _ _ _ ih₁ ih₂ ih₃ =>
    cases h' with | elif h₁ h₂ h₃ =>
    exact (((ih₁ h₁).trans (ih₂ h₂)).trans (ih₃ h₃)).mono fun _ => trivial

/-! ## Effects of bodies -/

/-- The first meaning is the second, except that a callable may raise less in the first. Only
collections have an aggregate. -/
structure Binding.NarrowsCallee (b b' : Binding) : Prop where
  same : { b with effect := b'.effect } = b'
  effect : if b.kind = .callable then b.effect.Below b'.effect else b.effect = b'.effect
  collection : b.aggregate.isSome = true → b.kind = .collection

theorem Binding.NarrowsCallee.below {b b' : Binding} (h : b.NarrowsCallee b') : b.Below b' where
  kind := by rw [← h.same]
  aggregate := by rw [← h.same]
  collection := h.collection
  effect := by
    intro _
    have heffect := h.effect
    split at heffect
    · exact heffect
    · rw [heffect]
      exact Effect.fits_refl _
  rule := .inl ⟨by rw [← h.same], by rw [← h.same]⟩

/-- The effects of a body in two states, if the analyses agree at the end. -/
theorem Analysis.bodyEffect_paired (hc : c.Collects) (body : Block Span) {s t : AnalysisState}
    (henv : Env.Rel Binding.Below s.env t.env)
    (haggregates : List.Forall₂ Aggregate.Below s.aggregates t.aggregates) :
    Both c s t (bodyEffect body) (bodyEffect body) fun r s' r' t' =>
      Agree s' t' r.1.walk r'.1.walk → r.2.Below r'.2 := by
  obtain ⟨⟨b, e⟩, s', hrun, s₁, rfl, rfl, h⟩ := bodyEffect_derives hc body s
  obtain ⟨⟨b', e'⟩, t', hrun', t₁, rfl, rfl, h'⟩ := bodyEffect_derives hc body t
  refine ⟨_, _, _, _, hrun, hrun', fun hagree => ?_⟩
  have hs : AnalysisState.Below { s with candidates := [] } { t with candidates := [] } :=
    ⟨henv, haggregates, Effect.fits_refl _⟩
  exact ((h.paired h').below _ _ (.of_eq rfl) (.of_eq rfl) hagree hs).2.candidates

/-- **If the callables around a body raise no more, neither does the body**, unless in the first
analysis only there is a bound handler, an assignment or a collection that gives the effect of
raising anything. -/
theorem Analysis.bodyEffect_mono (hc : c.Collects) {s t : AnalysisState}
    (henv : Env.Rel Binding.NarrowsCallee s.env t.env) (haggregates : s.aggregates = t.aggregates)
    (body : Block Span) :
    ∃ b e s' b' e' t', bodyEffect body c s = (.ok (b, e), s') ∧
      bodyEffect body c t = (.ok (b', e'), t') ∧
      b.map Note.span = body ∧ b'.map Note.span = body ∧
      (e.fits e' = true ∨ ∃ p ∈ b.walk.zip b'.walk,
        p.1.given? s' = some .raisesAny ∧ p.2.given? t' ≠ some .raisesAny) := by
  have hbelow : Env.Rel Binding.Below s.env t.env :=
    List.Forall₂.imp (fun _ _ => List.Forall₂.imp fun _ _ hxy => ⟨hxy.1, hxy.2.below⟩) henv
  have hsame : List.Forall₂ Aggregate.Below s.aggregates t.aggregates := by
    rw [haggregates]
    exact List.forall₂_same.2 fun a _ => .refl a
  obtain ⟨⟨b, e⟩, s', ⟨b', e'⟩, t', hrun, hrun', ⟨⟨hb, -⟩, -⟩, ⟨⟨hb', -⟩, -⟩, hagree⟩ :=
    (bodyEffect_paired hc body hbelow hsame).yields (bodyEffect_traced hc body s)
      (bodyEffect_traced hc body t)
  refine ⟨b, e, s', b', e', t', hrun, hrun', hb, hb', ?_⟩
  by_cases h : Agree s' t' b.walk b'.walk
  · exact .inl (hagree h)
  · simp only [Agree, not_forall] at h
    obtain ⟨p, hp, hgiven, hother⟩ := h
    exact .inr ⟨p, hp, hgiven, hother⟩

/-! ## Callees around a source -/

/-- A scope with an error type and two callables. -/
def calleeScope (g h : Effect) : Table Binding :=
  [("E", { kind := .typeName }), ("g", .callable g), ("h", .callable h)]

theorem calleeScope_narrows {d e : Effect} (hde : d.Below e) (h : Effect) :
    Env.Rel Binding.NarrowsCallee [calleeScope d h] [calleeScope e h] := by
  have htype : Binding.NarrowsCallee { kind := .typeName } { kind := .typeName } :=
    ⟨rfl, rfl, by simp⟩
  have hcallable {d e : Effect} (hde : d.Below e) :
      Binding.NarrowsCallee (.callable d) (.callable e) := ⟨rfl, hde, by simp [Binding.callable]⟩
  refine .cons (.cons ⟨rfl, htype⟩ ?_) .nil
  exact .cons ⟨rfl, hcallable hde⟩ (.cons ⟨rfl, hcallable (Effect.fits_refl h)⟩ .nil)

/-- The effect of the body of the first function of a source that was read, in the given scope. -/
def bodyEffectIn (policy : Policy) (scope : Table Binding) (reading : Except ParseFailure Reading) :
    Option Effect := do
  let r ← reading.toOption
  let g ← r.program.functions.head?
  let body ← (bodyEffect g.body { policy, isError := r.program.declaresError }
    { env := [scope] }).1.toOption
  return body.2

/-- A callee that is called, put into a list and caught under a name. -/
def relayedSource : String :=
  "error E; fn f(g: fn() raises(E)) \x7b let k = || g(); let xs = [g, k];
  try \x7b k(); \x7d catch e \x7b raise e; \x7d for x in xs \x7b x(); \x7d \x7d"

set_option maxRecDepth 8192 in
theorem Analysis.bodyEffect_mono_relayed :
    ∃ r g b e s' b' e' t', Program.parse relayedSource = .ok r ∧ g ∈ r.program.functions ∧
      Env.Rel Binding.NarrowsCallee [calleeScope (.raises "E") .nothrow]
        [calleeScope .raisesAny .nothrow] ∧
      bodyEffect g.body { policy := .precise, isError := r.program.declaresError }
        { env := [calleeScope (.raises "E") .nothrow] } = (.ok (b, e), s') ∧
      bodyEffect g.body { policy := .precise, isError := r.program.declaresError }
        { env := [calleeScope .raisesAny .nothrow] } = (.ok (b', e'), t') ∧
      e = .raises "E" ∧ e' = .raisesAny ∧
      (e.fits e' = true ∨ ∃ p ∈ b.walk.zip b'.walk,
        p.1.given? s' = some .raisesAny ∧ p.2.given? t' ≠ some .raisesAny) := by
  obtain ⟨r, hr, g, hg, ⟨x, hx, hxe⟩, y, hy, hye⟩ := Program.exists_reading relayedSource (fun r =>
    ∃ g ∈ r.program.functions,
      (∃ x, (bodyEffect g.body { policy := .precise, isError := r.program.declaresError }
        { env := [calleeScope (.raises "E") .nothrow] }).1 = .ok x ∧ x.2 = .raises "E") ∧
      ∃ y, (bodyEffect g.body { policy := .precise, isError := r.program.declaresError }
        { env := [calleeScope .raisesAny .nothrow] }).1 = .ok y ∧ y.2 = .raisesAny) rfl
          (by decide +kernel)
  have hnarrows := calleeScope_narrows (Effect.fits_raisesAny (.raises "E")) .nothrow
  obtain ⟨b, e, s', b', e', t', hrun, hrun', -, -, hmono⟩ :=
    bodyEffect_mono (c := { policy := .precise, isError := r.program.declaresError })
      (s := { env := [calleeScope (.raises "E") .nothrow] })
      (t := { env := [calleeScope .raisesAny .nothrow] }) ⟨rfl, fun _ => rfl⟩ hnarrows rfl g.body
  rw [hrun] at hx
  rw [hrun'] at hy
  cases hx
  cases hy
  exact ⟨r, g, b, e, s', b', e', t', hr, hg, hnarrows, hrun, hrun', hxe, hye, hmono⟩

/-! ## Where less becomes more -/

/-- What a handler catches is raised again. -/
def caughtAgainSource : String :=
  "error E; fn f(g: fn() raises(E)) \x7b try \x7b g(); \x7d catch e \x7b raise e; \x7d \x7d"

/-- A callee is assigned to another. -/
def replacedSource : String :=
  "error E; fn f(g: fn() raises(E), h: fn() raises(E)) \x7b g = h; g(); \x7d"

/-- Two callees are put into a list. -/
def listedSource : String :=
  "error E; fn f(g: fn() raises(E), h: fn() raises(E)) \x7b for x in [g, h] \x7b x(); \x7d \x7d"

set_option maxRecDepth 8192 in
/-- If `g` raises nothing where it raised `E`, these bodies raise anything where they raised `E`. -/
theorem narrower_callee_raises_more :
    Env.Rel Binding.NarrowsCallee [calleeScope .nothrow (.raises "E")]
        [calleeScope (.raises "E") (.raises "E")] ∧
      Effect.raisesAny.fits (.raises "E") = false ∧
      ∀ p ∈ [(Policy.compatibility, caughtAgainSource), (.compatibility, replacedSource),
          (.precise, listedSource)],
        bodyEffectIn p.1 (calleeScope .nothrow (.raises "E")) (Program.parse p.2) =
            some .raisesAny ∧
          bodyEffectIn p.1 (calleeScope (.raises "E") (.raises "E")) (Program.parse p.2) =
            some (.raises "E") := by
  refine ⟨calleeScope_narrows (Effect.nothrow_fits _) _, rfl, ?_⟩
  simp only [List.forall_mem_cons]
  rw [Program.parse_eq_ofChars caughtAgainSource rfl, Program.parse_eq_ofChars replacedSource rfl,
    Program.parse_eq_ofChars listedSource rfl]
  decide +kernel

end RaisingEffects
