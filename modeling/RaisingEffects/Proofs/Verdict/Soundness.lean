import RaisingEffects.Proofs.Verdict.Meanings

/-!
# Bodies keep states sound

`Analysed.walked` says that the walk over a body keeps states sound. The core is
`Env.Sound.called`: a call never has a fault of a forwarding rule to report, because the
rule is resolved and the arguments that were not reported fit.
-/

namespace RaisingEffects

namespace Analysis

def soundness {isError : String → Bool} (V : Vocabulary isError) : Invariant where
  Holds _ s := s.Sound V
  Allows := Effect.Names V.Error
  Raised e := e.isRaising = true

end Analysis

open Analysis

/-! ## The parts of the walk -/

namespace Env.Sound

variable {isError : String → Bool} {V : Vocabulary isError} {env : Env} {callee : String}
  {args : List (Expr Note)} (h : env.Sound V)

include h

section Arguments

variable (hargs : ∀ a ∈ args, (Node.expr a).Carries (Effect.Names V.Error))

include hargs

theorem effectsOf : ∀ e ∈ args.map env.effectOf, e.Names V.Error := by
  intro e he
  obtain ⟨a, ha, rfl⟩ := List.mem_map.1 he
  exact h.effectOf (hargs a ha)

/-- What is reported about arguments is in the vocabulary. -/
theorem argumentFaults {b : Binding} (hb : env.lookup callee = some b) (hcallee : V.Word callee)
    {pos : Pos} {entry : LogEntry}
    (hentry : entry ∈ (argumentFaults callee pos (args.map env.effectOf) 0 b.params).map
      LogEntry.violation) :
    entry.Fair V ∧ ∃ v, entry = .violation v ∧ v.cause.ofArgument = true := by
  obtain ⟨v, hv, rfl⟩ := List.mem_map.1 hentry
  obtain ⟨i, expected, actual, hcause, hexpected, hactual⟩ := cause_of_mem_argumentFaults hv
  have hspelt : (Cause.argumentMismatch callee i expected actual).Spelt V :=
    ⟨hcallee, (h.lookup hb).params expected hexpected, h.effectsOf hargs actual hactual⟩
  rw [LogEntry.Fair, LogEntry.ofForwarding, LogEntry.Spelt, hcause]
  exact ⟨⟨rfl, hspelt⟩, v, rfl, by rw [hcause]; rfl⟩

/-- A call of a name with a forwarding rule. If no argument is reported, the arguments fit, and the
rule gives the call an effect. -/
theorem called_rule {b : Binding} (hb : env.lookup callee = some b) {f : Forwarding}
    (hrule : b.forwarding = some f) (pos : Pos) (hcallee : V.Word callee) :
    (env.called callee pos args).1.Names V.Error ∧
      (∀ entry ∈ (env.called callee pos args).2, entry.Fair V) ∧
      ((∀ v, .violation v ∈ (env.called callee pos args).2 → v.cause.ofArgument = false) →
        (env.called callee pos args).1.fits b.effect = true) := by
  obtain ⟨hkind, g, hg, hnamed, hresolve, hparams⟩ := (h.lookup hb).rule f hrule
  rw [Env.called_of_some hb, Binding.called_rule hkind hrule]
  cases hfaults : RaisingEffects.argumentFaults callee pos (args.map env.effectOf) 0 b.params with
  | nil =>
    rw [hparams] at hfaults
    obtain ⟨e, he, hfits⟩ := FunDecl.callSite_arguments hnamed hresolve fun i d a hd ha =>
      fits_of_argumentFaults hfaults hd (by rwa [Nat.zero_add])
    rw [if_pos List.isEmpty_nil, Forwarding.called, he]
    refine ⟨Forwarding.callSite_names hg hresolve (h.effectsOf hargs) he, fun entry hentry => ?_,
      fun _ => hfits⟩
    dsimp only at hentry
    split at hentry
    · exact Forwarding.joinEntries_fair hentry
    · cases hentry
  | cons v vs =>
    have hall : ∀ entry ∈ (v :: vs).map LogEntry.violation, entry.Fair V ∧
        ∃ v, entry = .violation v ∧ v.cause.ofArgument = true := by
      rw [← hfaults]
      exact fun _ => h.argumentFaults hargs hb hcallee
    refine ⟨.raisesAny, fun entry hentry => (hall entry hentry).1, fun hnone => ?_⟩
    obtain ⟨-, w, hw, hargument⟩ := hall _ (List.mem_cons_self ..)
    cases hw
    rw [hnone v (List.mem_cons_self ..)] at hargument
    cases hargument

/-- **A call reports no fault of a forwarding rule.** -/
theorem called (hcallee : V.Word callee) (pos : Pos) :
    (env.called callee pos args).1.Names V.Error ∧
      ∀ entry ∈ (env.called callee pos args).2, entry.Fair V := by
  by_cases hcallable : ∃ b, env.lookup callee = some b ∧ b.kind = .callable
  · obtain ⟨b, hb, hkind⟩ := hcallable
    cases hrule : b.forwarding with
    | none =>
      rw [Env.called_of_some hb, Binding.called_direct hkind hrule]
      exact ⟨(h.lookup hb).names, fun entry hentry => (h.argumentFaults hargs hb hcallee hentry).1⟩
    | some f =>
      obtain ⟨hnames, hentries, -⟩ := h.called_rule hargs hb hrule pos hcallee
      exact ⟨hnames, hentries⟩
  · rw [Env.called_of_other fun b hb hkind => hcallable ⟨b, hb, hkind⟩]
    exact ⟨.nothrow, by simp⟩

theorem elements (declared : Option Effect) (hdeclared : ∀ e ∈ declared, e.Names V.Error)
    (policy : Policy) (kind : CollectionKind) :
    (Aggregate.settled policy declared kind.noun (args.map env.effectOf)).Names V.Word V.Error ∧
      ∀ entry ∈ elementEntries policy kind declared args (args.map env.effectOf),
        entry.Fair V := by
  have hnames := Aggregate.ofElements_names hdeclared (h.effectsOf hargs) (V.noun kind) policy
  rw [Aggregate.settled, elementEntries]
  cases hof : Aggregate.ofElements policy declared kind.noun (args.map env.effectOf) with
  | ok a =>
    rw [hof] at hnames
    exact ⟨hnames, by simp⟩
  | error m =>
    rw [hof] at hnames
    refine ⟨.of_effect ?_ (V.noun kind), List.forall_mem_singleton.2 ⟨rfl, hnames⟩⟩
    cases declared with
    | none => exact .raisesAny
    | some d => exact hdeclared d rfl

end Arguments

/-- A raised value raises something, and a type that is no error is in the vocabulary. -/
theorem raised {value : Expr Note} (hvalue : ∀ x ∈ (Node.expr value).names, V.Word x) :
    (env.raised isError value).1.Names V.Error ∧ (env.raised isError value).1.isRaising = true ∧
      ∀ entry ∈ (env.raised isError value).2, entry.Fair V := by
  have hany : Effect.raisesAny.Names V.Error ∧ Effect.raisesAny.isRaising = true ∧
      ∀ entry ∈ ([] : List LogEntry), entry.Fair V := ⟨.raisesAny, rfl, by simp⟩
  have htype {name : String} (pos : Pos) (hname : V.Word name) :
      (typeRaised isError name pos).1.Names V.Error ∧
        (typeRaised isError name pos).1.isRaising = true ∧
        ∀ entry ∈ (typeRaised isError name pos).2, entry.Fair V := by
    unfold typeRaised
    split
    · rename_i h
      exact ⟨.raises ⟨hname, .inl h⟩, rfl, by simp⟩
    · exact ⟨.raisesAny, rfl, List.forall_mem_singleton.2 ⟨rfl, hname⟩⟩
  cases value with
  | call loc callee args =>
    rw [Env.raised]
    split
    · exact htype _ (hvalue callee (List.mem_singleton.2 rfl))
    · exact hany
  | name loc id =>
    rw [Env.raised]
    cases hb : env.lookup id with
    | none => exact hany
    | some b =>
      rw [Option.map_some, Option.getD_some, Binding.raised]
      split
      · rename_i hkind
        exact ⟨(h.lookup hb).names, (h.lookup hb).raising hkind, by simp⟩
      · exact htype _ (hvalue id (List.mem_singleton.2 rfl))
      · exact hany
  | _ => exact hany

theorem bindingOf {type : Option (TypeExpr Span)}
    (htype : V.Knows (type.toList.flatMap TypeExpr.walk)) {value : Expr Note}
    (hvalue : (Node.expr value).Carries (Effect.Names V.Error))
    (hwords : ∀ x ∈ (Node.expr value).names, V.Word x) :
    (env.bindingOf isError type value).Sound V := by
  have hannotated : (annotated isError type).Sound V := by
    unfold annotated
    split
    · rename_i h
      exact .of_errorType htype h
    · exact .value
  cases value with
  | closure loc params clause body => exact .callable (h.effectOf hvalue)
  | call loc callee args =>
    rw [Env.bindingOf]
    split
    · rename_i h
      exact .errorOf (hwords callee (List.mem_singleton.2 rfl)) h
    · exact hannotated
  | name loc id =>
    rw [Env.bindingOf]
    cases hb : effectful? (env.lookup id) with
    | none => exact hannotated
    | some b => exact h.lookup (Option.filter_eq_some_iff.1 hb).1
  | _ => exact hannotated

theorem bound {name : String} (hname : V.Word name) (pos : Pos) {type : Option (TypeExpr Span)}
    (htype : V.Knows (type.toList.flatMap TypeExpr.walk)) {declared : Option Effect}
    (hdeclared : ∀ e ∈ declared, e.Names V.Error) {value : Expr Note}
    (hvalue : (Node.expr value).Carries (Effect.Names V.Error))
    (hwords : ∀ x ∈ (Node.expr value).names, V.Word x) :
    (∀ e ∈ (env.bound isError name pos type value declared).1, e.Names V.Error) ∧
      (env.bound isError name pos type value declared).2.1.Sound V ∧
      ∀ entry ∈ (env.bound isError name pos type value declared).2.2, entry.Fair V := by
  cases declared with
  | none => exact ⟨by simp [Env.bound], h.bindingOf htype hvalue hwords, by simp [Env.bound]⟩
  | some d =>
    have hd := hdeclared d rfl
    rw [Env.bound]
    split
    · exact ⟨by simp, .callable hd, by simp⟩
    · exact ⟨by simpa using .raisesAny, .callable .raisesAny,
        List.forall_mem_singleton.2 ⟨rfl, hname, hd, h.effectOf hvalue⟩⟩

end Env.Sound

namespace Analysis

variable {c : Context} {V : Vocabulary c.isError} {s s' : AnalysisState} {ns : List (Node Span)}
  {value : Expr Note} (hf : ∀ f ∈ c.function, V.Word f) (hns : V.Knows ns) (hs : s.Sound V)
  {pos : Pos}

include hns in
theorem declared_names {clause? : Option (Option (Clause Span))}
    (hclause : ∀ clause ∈ clause?, ∀ c ∈ clause, .clause c ∈ ns) :
    ∀ e ∈ clause?.map (Clause.declared c.isError), e.Names V.Error := by
  intro e he
  obtain ⟨clause, hmem, rfl⟩ := Option.map_eq_some_iff.1 he
  exact Clause.declared_type hns (hclause clause hmem)

theorem closureOutcome_fair (span : Span) {clause : Option (Clause Span)}
    {candidates : List Effect} (hclause : V.Knows (clause.toList.map .clause))
    (hcandidates : ∀ e ∈ candidates, e.Names V.Error) :
    (closureOutcome c span candidates clause).1.Names V.Error ∧
      ∀ entry ∈ (closureOutcome c span candidates clause).2, entry.Fair V := by
  cases clause with
  | none => exact ⟨.collapse _ hcandidates, by simp [closureOutcome]⟩
  | some clause =>
    have hdeclared : (Clause.declared c.isError (some clause)).Names V.Error :=
      Clause.declared_type hclause (by simp)
    have hentries : ∀ entry ∈ clauseEntries c.isError (some (some clause)), entry.Fair V :=
      clauseEntries_fair hclause (by simp)
    rw [closureOutcome]
    split
    · exact ⟨hdeclared, hentries⟩
    · refine ⟨.raisesAny, List.forall_mem_append.2 ⟨hentries, ?_⟩⟩
      exact List.forall_mem_singleton.2 ⟨rfl, hdeclared, .joinAll hcandidates⟩

include hf hs

theorem inClosure_sound {ps : List (Param Span)} (hps : V.Knows (ps.flatMap Param.nodes)) :
    (s.inClosure c ps).Sound V := by
  have hnodes {p : Param Span} (hp : p ∈ ps) : p.nodes ⊆ ps.flatMap Param.nodes :=
    fun n hn => List.mem_flatMap.2 ⟨p, hp, hn⟩
  have hentries : ∀ entry ∈ ps.flatMap (Param.entries c.isError), entry.Fair V := by
    intro entry hentry
    obtain ⟨p, hp, hentry⟩ := List.mem_flatMap.1 hentry
    exact Param.entries_fair hps (hnodes hp) entry hentry
  have hlogged := hs.logged hf hentries
  have haggregates : ∀ a ∈ ps.flatMap (Param.aggregates c.isError), a.Names V.Word V.Error := by
    intro a ha
    obtain ⟨p, hp, ha⟩ := List.mem_flatMap.1 ha
    exact Param.aggregates_names (hps.mono (hnodes hp)) ha
  exact ((hlogged.newAggregates haggregates).opened fun entry hentry =>
    Binding.Sound.of_params hps _ (List.of_mem_zip hentry).2).withCandidates (by simp)

theorem declaring_sound {type : Option (TypeExpr Span)}
    (htype : V.Knows (type.toList.flatMap TypeExpr.walk)) : (s.declaring c type).Sound V :=
  (hs.logged hf (clauseEntries_fair htype mem_types_of_functionClause?)).logged hf
    (clauseEntries_fair htype mem_types_of_elementClause?)

theorem Assigns.sound {target : String} {e : Option Effect} (h : Assigns c target pos value s e s')
    (htarget : V.Word target) (hvalue : (Node.expr value).Carries (Effect.Names V.Error)) :
    s'.Sound V ∧ ∀ d ∈ e, d.Names V.Error := by
  cases h with
  | fits => exact ⟨hs, by simp⟩
  | mismatch hb =>
    refine ⟨⟨hs.env.rebind (.callable .raisesAny) target, hs.aggregates, hs.candidates,
      (hs.logged hf (List.forall_mem_singleton.2 ?_)).log⟩, by simpa using .raisesAny⟩
    exact ⟨rfl, htarget, (hs.env.lookup hb).names, hs.env.effectOf hvalue⟩

theorem Inserts.sound {target : String} {e : Option Effect} (h : Inserts c target pos value s e s')
    (hvalue : (Node.expr value).Carries (Effect.Names V.Error)) :
    s'.Sound V ∧ ∀ d ∈ e, d.Names V.Error := by
  have heffect := hs.env.effectOf hvalue
  cases h with
  | nowhere => exact ⟨hs, by simp⟩
  | @accepted id a a' _ ha hinsert =>
    have hnames := Aggregate.insert_names (hs.aggregates a (List.mem_of_getElem? ha)) heffect none
    rw [hinsert] at hnames
    refine ⟨{ hs with env := hs.env.follow (.getD hnames.effect) id, aggregates := ?_ }, by simpa⟩
    intro a₁ ha₁
    rcases List.mem_or_eq_of_mem_set ha₁ with ha₁ | rfl
    · exact hs.aggregates a₁ ha₁
    · exact hnames
  | @refused id a _ _ ha hinsert =>
    have hnames := Aggregate.insert_names (hs.aggregates a (List.mem_of_getElem? ha)) heffect none
    rw [hinsert] at hnames
    exact ⟨hs.logged hf (List.forall_mem_singleton.2 ⟨rfl, hnames⟩), by simpa using .raisesAny⟩

end Analysis

/-- The analysis of an expression keeps the name that it stands for or calls. -/
theorem Analysed.names {c : Context} {s s' : AnalysisState} {e : Expr Span} {vs : List Visit}
    {e' : Expr Note} (h : Analysed c s (.expr e) vs (.expr e') s') :
    (Node.expr e').names = (Node.expr e).names := by
  cases h <;> rfl

open Vocabulary in
/-- **The walk over a body keeps states sound.** -/
theorem Analysed.walked {c : Context} {V : Vocabulary c.isError} {s s' : AnalysisState}
    {t : Part Span} {vs : List Visit} {t' : Part Note} (hc : c.Collects)
    (hf : ∀ f ∈ c.function, V.Word f) (h : Analysed c s t vs t' s') (ht : V.Knows t.nodes)
    (hs : s.Sound V) : s'.Sound V ∧ (soundness V).Walked c vs t'.walk := by
  induction h with
  | name | literal | returnNone =>
    exact ⟨hs, (Invariant.Walked.nil.visit (d := 0) hs _).node (.silent rfl) rfl⟩
  | exprsNil | stmtsNil | restNone => exact ⟨hs, .nil⟩
  | @call s s₁ span callee args args' vs hargs ih =>
    obtain ⟨hcallee, ht⟩ := knows_cons.1 ht
    obtain ⟨hs₁, hw⟩ := ih ht hs
    obtain ⟨hnames, hentries⟩ := hs₁.env.called hw.carriesAll
      (hcallee callee (List.mem_singleton.2 rfl)) span.start
    refine ⟨(hs₁.logged hf hentries).contribute fun d hd => ?_, ?_⟩
    · rw [List.mem_singleton.1 (List.mem_of_mem_filter hd)]
      exact hnames
    · exact (hw.visit (d := 0) hs _).call span hnames
        ⟨span, args, rfl, hargs.returns hc, callEffect_eq hc.failFast ..⟩
  | @closure s s₁ span params clause body body' vs _ ih =>
    obtain ⟨-, hparams, hclause, hbody⟩ : _ ∧ V.Knows _ ∧ V.Knows _ ∧ V.Knows _ := by
      rwa [Part.nodes, Expr.nodes, knows_cons, knows_append, knows_append] at ht
    obtain ⟨hs₁, hw⟩ := ih hbody (inClosure_sound hf hs hparams)
    obtain ⟨hnames, hentries⟩ := closureOutcome_fair span hclause hs₁.candidates
    refine ⟨(hs₁.closed.withCandidates hs.candidates).logged hf (List.forall_mem_append.2
      ⟨hentries, List.forall_mem_singleton.2 ⟨rfl, trivial⟩⟩), ?_⟩
    exact ((hw.with_clause _).visit (d := 0) hs _).node
      (.allowed rfl fun _ he => Option.some.inj he ▸ hnames) rfl
  | @collection _ _ _ kind _ _ _ _ ih =>
    obtain ⟨hs₁, hw⟩ := ih (knows_cons.1 ht).2 hs
    obtain ⟨hnames, hentries⟩ := hs₁.env.elements hw.carriesAll none (by simp) c.policy kind
    exact ⟨(hs₁.logged hf hentries).newAggregates (List.forall_mem_singleton.2 hnames),
      (hw.visit (d := 0) hs _).node (.silent rfl) rfl⟩
  | unary _ ih | returnSome _ ih =>
    obtain ⟨hs₁, hw⟩ := ih (knows_cons.1 ht).2 hs
    exact ⟨hs₁, (hw.visit (d := 0) hs _).node (.silent rfl) rfl⟩
  | bodyBlock _ ih | bodyExpr _ ih | stmtExpr _ ih | restBlock _ ih => exact ih ht hs
  | binary _ _ ih₁ ih₂ | while_ _ _ ih₁ ih₂ =>
    obtain ⟨ht₁, ht₂⟩ := knows_append.1 (knows_cons.1 ht).2
    obtain ⟨hs₁, hw₁⟩ := ih₁ ht₁ hs
    obtain ⟨hs₂, hw₂⟩ := ih₂ ht₂ hs₁
    exact ⟨hs₂, ((hw₁.append hw₂).visit (d := 0) hs _).node (.silent rfl) rfl⟩
  | exprsCons _ _ ih₁ ih₂ | stmtsCons _ _ ih₁ ih₂ =>
    obtain ⟨ht₁, ht₂⟩ := knows_append.1 ht
    obtain ⟨hs₁, hw₁⟩ := ih₁ ht₁ hs
    obtain ⟨hs₂, hw₂⟩ := ih₂ ht₂ hs₁
    exact ⟨hs₂, hw₁.append hw₂⟩
  | block _ ih =>
    obtain ⟨hs₁, hw⟩ := ih (knows_cons.1 ht).2 (hs.opened (by simp))
    exact ⟨hs₁.closed, (hw.visit (d := 0) hs _).node (.silent rfl) rfl⟩
  | @letCollection _ _ _ _ _ _ _ kind _ _ _ _ ih =>
    obtain ⟨htype, hvalue⟩ := knows_append.1 (knows_cons.1 ht).2
    have hs₂ := declaring_sound hf hs htype
    obtain ⟨hs₃, hw⟩ := ih (knows_cons.1 hvalue).2 hs₂
    obtain ⟨hnames, hentries⟩ := hs₃.env.elements hw.carriesAll _
      (declared_names htype mem_types_of_elementClause?) c.policy kind
    refine ⟨((hs₃.logged hf hentries).newAggregates (List.forall_mem_singleton.2 hnames)).define
      (.collection (.getD hnames.effect) _) _, ?_⟩
    refine Invariant.Walked.node (.visit (d := 0) (.with_types ?_ _) hs _) (.silent rfl) rfl
    exact (hw.visit (d := 0) hs₂ _).node (.silent rfl) rfl
  | @letValue _ _ span _ _ _ _ _ _ _ hrun ih =>
    obtain ⟨hname, ht⟩ := knows_cons.1 ht
    obtain ⟨htype, hvalue⟩ := knows_append.1 ht
    obtain ⟨hs₃, hw⟩ := ih hvalue (declaring_sound hf hs htype)
    obtain ⟨hnames, hbinding, hentries⟩ := hs₃.env.bound (hname _ (List.mem_singleton.2 rfl))
      span.start htype (declared_names htype mem_types_of_functionClause?) hw.carries
      (hrun.names ▸ fun x => hvalue.name (Expr.mem_nodes _))
    exact ⟨(hs₃.logged hf hentries).define hbinding _,
      ((hw.with_types _).visit (d := 0) hs _).node (.allowed rfl hnames) rfl⟩
  | assign _ he ih =>
    obtain ⟨htarget, ht⟩ := knows_cons.1 ht
    obtain ⟨hs₁, hw⟩ := ih ht hs
    obtain ⟨hs₂, hnames⟩ := he.sound hf hs₁ (htarget _ (List.mem_singleton.2 rfl)) hw.carries
    exact ⟨hs₂, (hw.visit (d := 0) hs _).node (.allowed rfl hnames) rfl⟩
  | raise hrun ih =>
    have hvalue := (knows_cons.1 ht).2
    obtain ⟨hs₁, hw⟩ := ih hvalue hs
    obtain ⟨hnames, hraising, hentries⟩ := hs₁.env.raised
      (hrun.names ▸ fun x => hvalue.name (Expr.mem_nodes _))
    refine ⟨(hs₁.logged hf hentries).contribute (List.forall_mem_singleton.2 hnames), ?_⟩
    exact (hw.visit (d := 0) hs _).node
      (fun _ => ⟨fun _ he => Option.some.inj he ▸ hnames,
        fun _ _ he => Option.some.inj he ▸ hraising⟩) rfl
  | @try_ s s₁ _ _ _ binding _ _ _ _ _ _ _ ih₁ ih₂ =>
    obtain ⟨ht₁, ht₂⟩ := knows_append.1 (knows_cons.1 ht).2
    obtain ⟨hs₁, hw₁⟩ := ih₁ ht₁ (hs.withCandidates (by simp))
    have hcaught : (caughtBinding (.joinAll s₁.candidates)).Sound V :=
      .of_caught (.joinAll hs₁.candidates)
    obtain ⟨hs₂, hw₂⟩ := ih₂ ht₂ ((hs₁.withCandidates hs.candidates).opened
      (by simpa using fun _ _ => hcaught))
    exact ⟨hs₂.closed, ((hw₁.append hw₂).visit (d := 0) hs _).node (.silent rfl) rfl⟩
  | insert _ he ih =>
    obtain ⟨hs₁, hw⟩ := ih (knows_cons.1 ht).2 hs
    obtain ⟨hs₂, hnames⟩ := he.sound hf hs₁ hw.carries
    exact ⟨hs₂, (hw.visit (d := 0) hs _).node (.allowed rfl hnames) rfl⟩
  | for_ _ _ ih₁ ih₂ =>
    obtain ⟨ht₁, ht₂⟩ := knows_append.1 (knows_cons.1 ht).2
    obtain ⟨hs₁, hw₁⟩ := ih₁ ht₁ hs
    obtain ⟨hs₂, hw₂⟩ := ih₂ ht₂
      (hs₁.opened (List.forall_mem_singleton.2 (.of_loop hs₁.iterated)))
    exact ⟨hs₂.closed, ((hw₁.append hw₂).visit (d := 0) hs _).node (.silent rfl) rfl⟩
  | if_ _ _ _ ih₁ ih₂ ih₃ =>
    obtain ⟨ht₁, ht⟩ := knows_append.1 (knows_cons.1 ht).2
    obtain ⟨ht₂, ht₃⟩ := knows_append.1 ht
    obtain ⟨hs₁, hw₁⟩ := ih₁ ht₁ hs
    obtain ⟨hs₂, hw₂⟩ := ih₂ ht₂ hs₁
    obtain ⟨hs₃, hw₃⟩ := ih₃ ht₃ hs₂
    -- the walk lists the test twice
    refine ⟨hs₃, .node (.visit (d := 0) (((hw₁.append hw₂).append hw₃).relist fun n hn => .inl ?_)
      hs _) (.silent rfl) rfl⟩
    simpa only [Part.walk, List.mem_append, or_self] using hn
  | elif _ _ _ ih₁ ih₂ ih₃ =>
    obtain ⟨ht₁, ht⟩ := knows_append.1 ht
    obtain ⟨ht₂, ht₃⟩ := knows_append.1 ht
    obtain ⟨hs₁, hw₁⟩ := ih₁ ht₁ hs
    obtain ⟨hs₂, hw₂⟩ := ih₂ ht₂ hs₁
    obtain ⟨hs₃, hw₃⟩ := ih₃ ht₃ hs₂
    exact ⟨hs₃, (hw₁.append hw₂).append hw₃⟩

end RaisingEffects
