import RaisingEffects.Proofs.Analysis.Invariant
import RaisingEffects.Proofs.Verdict.Rules

/-!
# What names mean in the course of a check

A meaning is sound (`Binding.Sound`) if its effects name error types only, if an error raises
something, and if a forwarding rule is that of a function of the program, resolved to the effect of
the name. In a sound state (`AnalysisState.Sound`) all names mean what is sound, the effects of
collections and the candidates name error types only, and what was noted since the signatures were
read is in the vocabulary and no fault of a forwarding rule.

What names get to mean in the course of a check, as functions, parameters, loop variables or caught
errors, is sound (`Binding.Sound.of_function` and its relatives).
-/

namespace RaisingEffects

/-! ## Sound meanings -/

/-- A name with this meaning has an effect that names error types only. An error raises something,
and only collections follow an aggregate. A rule is that of a function, resolved to the effect. -/
structure Binding.Sound {isError : String → Bool} (V : Vocabulary isError) (b : Binding) :
    Prop where
  names : b.effect.Names V.Error
  params : ∀ d, some d ∈ b.params → d.Names V.Error
  raising : b.kind = .error → b.effect.isRaising = true
  aggregate : ∀ id, b.aggregate = some id → b.kind = .collection
  rule : ∀ f, b.forwarding = some f → b.kind = .callable ∧ ∃ g ∈ V.functions, g.WellNamed ∧
    Analysis.resolveFunction g (g.declaredEffects isError) = .ok (f, b.effect) ∧
    b.params = g.params.map (Param.declared? isError)

namespace Binding.Sound

variable {isError : String → Bool} {V : Vocabulary isError} {b : Binding} {e : Effect}

/-- A meaning without a rule. -/
theorem plain {kind : BindingKind} {aggregate : Option Nat}
    (he : e.Names V.Error) (hraising : kind = .error → e.isRaising = true)
    (haggregate : ∀ id, aggregate = some id → kind = .collection) :
    Binding.Sound V { kind, effect := e, aggregate } :=
  ⟨he, by simp, hraising, haggregate, by simp⟩

theorem callable (he : e.Names V.Error) : (Binding.callable e).Sound V :=
  plain he (by simp) (by simp)

theorem error (he : e.Names V.Error) (hraising : e.isRaising = true) :
    (Binding.error e).Sound V :=
  plain he (fun _ => hraising) (by simp)

theorem errorOf {type : String} (hword : V.Word type) (h : isError type = true) :
    (Binding.error (.raises type)).Sound V :=
  error (.raises ⟨hword, .inl h⟩) rfl

theorem of_errorType {type : Option (TypeExpr Span)} {name : String}
    (htype : V.Knows (type.toList.flatMap TypeExpr.walk))
    (h : Analysis.errorType? isError type = some name) :
    (Binding.error (.raises name)).Sound V := by
  obtain ⟨herror, t, rfl, hname⟩ := Analysis.of_errorType? h
  refine errorOf (htype.name (n := .type t) ?_ hname) herror
  cases t <;> simp [TypeExpr.walk, TypeExpr.walk_fn]

theorem value : Binding.value.Sound V := plain .nothrow (by simp) (by simp)

theorem typeName : Binding.Sound V { kind := .typeName } :=
  plain .nothrow (by simp) (by simp)

theorem collection (he : e.Names V.Error) (id : Nat) :
    Binding.Sound V { kind := .collection, effect := e, aggregate := some id } :=
  plain he (by simp) (by simp)

/-- The meaning that a function's name gets from its signature. -/
theorem of_function {g : FunDecl Span} (hg : g ∈ V.functions) (hnamed : g.WellNamed) :
    (g.binding isError).Sound V where
  names := by
    unfold FunDecl.binding
    dsimp only
    split
    · refine Clause.declared_type (V.named g hg) fun c hc => ?_
      simp [FunDecl.nodes, FunDecl.signatureNodes, Option.mem_def.1 hc]
    · split
      · rename_i hresolve
        exact Forwarding.resolved_names hg hresolve
      · exact .raisesAny
  params := by
    intro d hd
    rw [FunDecl.binding_params] at hd
    obtain ⟨p, hp, hd⟩ := List.mem_map.1 hd
    refine (Param.declared?_names hd).mono fun type h => ⟨V.named g hg type ?_, .inl h.1⟩
    exact FunDecl.mem_names_of_param hp h.2
  raising := by simp [FunDecl.binding_kind]
  aggregate := by simp [FunDecl.binding_aggregate]
  rule := fun f hf => ⟨FunDecl.binding_kind .., g, hg, hnamed,
    FunDecl.resolveFunction_of_binding isError hf, FunDecl.binding_params ..⟩

theorem of_param (id : Nat) {p : Param Span} (hp : V.Knows p.nodes) :
    (p.binding isError id).Sound V := by
  obtain ⟨name, type⟩ := p
  unfold Param.binding
  dsimp only
  split
  · exact callable (Clause.declared_type hp (mem_types_of_functionClause? _ rfl))
  · split
    · rename_i helement
      exact collection (Clause.declared_type hp (mem_types_of_elementClause? _ helement)) id
    · split
      · rename_i herror
        exact of_errorType hp herror
      · exact value

theorem of_loop {o : Option Effect} (ho : ∀ e ∈ o, e.Names V.Error) :
    (Analysis.loopBinding o).Sound V := by
  cases o with
  | none => exact value
  | some e => exact callable (ho e rfl)

theorem of_caught (he : e.Names V.Error) :
    (Analysis.caughtBinding e).Sound V := by
  unfold Analysis.caughtBinding
  split
  · rename_i hraising
    exact error he hraising
  · exact error .raisesAny rfl

theorem of_params {id : Nat} {ps : List (Param Span)} (hps : V.Knows (ps.flatMap Param.nodes)) :
    ∀ b ∈ Param.bindings isError id ps, b.Sound V := by
  induction ps generalizing id with
  | nil => simp [Param.bindings]
  | cons p ps ih =>
    rw [List.flatMap_cons, Vocabulary.knows_append] at hps
    exact List.forall_mem_cons.2 ⟨of_param id hps.1, ih hps.2⟩

/-- A collection that follows its aggregate. -/
theorem follow (h : b.Sound V) (he : e.Names V.Error) (id : Nat) :
    (if b.aggregate = some id then { b with effect := e } else b).Sound V := by
  split
  · rename_i hid
    have hkind := h.aggregate id hid
    refine ⟨he, h.params, fun herror => ?_, h.aggregate, fun f hf => ?_⟩
    · rw [hkind] at herror
      cases herror
    · have hcallable := (h.rule f hf).1
      rw [hkind] at hcallable
      cases hcallable
  · exact h

end Binding.Sound

/-! ## Sound states -/

/-- All names in all scopes have sound meanings. -/
def Env.Sound {isError : String → Bool} (V : Vocabulary isError) (env : Env) : Prop :=
  ∀ scope ∈ env, ∀ entry ∈ scope, entry.2.Sound V

namespace Env.Sound

variable {isError : String → Bool} {V : Vocabulary isError} {env : Env} {b : Binding}

theorem lookup (h : env.Sound V) {name : String} (hb : env.lookup name = some b) :
    b.Sound V := by
  obtain ⟨scope, hscope, hget⟩ := List.exists_of_findSome?_eq_some hb
  exact h scope hscope _ (Table.mem_of_get? hget)

theorem set {scope : Table Binding} (h : ∀ entry ∈ scope, entry.2.Sound V)
    (hb : b.Sound V) (name : String) :
    ∀ entry ∈ scope.set name b, entry.2.Sound V := by
  intro entry hentry
  rcases Table.mem_set hentry with rfl | hentry
  · exact hb
  · exact h entry hentry

variable (h : env.Sound V)

include h

theorem define (hb : b.Sound V) (name : String) : (env.define name b).Sound V := by
  cases env with
  | nil => simpa [Env.define, Env.Sound] using hb
  | cons scope outer =>
    obtain ⟨hscope, houter⟩ := List.forall_mem_cons.1 h
    exact List.forall_mem_cons.2 ⟨set hscope hb name, houter⟩

theorem defineAll {entries : List (String × Binding)}
    (hentries : ∀ entry ∈ entries, entry.2.Sound V) : (env.defineAll entries).Sound V := by
  induction entries generalizing env with
  | nil => exact h
  | cons entry entries ih =>
    obtain ⟨hentry, hrest⟩ := List.forall_mem_cons.1 hentries
    exact ih (h.define hentry entry.1) hrest

theorem rebind (hb : b.Sound V) (name : String) : (env.rebind name b).Sound V := by
  induction env with
  | nil => exact h
  | cons scope outer ih =>
    obtain ⟨hscope, houter⟩ := List.forall_mem_cons.1 h
    unfold Env.rebind
    split
    · exact List.forall_mem_cons.2 ⟨set hscope hb name, houter⟩
    · exact List.forall_mem_cons.2 ⟨hscope, ih houter⟩

theorem follow {e : Effect} (he : e.Names V.Error) (id : Nat) : (env.follow id e).Sound V := by
  intro scope' hscope' entry' hentry'
  obtain ⟨scope, hscope, rfl⟩ := List.mem_map.1 hscope'
  obtain ⟨entry, hentry, rfl⟩ := List.mem_map.1 hentry'
  exact (h scope hscope entry hentry).follow he id

/-- Calling a value whose own effect names error types only, or a name, does so too. -/
theorem effectOf {e : Expr Note} (he : (Node.expr e).Carries (Effect.Names V.Error)) :
    (env.effectOf e).Names V.Error := by
  unfold Env.effectOf
  split
  · rename_i loc _ _ _
    cases hloc : loc.effect with
    | none => exact .nothrow
    | some d => exact he d hloc
  · split
    · rename_i b hb
      split
      · exact (h.lookup hb).names
      · exact .nothrow
    · exact .nothrow
  · exact .nothrow

end Env.Sound

/-- All that a state knows is sound, and so is what was noted on top of the log of the
vocabulary. -/
structure AnalysisState.Sound {isError : String → Bool} (V : Vocabulary isError)
    (s : AnalysisState) : Prop where
  env : s.env.Sound V
  aggregates : ∀ a ∈ s.aggregates, a.Names V.Word V.Error
  candidates : ∀ e ∈ s.candidates, e.Names V.Error
  log : ∃ new, s.log = V.log ++ new ∧
    ∀ entry ∈ new, (∀ f ∈ entry.1, V.Word f) ∧ entry.2.Fair V

namespace AnalysisState.Sound

variable {isError : String → Bool} {V : Vocabulary isError} {s : AnalysisState}
  {function : Option String} (h : s.Sound V)

include h

theorem faults : forwardingFaults s.log = forwardingFaults V.log := by
  obtain ⟨new, hlog, hnew⟩ := h.log
  have hnone : forwardingFaults new = [] :=
    forwardingFaults_eq_nil_iff.2 fun entry hentry => (hnew entry hentry).2.1
  rw [hlog, forwardingFaults_append, hnone, List.append_nil]

theorem logged (hf : ∀ f ∈ function, V.Word f) {entries : List LogEntry}
    (hentries : ∀ entry ∈ entries, entry.Fair V) : (s.logged function entries).Sound V where
  env := h.env
  aggregates := h.aggregates
  candidates := h.candidates
  log := by
    obtain ⟨new, hlog, hnew⟩ := h.log
    refine ⟨_, by rw [AnalysisState.logged, hlog, List.append_assoc], ?_⟩
    refine List.forall_mem_append.2 ⟨hnew, fun entry hentry => ?_⟩
    obtain ⟨entry, hmem, rfl⟩ := List.mem_map.1 hentry
    exact ⟨hf, hentries entry hmem⟩

theorem define {b : Binding} (hb : b.Sound V) (name : String) :
    AnalysisState.Sound V { s with env := s.env.define name b } :=
  { h with env := h.env.define hb name }

theorem newAggregates {as : List Aggregate} (has : ∀ a ∈ as, a.Names V.Word V.Error) :
    AnalysisState.Sound V { s with aggregates := s.aggregates ++ as } :=
  { h with aggregates := List.forall_mem_append.2 ⟨h.aggregates, has⟩ }

theorem withCandidates {es : List Effect} (hes : ∀ e ∈ es, e.Names V.Error) :
    AnalysisState.Sound V { s with candidates := es } := { h with candidates := hes }

theorem contribute {es : List Effect} (hes : ∀ e ∈ es, e.Names V.Error) :
    AnalysisState.Sound V { s with candidates := s.candidates ++ es } :=
  h.withCandidates (List.forall_mem_append.2 ⟨h.candidates, hes⟩)

theorem opened {entries : List (String × Binding)} (hentries : ∀ entry ∈ entries, entry.2.Sound V) :
    (s.opened entries).Sound V :=
  { h with env := .defineAll (List.forall_mem_cons.2 ⟨by simp, h.env⟩) hentries }

theorem closed : s.closed.Sound V :=
  { h with env := fun scope hscope => h.env scope (List.mem_of_mem_drop hscope) }

theorem iterated {iterable : Expr Note} : ∀ e ∈ s.iterated iterable, e.Names V.Error := by
  intro e he
  obtain ⟨a, ha, he⟩ := Option.bind_eq_some_iff.1 he
  obtain ⟨id, -, ha⟩ := Option.bind_eq_some_iff.1 ha
  exact (h.aggregates a (List.mem_of_getElem? ha)).effect e he

end AnalysisState.Sound

end RaisingEffects
