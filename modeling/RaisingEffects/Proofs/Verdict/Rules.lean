import RaisingEffects.Proofs.Analysis.Occasions
import RaisingEffects.Proofs.Effect.Names
import RaisingEffects.Proofs.Verdict.Forwarding

/-!
# What forwarding rules name and report

A rule that is resolved, for a signature or at a call, names types that the declared effects name,
and its target. That is a type of errors, unless the function converts to it, so that the effects of
forwarding functions name an `ErrorType` (`Forwarding.resolved_names`, `Forwarding.callSite_names`).

A rule that cannot be resolved has a fault, and nothing else that a signature reports is one:
`Cause.ofForwarding` tells the faults of rules from other violations, and `forwardingFaults` lists
those of a log.
-/

namespace RaisingEffects

/-! ## Error types -/

/-- The type that a forwarding function converts to. -/
def FunDecl.conversionTarget? (isError : String → Bool) (g : FunDecl Span) : Option String :=
  match Analysis.resolveFunction g (g.declaredEffects isError) with
  | .ok (f, _) => if f.converts then f.target else none
  | .error _ => none

/-- A type of errors, or one that a function converts to: the target of a conversion is taken as it
is written. -/
def ErrorType (isError : String → Bool) (gs : List (FunDecl Span)) (type : String) : Prop :=
  isError type = true ∨ ∃ g ∈ gs, g.conversionTarget? isError = some type

/-! ## Vocabularies -/

/-- What a check speaks of once the signatures are read: the functions, the log, and the words that
the program is written in. -/
structure Vocabulary (isError : String → Bool) where
  functions : List (FunDecl Span)
  log : List (Option String × LogEntry)
  Word : String → Prop
  named : ∀ g ∈ functions, ∀ x ∈ g.nodes.flatMap Node.names, Word x
  noun : ∀ kind : CollectionKind, Word kind.noun

/-- The vocabulary of all words. -/
def Vocabulary.all (isError : String → Bool) (functions : List (FunDecl Span))
    (log : List (Option String × LogEntry)) : Vocabulary isError :=
  ⟨functions, log, fun _ => True, by simp, by simp⟩

section Names

variable {isError : String → Bool} {V : Vocabulary isError} {type : Option (TypeExpr Span)}
  {p : Param Span}

namespace Vocabulary

/-- A type that effects may name. -/
def Error (V : Vocabulary isError) (type : String) : Prop :=
  V.Word type ∧ ErrorType isError V.functions type

/-- What is named at the nodes are words. -/
def Knows (V : Vocabulary isError) (ns : List (Node Span)) : Prop :=
  ∀ x ∈ ns.flatMap Node.names, V.Word x

theorem Knows.name {ns : List (Node Span)} (h : V.Knows ns) {n : Node Span} (hn : n ∈ ns)
    {x : String} (hx : x ∈ n.names) : V.Word x :=
  h x (List.mem_flatMap.2 ⟨n, hn, hx⟩)

theorem knows_append {ns ms : List (Node Span)} :
    V.Knows (ns ++ ms) ↔ V.Knows ns ∧ V.Knows ms := by
  rw [Knows, List.flatMap_append]
  exact List.forall_mem_append

theorem knows_cons {n : Node Span} {ns : List (Node Span)} :
    V.Knows (n :: ns) ↔ (∀ x ∈ n.names, V.Word x) ∧ V.Knows ns := List.forall_mem_append

theorem Knows.mono {ns ms : List (Node Span)} (h : V.Knows ns) (hms : ms ⊆ ns) : V.Knows ms := by
  intro x hx
  obtain ⟨n, hn, hx⟩ := List.mem_flatMap.1 hx
  exact h.name (hms hn) hx

end Vocabulary

theorem Clause.declared_names (clause : Option (Clause Span)) :
    (Clause.declared isError clause).Names fun type =>
      isError type = true ∧ ∃ c ∈ clause, type ∈ c.types := by
  unfold Clause.declared
  split
  · rename_i h
    refine (Effect.ofClause_names h).mono fun type ⟨herror, ts, hts, htype⟩ => ⟨herror, ?_⟩
    obtain ⟨c, hc, rfl⟩ := Option.map_eq_some_iff.1 hts
    exact ⟨c, hc, htype⟩
  · exact .raisesAny

theorem Clause.declared_type {clause : Option (Clause Span)} {ns : List (Node Span)}
    (hns : V.Knows ns) (h : ∀ c ∈ clause, .clause c ∈ ns) :
    (Clause.declared isError clause).Names V.Error :=
  (Clause.declared_names clause).mono fun _ ⟨herror, c, hc, htype⟩ =>
    ⟨hns.name (h c hc) htype, .inl herror⟩

theorem Analysis.of_errorType? {name : String} (h : errorType? isError type = some name) :
    isError name = true ∧ ∃ t ∈ type, name ∈ (Node.type t).names := by
  unfold errorType? at h
  split at h
  · split at h
    · rename_i herror
      cases h
      exact ⟨herror, _, rfl, List.mem_singleton.2 rfl⟩
    · cases h
  · cases h

theorem mem_types_of_functionClause? :
    ∀ clause ∈ functionClause? type, ∀ c ∈ clause,
      .clause c ∈ type.toList.flatMap TypeExpr.walk := by
  intro clause hclause c hc
  unfold functionClause? at hclause
  split at hclause <;> cases hclause
  simp [TypeExpr.walk_fn, Option.mem_def.1 hc]

theorem mem_types_of_elementClause? :
    ∀ clause ∈ type.bind Analysis.elementClause?, ∀ c ∈ clause,
      .clause c ∈ type.toList.flatMap TypeExpr.walk := by
  intro clause hclause c hc
  obtain ⟨type, rfl, hclause⟩ := Option.bind_eq_some_iff.1 hclause
  simpa using Analysis.mem_walk_of_elementClause? hclause c hc

theorem Param.declared?_names {d : Effect} (h : p.declared? isError = some d) :
    d.Names fun type => isError type = true ∧ type ∈ p.nodes.flatMap Node.names := by
  unfold Param.declared? at h
  split at h
  · rename_i htype
    cases h
    refine (Clause.declared_names _).mono fun type ⟨herror, c, hc, hmem⟩ => ⟨herror, ?_⟩
    refine List.mem_flatMap.2 ⟨.clause c, mem_types_of_functionClause? _ ?_ c hc, hmem⟩
    rw [htype]
    rfl
  · cases h

theorem Param.aggregates_names (hp : V.Knows p.nodes) {a : Aggregate}
    (h : a ∈ p.aggregates isError) : a.Names V.Word V.Error := by
  unfold Param.aggregates at h
  split at h
  · cases h
  · obtain ⟨clause, hclause, rfl⟩ := List.mem_map.1 h
    exact .of_effect (Clause.declared_type hp
      (mem_types_of_elementClause? clause (Option.mem_toList.1 hclause))) (V.noun .list)

theorem FunDecl.mem_names_of_param {g : FunDecl Span} (hp : p ∈ g.params) {x : String}
    (hx : x ∈ p.nodes.flatMap Node.names) : x ∈ g.nodes.flatMap Node.names := by
  obtain ⟨n, hn, hx⟩ := List.mem_flatMap.1 hx
  refine List.mem_flatMap.2 ⟨n, List.mem_cons_of_mem _ (List.mem_append_left _ ?_), hx⟩
  exact List.mem_append_left _ (List.mem_flatMap.2 ⟨p, hp, hn⟩)

theorem FunDecl.declaredEffects_names {g : FunDecl Span} {name : String} {d : Effect}
    (h : (g.declaredEffects isError).get? name = some d) :
    d.Names fun type => isError type = true ∧ type ∈ g.nodes.flatMap Node.names := by
  obtain ⟨p, hp, hentry⟩ := List.mem_filterMap.1 (Table.mem_ofEntries (Table.mem_of_get? h))
  obtain ⟨d', hd', heq⟩ := Option.map_eq_some_iff.1 hentry
  cases heq
  exact (Param.declared?_names hd').mono fun type h => ⟨h.1, FunDecl.mem_names_of_param hp h.2⟩

namespace Forwarding

variable {g : FunDecl Span} {f : Forwarding} {e : Effect}

theorem param_names (hrule : ofFunction g (g.declaredEffects isError) = .ok f)
    {p : ForwardedParam} (hp : p ∈ f.params) :
    p.effect.Names fun type => isError type = true ∧ type ∈ g.nodes.flatMap Node.names := by
  rw [(ofFunction_eq_ok hrule).1] at hp
  obtain ⟨name, -, rfl⟩ := List.mem_map.1 hp
  cases h : (g.declaredEffects isError).get? name with
  | none => simpa [h] using Effect.Names.nothrow
  | some d => simpa [h] using FunDecl.declaredEffects_names h

/-- A rule with a target is resolved to it. -/
theorem eq_raises_of_resolve {type : String} (htarget : f.target = some type)
    {effects : Table Effect} (h : f.resolve effects = .ok e) : e = .raises type := by
  unfold resolve at h
  rw [htarget] at h
  dsimp only at h
  split at h
  · split at h <;> cases h
    rfl
  · split at h <;> cases h
    rfl

/-- The effect that a rule is resolved to names the target, or what the parameters name. -/
theorem resolve_names {T : String → Prop} {effects : Table Effect}
    (heffects : ∀ p ∈ f.params, (effectOf effects p).Names T)
    (htarget : ∀ type, f.target = some type → T type) (h : f.resolve effects = .ok e) :
    e.Names T := by
  cases ht : f.target with
  | none =>
    rw [resolve, ht] at h
    cases h
    refine .joinAll fun d hd => ?_
    obtain ⟨entry, hentry, rfl⟩ := List.mem_map.1 hd
    obtain ⟨p, hp, -, -, he⟩ := exists_of_mem_raisingEffects hentry
    exact he ▸ heffects p hp
  | some type =>
    rw [eq_raises_of_resolve ht h]
    exact .raises (htarget type ht)

/-- A rule that is resolved without conversion has a target that is a type of errors, because a
parameter raises and fits it. -/
theorem isError_of_passed
    (h : Analysis.resolveFunction g (g.declaredEffects isError) = .ok (f, e)) {type : String}
    (htarget : f.target = some type) (hconverts : f.converts = false) : isError type = true := by
  obtain ⟨hrule, hresolve⟩ := Analysis.resolveFunction_eq_ok h
  obtain ⟨p, hp, hraising⟩ := List.any_eq_true.1 f.raising
  have hsame : ∀ p ∈ f.params, ∀ q ∈ f.params, p.name = q.name → p.effect = q.effect :=
    fun p hp q hq hname => congrArg _ (param_eq_of_ofFunction hrule hp hq hname)
  obtain ⟨-, hall⟩ := (resolve_eq_ok_iff hsame htarget).1 hresolve
  have hfits := hall p hp hraising (by simp [hconverts])
  rw [effectOf_of_ofFunction hrule hp] at hfits
  have hnames := param_names hrule hp
  cases hp' : p.effect with
  | nothrow =>
    rw [hp'] at hraising
    cases hraising
  | raisesAny =>
    rw [hp'] at hfits
    cases hfits
  | raises type' =>
    rw [hp'] at hfits hnames
    obtain rfl : type' = type := by simpa [Effect.fits] using hfits
    exact (hnames _ rfl).1

theorem conversionTarget?_of_converts
    (h : Analysis.resolveFunction g (g.declaredEffects isError) = .ok (f, e))
    (hconverts : f.converts = true) : g.conversionTarget? isError = f.target := by
  rw [FunDecl.conversionTarget?, h]
  exact if_pos hconverts

section Resolved

variable (hg : g ∈ V.functions)

include hg

theorem param_type (hrule : ofFunction g (g.declaredEffects isError) = .ok f)
    {p : ForwardedParam} (hp : p ∈ f.params) : p.effect.Names V.Error :=
  (param_names hrule hp).mono fun type h => ⟨V.named g hg type h.2, .inl h.1⟩

/-- The target of a rule is written in the clause of the function. -/
theorem target_word {effects : Table Effect} (hrule : ofFunction g effects = .ok f) {type : String}
    (htarget : f.target = some type) : V.Word type := by
  rw [target_of_ofFunction hrule] at htarget
  obtain ⟨c, hc, htype⟩ := Option.bind_eq_some_iff.1 htarget
  refine V.named g hg type (List.mem_flatMap.2 ⟨.clause c, ?_, List.mem_of_head? htype⟩)
  simp [FunDecl.nodes, FunDecl.signatureNodes, hc]

variable (h : Analysis.resolveFunction g (g.declaredEffects isError) = .ok (f, e))

include h

theorem target_type {type : String} (htarget : f.target = some type) : V.Error type := by
  refine ⟨target_word hg (Analysis.resolveFunction_eq_ok h).1 htarget, ?_⟩
  cases hconverts : f.converts with
  | false => exact .inl (isError_of_passed h htarget hconverts)
  | true => exact .inr ⟨g, hg, (conversionTarget?_of_converts h hconverts).trans htarget⟩

/-- The effect of a resolved rule names error types only. -/
theorem resolved_names : e.Names V.Error := by
  obtain ⟨hrule, hresolve⟩ := Analysis.resolveFunction_eq_ok h
  refine resolve_names (fun p hp => ?_) (fun type htarget => target_type hg h htarget) hresolve
  rw [effectOf_of_ofFunction hrule hp]
  exact param_type hg hrule hp

/-- The effect of a call names error types only if the arguments do. -/
theorem callSite_names {arguments : List Effect} (harguments : ∀ a ∈ arguments, a.Names V.Error)
    {d : Effect} (hcall : f.callSite (Analysis.forwardedEffects f arguments) = .ok d) :
    d.Names V.Error := by
  obtain ⟨hrule, -⟩ := Analysis.resolveFunction_eq_ok h
  unfold callSite at hcall
  split at hcall
  · refine resolve_names (fun p hp => ?_) (fun type ht => target_type hg h ht) hcall
    unfold effectOf
    cases hget : (Analysis.forwardedEffects f arguments).get? p.name with
    | none => exact param_type hg hrule hp
    | some a =>
      obtain ⟨q, hq, hentry⟩ := List.mem_map.1 (Table.mem_ofEntries (Table.mem_of_get? hget))
      obtain ⟨-, rfl⟩ := Prod.mk.inj hentry
      cases harg : arguments[q.position]? with
      | none => exact param_type hg hrule hq
      | some a => exact harguments a (List.mem_of_getElem? harg)
  · cases hcall
    exact .nothrow

end Resolved

end Forwarding

end Names

/-! ## Faults of forwarding rules -/

/-- Whether a violation is a fault of a forwarding rule. -/
def Cause.ofForwarding : Cause → Bool
  | forwardsNothing _ | passMismatch .. | unhandledPath .. => true
  | _ => false

def Cause.ofArgument : Cause → Bool
  | argumentMismatch .. => true
  | _ => false

def LogEntry.ofForwarding : LogEntry → Bool
  | .violation v => v.cause.ofForwarding
  | _ => false

/-- The faults of forwarding rules in a log. -/
def forwardingFaults (log : List (Option String × LogEntry)) : List Diagnostic :=
  (diagnosticsOf log).filter fun d => d.cause.ofForwarding

theorem forwardingFaults_append (log more : List (Option String × LogEntry)) :
    forwardingFaults (log ++ more) = forwardingFaults log ++ forwardingFaults more := by
  rw [forwardingFaults, diagnosticsOf_append, List.filter_append]
  rfl

theorem forwardingFaults_eq_nil_iff {log : List (Option String × LogEntry)} :
    forwardingFaults log = [] ↔ ∀ entry ∈ log, entry.2.ofForwarding = false := by
  rw [forwardingFaults, List.filter_eq_nil_iff]
  constructor
  · intro h entry hentry
    obtain ⟨function, entry⟩ := entry
    cases entry with
    | violation w =>
      exact Bool.eq_false_iff.2 (h _ (mem_diagnosticsOf.2 ⟨function, w, hentry, rfl⟩))
    | _ => rfl
  · intro h d hd
    obtain ⟨function, w, hw, rfl⟩ := mem_diagnosticsOf.1 hd
    exact Bool.eq_false_iff.1 (h _ hw)

/-- A rule that cannot be made or resolved has a fault. -/
theorem Analysis.ofForwarding_of_error {g : FunDecl Span} {effects : Table Effect} {v : Violation}
    (h : resolveFunction g effects = .error v) : v.cause.ofForwarding = true := by
  rcases resolveFunction_eq_error h with rfl | ⟨f, -, hresolve⟩
  · rfl
  · obtain ⟨-, -, -, -, -, ⟨-, -, rfl⟩ | rfl⟩ := Forwarding.resolve_eq_error hresolve <;> rfl

theorem Clause.fault?_ofForwarding {isError : String → Bool} {clause : Option (Clause Span)}
    {v : Violation} (h : Clause.fault? isError clause = some v) : v.cause.ofForwarding = false := by
  unfold Clause.fault? at h
  split at h <;> cases h
  rfl

theorem Param.entries_ofForwarding {isError : String → Bool} {p : Param Span} {entry : LogEntry}
    (h : entry ∈ p.entries isError) : entry.ofForwarding = false := by
  obtain ⟨v, hv, rfl⟩ := List.mem_map.1 h
  obtain ⟨clause, -, hv⟩ := Option.bind_eq_some_iff.1 (Option.mem_toList.1 hv)
  exact Clause.fault?_ofForwarding hv

theorem Forwarding.joinEntries_ofForwarding {f : Forwarding} {e : Effect} {entry : LogEntry}
    (h : entry ∈ f.joinEntries e) : entry.ofForwarding = false := by
  unfold Forwarding.joinEntries at h
  split at h
  · rw [List.mem_singleton.1 h]
    rfl
  · cases h

/-! ## What is said in the log -/

section Spelt

variable {isError : String → Bool} (V : Vocabulary isError)

/-- What is said about a cause is in the vocabulary. -/
def Cause.Spelt : Cause → Prop
  | ambiguous word | clauseNotError word | raisedNotError word | forwardsNothing word =>
    V.Word word
  | misfit m => m.Names V.Word V.Error
  | letMismatch word d e | assignMismatch word d e | argumentMismatch word _ d e
  | functionRaises word d e => V.Word word ∧ d.Names V.Error ∧ e.Names V.Error
  | closureRaises d e => d.Names V.Error ∧ e.Names V.Error
  | passMismatch function parameter target e | unhandledPath function parameter target e =>
    V.Word function ∧ V.Word parameter ∧ V.Word target ∧ e.Names V.Error

def LogEntry.Spelt : LogEntry → Prop
  | .violation v => v.cause.Spelt V
  | _ => True

/-- What is noted in a body: something in the vocabulary, and no fault of a forwarding rule. -/
def LogEntry.Fair (entry : LogEntry) : Prop := entry.ofForwarding = false ∧ entry.Spelt V

variable {V}

theorem Forwarding.joinEntries_fair {f : Forwarding} {e : Effect} {entry : LogEntry}
    (h : entry ∈ f.joinEntries e) : entry.Fair V := by
  refine ⟨joinEntries_ofForwarding h, ?_⟩
  unfold joinEntries at h
  split at h
  · rw [List.mem_singleton.1 h]
    trivial
  · cases h

variable {ns : List (Node Span)} (hns : V.Knows ns)

include hns

theorem Clause.fault?_spelt {clause : Option (Clause Span)} (hclause : ∀ c ∈ clause, .clause c ∈ ns)
    {v : Violation} (h : Clause.fault? isError clause = some v) : v.cause.Spelt V := by
  unfold Clause.fault? at h
  split at h <;> cases h
  rename_i type htype
  unfold Effect.ofClause at htype
  split at htype
  · cases htype
  · cases htype
  · rename_i types htypes
    split at htype <;> cases htype
    rename_i hfind
    obtain ⟨c, hc, rfl⟩ := Option.map_eq_some_iff.1 htypes
    exact hns.name (hclause c hc) (List.mem_of_find?_eq_some hfind)

theorem clauseEntries_fair {clause? : Option (Option (Clause Span))}
    (hclause : ∀ clause ∈ clause?, ∀ c ∈ clause, .clause c ∈ ns) :
    ∀ entry ∈ clauseEntries isError clause?, entry.Fair V := by
  intro entry hentry
  obtain ⟨v, hv, rfl⟩ := List.mem_map.1 hentry
  obtain ⟨clause, hclause', hfault⟩ := Option.bind_eq_some_iff.1 (Option.mem_toList.1 hv)
  exact ⟨Clause.fault?_ofForwarding hfault,
    Clause.fault?_spelt hns (hclause clause hclause') hfault⟩

theorem Param.entries_fair {p : Param Span} (hp : p.nodes ⊆ ns) :
    ∀ entry ∈ p.entries isError, entry.Fair V := by
  obtain ⟨name, type⟩ := p
  refine clauseEntries_fair hns fun clause h c hc => hp ?_
  split at h
  · rename_i htype
    refine mem_types_of_functionClause? clause ?_ c hc
    rw [htype]
    exact h
  · exact mem_types_of_elementClause? clause h c hc

end Spelt

end RaisingEffects
