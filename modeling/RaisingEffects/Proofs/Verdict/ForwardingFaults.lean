import RaisingEffects.Proofs.Verdict.Bodies

/-!
# Faults of forwarding rules

Forwarding rules are judged where the signatures are read, and nowhere else. A function that
forwards has at most one fault, and a call has none: the rule that it applies was resolved for the
declared effects, and the arguments fit them or were reported. `Program.check_rules` says so, and
that a call whose arguments were not reported has an effect which fits that of the signature.
-/

namespace RaisingEffects

open Analysis

/-- The kinds of the faults of forwarding rules. -/
def forwardingKinds : List String :=
  ["InvalidDelegation", "DelegationTypeMismatch", "UnhandledRaisePath"]

theorem Cause.kind_mem_forwardingKinds (cause : Cause) :
    decide (cause.kind ∈ forwardingKinds) = cause.ofForwarding := by
  cases cause <;> simp [forwardingKinds, kind, ofForwarding]

/-- The fault of the forwarding rule of a function, if it has one. -/
def FunDecl.ruleFault? (isError : String → Bool) (g : FunDecl Span) : Option Diagnostic :=
  if g.forwards.isEmpty then none
  else
    match resolveFunction g (g.declaredEffects isError) with
    | .ok _ => none
    | .error v => some (.ofViolation (some g.name) v)

/-- Reads the declarations of a program: everything that a check does before the bodies. -/
def Analysis.seeding (p : Program Span) (skipped : List Ambiguity) : Analysis (List Signature) := do
  noteSkipped skipped
  declareTypes (p.errors ++ p.types)
  let _ ← interfaceEffects p.interfaces
  signatures p.functions

/-- What a verdict says about forwarding rules. -/
structure Verdict.JudgesRules (isError : String → Bool) (settings : Settings) (p : Program Span)
    (skipped : List Ambiguity) (v : Verdict) : Prop where
  /-- All faults are those of signatures, at most one for each function. -/
  faults : (v.diagnostics.filter fun d => d.cause.kind ∈ forwardingKinds) =
    p.functions.filterMap (FunDecl.ruleFault? isError)
  /-- They were all reported when the bodies were not yet looked at. -/
  log : ∃ sigs s rest, seeding p skipped { policy := settings.policy, isError } {} = (.ok sigs, s) ∧
    v.log = s.log ++ rest ∧ ∀ entry ∈ rest, entry.2.ofForwarding = false
  /-- Every call in the program was evaluated by one of the visits. -/
  evaluated : ∀ loc callee args, Node.expr (.call loc callee args) ∈ v.program.walk →
    ∃ w ∈ p.visits isError settings skipped, ∃ s e entries, loc.effect = some e ∧
      w.Evaluates callee args s e entries
  /-- An evaluated call reports no fault. If its callee has a rule, then the rule is that of a
  function, and the call has an effect that fits the resolved one, unless it reports an argument. -/
  calls : ∀ w ∈ p.visits isError settings skipped, ∀ callee args s e entries,
    w.Evaluates callee args s e entries →
    (∀ entry ∈ entries, entry.2.ofForwarding = false) ∧
    ∀ b f, s.env.lookup callee = some b → b.forwarding = some f →
      (∃ g ∈ p.functions, resolveFunction g (g.declaredEffects isError) = .ok (f, b.effect)) ∧
      ((∀ function v, (function, .violation v) ∈ entries → v.cause.ofArgument = false) →
        e.fits b.effect = true)

/-! ## Signatures -/

section Signatures

variable {isError : String → Bool}

/-- What is noted about a rule has the fault of the rule, and no other. -/
theorem FunDecl.forwardingFaults_ruleEntries (g : FunDecl Span) :
    forwardingFaults ((g.ruleEntries isError).map fun entry => (some g.name, entry)) =
      (g.ruleFault? isError).toList := by
  unfold FunDecl.ruleEntries FunDecl.ruleFault?
  split
  · refine forwardingFaults_eq_nil_iff.2 fun entry hentry => ?_
    simp only [List.map_map, List.mem_map, Option.mem_toList] at hentry
    obtain ⟨v, hv, rfl⟩ := hentry
    exact Clause.fault?_ofForwarding hv
  · cases hresolve : resolveFunction g (g.declaredEffects isError) with
    | ok resolved =>
      obtain ⟨f, e⟩ := resolved
      refine forwardingFaults_eq_nil_iff.2 fun entry hentry => ?_
      obtain ⟨entry, hentry', rfl⟩ := List.mem_map.1 hentry
      rcases List.mem_append.1 hentry' with hjoin | hresolved
      · exact Forwarding.joinEntries_ofForwarding hjoin
      · rw [List.mem_singleton.1 hresolved]
        rfl
    | error v =>
      simp [forwardingFaults, diagnosticsOf, Diagnostic.ofViolation, ofForwarding_of_error hresolve]

theorem forwardingFaults_signatureLog (gs : List (FunDecl Span)) :
    forwardingFaults (Program.signatureLog isError gs) =
      gs.filterMap (FunDecl.ruleFault? isError) := by
  induction gs with
  | nil => rfl
  | cons g gs ih =>
    have hparams : forwardingFaults ((g.params.flatMap (Param.entries isError)).map
        fun entry => (some g.name, entry)) = [] := by
      refine forwardingFaults_eq_nil_iff.2 fun entry hentry => ?_
      obtain ⟨entry, hentry', rfl⟩ := List.mem_map.1 hentry
      obtain ⟨p, -, hp⟩ := List.mem_flatMap.1 hentry'
      exact Param.entries_ofForwarding hp
    have hcons : Program.signatureLog isError (g :: gs) =
        ((g.params.flatMap (Param.entries isError)).map fun entry => (some g.name, entry)) ++
          ((g.ruleEntries isError).map fun entry => (some g.name, entry)) ++
            Program.signatureLog isError gs := by
      rw [Program.signatureLog, List.flatMap_cons, FunDecl.entries, List.map_append]
      rfl
    rw [hcons, forwardingFaults_append, forwardingFaults_append, hparams, List.nil_append,
      FunDecl.forwardingFaults_ruleEntries, ih]
    cases hfault : g.ruleFault? isError <;> simp [hfault]

theorem forwardingFaults_openingLog (p : Program Span) (skipped : List Ambiguity) :
    forwardingFaults (p.openingLog isError skipped) = [] := by
  refine forwardingFaults_eq_nil_iff.2 fun entry hentry => ?_
  rcases List.mem_append.1 hentry with hentry | hentry
  · obtain ⟨a, -, rfl⟩ := List.mem_map.1 hentry
    rfl
  · obtain ⟨i, -, hentry⟩ := List.mem_flatMap.1 hentry
    obtain ⟨m, -, hentry⟩ := List.mem_flatMap.1 hentry
    obtain ⟨v, hv, rfl⟩ := List.mem_map.1 hentry
    exact Clause.fault?_ofForwarding (Option.mem_toList.1 hv)

/-- The faults that are known when the declarations are read. -/
theorem Program.forwardingFaults_seeded (p : Program Span) (skipped : List Ambiguity) :
    forwardingFaults (p.seeded isError skipped).log =
      p.functions.filterMap (FunDecl.ruleFault? isError) := by
  rw [Program.seeded, forwardingFaults_append, forwardingFaults_openingLog, List.nil_append,
    forwardingFaults_signatureLog]

end Signatures

theorem Analysis.seeding_eq {c : Context} (hc : c.failFast = false) (hfunction : c.function = none)
    (p : Program Span) (skipped : List Ambiguity) :
    seeding p skipped c {} =
      (.ok (FunDecl.signatures c.isError 0 p.functions), p.seeded c.isError skipped) := by
  rw [seeding, bind_eq_of_ok (noteSkipped_eq skipped _), bind_eq_of_ok (declareTypes_eq _ _),
    bind_eq_of_ok (interfaceEffects_eq hc _ _), signatures_eq hc]
  simp [AnalysisState.logged, Program.seeded, Program.openingLog, Program.declarations,
    Env.defineAll, List.foldl_append, Function.comp_def, hfunction]

/-! ## Calls -/

section Calls

variable {c : Context} (hc : c.Collects) {gs : List (FunDecl Span)}
  {log : List (Option String × LogEntry)} {n : Node Span} {callee : String}
  {args : List (Expr Note)} {entries : List (Option String × LogEntry)} {s₀ s : AnalysisState}
  {e : Effect} (hs₀ : s₀.Sound (.all c.isError gs log))
  (h : Visit.Evaluates ⟨c, s₀, n⟩ callee args s e entries)

include hc hs₀ h

/-- A call that is visited in a sound state is evaluated in a sound state. -/
theorem Visit.Evaluates.sound :
    s.Sound (.all c.isError gs log) ∧
      (∀ a ∈ args, (Node.expr a).Carries
        (Effect.Names (Vocabulary.all c.isError gs log).Error)) ∧
      ∃ pos, e = (s.env.called callee pos args).1 ∧
        entries = (s.env.called callee pos args).2.map fun entry => (c.function, entry) := by
  obtain ⟨span, args₀, -, hargs, hcall⟩ := h
  obtain ⟨_, args', s', hrun⟩ := (Part.exprs args₀).derives _ s₀
  have hargs' : Expr.analyseAll args₀ c s₀ = _ := hrun.returns hc
  cases hargs.symm.trans hargs'
  obtain ⟨hs', hw⟩ := hrun.walked hc (fun _ _ => trivial) (fun _ _ => trivial) hs₀
  rw [callEffect_eq hc.failFast, AnalysisState.logged, Prod.mk.injEq, Except.ok.injEq,
    AnalysisState.mk.injEq] at hcall
  obtain ⟨rfl, -, -, -, hlog⟩ := hcall
  exact ⟨hs', hw.carriesAll, span.start, rfl, (List.append_cancel_left hlog).symm⟩

/-- A visited call reports no fault of a forwarding rule. -/
theorem Visit.Evaluates.quiet : ∀ entry ∈ entries, entry.2.ofForwarding = false := by
  obtain ⟨hs, hargs, pos, -, rfl⟩ := h.sound hc hs₀
  exact List.forall_mem_map.2 fun entry hentry =>
    ((hs.env.called hargs trivial pos).2 entry hentry).1

/-- A visited call of a name with a rule has an effect that fits the resolved one, unless it reports
an argument. -/
theorem Visit.Evaluates.fits {b : Binding} {f : Forwarding} (hb : s.env.lookup callee = some b)
    (hf : b.forwarding = some f)
    (harguments : ∀ function v, (function, .violation v) ∈ entries → v.cause.ofArgument = false) :
    e.fits b.effect = true := by
  obtain ⟨hs, hargs, pos, rfl, rfl⟩ := h.sound hc hs₀
  obtain ⟨-, -, hfits⟩ := hs.env.called_rule hargs hb hf pos trivial
  exact hfits fun v hv => harguments c.function v (List.mem_map_of_mem hv)

end Calls

/-! ## Sources -/

theorem Verdict.Bodies.judgesRules {isError : String → Bool} {settings : Settings}
    {p : Program Span} {skipped : List Ambiguity} {v : Verdict}
    (h : v.Bodies isError settings p skipped) : v.JudgesRules isError settings p skipped where
  faults := by
    simp only [Cause.kind_mem_forwardingKinds]
    exact h.faults.trans (p.forwardingFaults_seeded skipped)
  log := by
    obtain ⟨rest, hrest⟩ := h.log
    refine ⟨_, _, rest, seeding_eq rfl rfl p skipped, hrest.symm, ?_⟩
    have hfaults := h.faults
    rw [← hrest, forwardingFaults_append, List.append_right_eq_self] at hfaults
    exact forwardingFaults_eq_nil_iff.1 hfaults
  evaluated := fun loc callee args hmem =>
    h.walked.calls loc callee args (Program.mem_bodies hmem rfl)
  calls := by
    intro w hw callee args s e entries hcall
    obtain ⟨hcontext, d, hs₀⟩ := h.walked.states w hw
    obtain ⟨c, s₀, n⟩ := w
    dsimp only at hcontext hs₀
    generalize c.function = function at hcontext
    subst hcontext
    have hc : Context.Collects { policy := settings.policy, isError, function } :=
      ⟨rfl, fun _ => rfl⟩
    refine ⟨hcall.quiet hc hs₀, fun b f hb hf => ⟨?_, hcall.fits hc hs₀ hb hf⟩⟩
    obtain ⟨-, g, hg, -, hresolve, -⟩ := ((hcall.sound hc hs₀).1.env.lookup hb).rule f hf
    exact ⟨g, hg, hresolve⟩

/-- **Forwarding rules are judged where signatures are read, and calls keep to them.** -/
theorem Program.check_rules {source : String} {r : Reading} (h : Program.parse source = .ok r)
    (settings : Settings) (isError : String → Bool) :
    ∃ v, r.program.check settings isError r.skipped = .ok v ∧
      v.program.map Note.span = r.program ∧
      v.JudgesRules isError settings r.program r.skipped := by
  have hp := Program.parse_wellNamed h
  obtain ⟨v, hv, hcovers, hbodies⟩ := Program.check_bodies hp settings isError r.skipped
  exact ⟨v, hv, hcovers.shape, hbodies.judgesRules⟩

/-- A source with a function that forwards a parameter twice and one that is no function, calls of
it by another name, with too many and too few arguments, and a function that forwards nothing that
raises. -/
def aliasSource : String :=
  "error E;
fn run(g: fn() raises(E), n: int) forwards(g, n, g) \x7b g(); \x7d
fn idle(n: int) forwards(n) \x7b print(n); \x7d
fn main() raises(E) \x7b
  let alias = run;
  alias(|| \x7b raise E(); \x7d, 1, 2);
  run();
\x7d"

def aliasEffect? : Node Note → Option (Option Effect)
  | .expr (.call loc "alias" _) => some loc.effect
  | _ => none

set_option maxRecDepth 8192 in
theorem Program.check_rules_alias :
    ∃ r v w args s entries, Program.parse aliasSource = .ok r ∧
      r.program.check { policy := .precise } r.program.declaresError r.skipped = .ok v ∧
      r.program.functions.filterMap (FunDecl.ruleFault? r.program.declaresError) =
        [⟨.forwardsNothing "idle", some "idle", some ⟨3, 1⟩⟩] ∧
      w ∈ r.program.visits r.program.declaresError { policy := .precise } r.skipped ∧
      w.Evaluates "alias" args s (.raises "E") entries ∧
      ∀ entry ∈ entries, entry.2.ofForwarding = false := by
  obtain ⟨r, v, hr, hv, hdiagnostics, n, hn, hcall⟩ := Program.exists_verdict aliasSource
    { policy := .precise } (fun _ v =>
      v.diagnostics = [⟨.forwardsNothing "idle", some "idle", some ⟨3, 1⟩⟩] ∧
      ∃ n ∈ v.program.walk, aliasEffect? n = some (some (.raises "E"))) rfl (by decide +kernel)
  obtain ⟨v', hv', -, hrules⟩ := Program.check_rules hr { policy := .precise }
    r.program.declaresError
  cases hv.symm.trans hv'
  unfold aliasEffect? at hcall
  split at hcall
  · rename_i loc args
    obtain ⟨w, hw, s, e, entries, he, hevaluates⟩ := hrules.evaluated loc "alias" args hn
    cases he.symm.trans (Option.some.inj hcall)
    refine ⟨r, v, w, args, s, entries, hr, hv, ?_, hw, hevaluates,
      (hrules.calls w hw _ _ _ _ _ hevaluates).1⟩
    rw [← hrules.faults, hdiagnostics]
    decide
  · cases hcall

end RaisingEffects
