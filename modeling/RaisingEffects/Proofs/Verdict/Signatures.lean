import RaisingEffects.Proofs.Analysis.Run

/-!
# What is known before any body is analysed

A check reads all signatures first. What it learns from them depends on the declarations alone, so
it can be written down: the meaning of a function's name (`FunDecl.binding`), what is noted about
its signature (`FunDecl.entries`), and the state in which the first body is analysed
(`Program.seeded`). `Analysis.checkProgram_eq` says that a check is the check of the bodies in that
state.
-/

namespace RaisingEffects

/-! ## Logs -/

def diagnosticsOf (log : List (Option String × LogEntry)) : List Diagnostic :=
  log.filterMap fun
    | (function, .violation w) => some (.ofViolation function w)
    | _ => none

theorem diagnosticsOf_append (log more : List (Option String × LogEntry)) :
    diagnosticsOf (log ++ more) = diagnosticsOf log ++ diagnosticsOf more :=
  List.filterMap_append ..

theorem mem_diagnosticsOf {log : List (Option String × LogEntry)} {d : Diagnostic} :
    d ∈ diagnosticsOf log ↔ ∃ function w, (function, .violation w) ∈ log ∧
      d = .ofViolation function w := by
  constructor
  · intro h
    obtain ⟨⟨function, entry⟩, hentry, hd⟩ := List.mem_filterMap.1 h
    cases entry with
    | violation w => exact ⟨function, w, hentry, (Option.some.inj hd).symm⟩
    | _ => cases hd
  · rintro ⟨function, w, hw, rfl⟩
    exact List.mem_filterMap.2 ⟨_, hw, rfl⟩

/-! ## Functions -/

/-- The effects of the parameters that `k` gives an effect. -/
def FunDecl.effectsBy (g : FunDecl Span) (k : Param Span → Option Effect) : Table Effect :=
  .ofEntries (g.params.filterMap fun p => (k p).map fun e => (p.name, e))

/-- The declared effects of the parameters of function types. -/
def FunDecl.declaredEffects (isError : String → Bool) (g : FunDecl Span) : Table Effect :=
  g.effectsBy (Param.declared? isError)

namespace FunDecl

variable (isError : String → Bool) {g : FunDecl Span} {v : Violation}

/-- The meaning of a function's name. A forwarding function has the effect of its rule; if the rule
cannot be resolved, it counts as one that raises anything. -/
def binding (g : FunDecl Span) : Binding :=
  let params := g.params.map (Param.declared? isError)
  if g.forwards.isEmpty then
    { kind := .callable, effect := Clause.declared isError g.clause, params }
  else
    match Analysis.resolveFunction g (g.declaredEffects isError) with
    | .ok (f, effect) => { kind := .callable, effect, params, forwarding := some f }
    | .error _ => { kind := .callable, effect := .raisesAny, params }

/-- What is noted about the clause or the forwarding rule of a function. -/
def ruleEntries (g : FunDecl Span) : List LogEntry :=
  if g.forwards.isEmpty then (Clause.fault? isError g.clause).toList.map .violation
  else
    match Analysis.resolveFunction g (g.declaredEffects isError) with
    | .ok (f, effect) => f.joinEntries effect ++ [.resolved g.name f.mode effect]
    | .error v => [.violation v]

def entries (g : FunDecl Span) : List LogEntry :=
  g.params.flatMap (Param.entries isError) ++ g.ruleEntries isError

def aggregates (g : FunDecl Span) : List Aggregate := g.params.flatMap (Param.aggregates isError)

/-- The signature of a function, where the aggregates are numbered from `id` on. -/
def signature (id : Nat) (g : FunDecl Span) : Signature :=
  ⟨Param.bindings isError id g.params, g.binding isError⟩

/-- The signatures of functions, where the aggregates are numbered from `id` on. -/
def signatures : Nat → List (FunDecl Span) → List Signature
  | _, [] => []
  | id, g :: gs => g.signature isError id :: signatures (id + (g.aggregates isError).length) gs

theorem binding_kind (g : FunDecl Span) : (g.binding isError).kind = .callable := by
  unfold binding
  dsimp only
  split
  · rfl
  · split <;> rfl

theorem binding_params (g : FunDecl Span) :
    (g.binding isError).params = g.params.map (Param.declared? isError) := by
  unfold binding
  dsimp only
  split
  · rfl
  · split <;> rfl

theorem binding_aggregate (g : FunDecl Span) : (g.binding isError).aggregate = none := by
  unfold binding
  dsimp only
  split
  · rfl
  · split <;> rfl

theorem binding_effect_of_clause (h : g.forwards = []) :
    (g.binding isError).effect = Clause.declared isError g.clause := by
  rw [binding, if_pos (List.isEmpty_iff.2 h)]

theorem binding_effect_of_ok (h : g.forwards ≠ []) {f : Forwarding} {e : Effect}
    (hresolve : Analysis.resolveFunction g (g.declaredEffects isError) = .ok (f, e)) :
    (g.binding isError).effect = e := by
  rw [binding, if_neg (by rwa [List.isEmpty_iff]), hresolve]

theorem binding_effect_of_error (h : g.forwards ≠ [])
    (hresolve : Analysis.resolveFunction g (g.declaredEffects isError) = .error v) :
    (g.binding isError).effect = .raisesAny := by
  rw [binding, if_neg (by rwa [List.isEmpty_iff]), hresolve]

theorem mem_entries_of_clause (h : g.forwards = [])
    (hfault : Clause.fault? isError g.clause = some v) : .violation v ∈ g.entries isError := by
  refine List.mem_append_right _ ?_
  rw [ruleEntries, if_pos (List.isEmpty_iff.2 h), hfault]
  exact List.mem_singleton.2 rfl

theorem mem_entries_of_error (h : g.forwards ≠ [])
    (hresolve : Analysis.resolveFunction g (g.declaredEffects isError) = .error v) :
    .violation v ∈ g.entries isError := by
  refine List.mem_append_right _ ?_
  rw [ruleEntries, if_neg (by rwa [List.isEmpty_iff]), hresolve]
  exact List.mem_singleton.2 rfl

/-- A name that carries a rule has the effect that the rule is resolved to. -/
theorem resolveFunction_of_binding {f : Forwarding} (h : (g.binding isError).forwarding = some f) :
    Analysis.resolveFunction g (g.declaredEffects isError) =
      .ok (f, (g.binding isError).effect) := by
  unfold binding at h ⊢
  dsimp only at h ⊢
  split at h
  · cases h
  · rename_i hforwards
    rw [if_neg hforwards]
    split at h
    · rename_i f' e hresolve
      rw [hresolve]
      cases h
      rfl
    · cases h

end FunDecl

/-! ## Members -/

namespace Member

variable (isError : String → Bool)

def noted (m : Member Span) : Member Note :=
  { m.map Note.blank with
    loc := { span := m.loc, effect := some (Clause.declared isError m.clause) } }

def log (i : Interface Span) (m : Member Span) : List (Option String × LogEntry) :=
  (Clause.fault? isError m.clause).toList.map fun v =>
    (some (Analysis.memberName i.name m.name), .violation v)

end Member

def Interface.noted (isError : String → Bool) (i : Interface Span) : Interface Note :=
  ⟨.blank i.loc, i.name, i.members.map (Member.noted isError)⟩

/-! ## Programs -/

namespace Program

variable (isError : String → Bool)

/-- What is noted before the signatures of functions are read: the words that were skipped, and the
members of interfaces. -/
def openingLog (p : Program Span) (skipped : List Ambiguity) : List (Option String × LogEntry) :=
  (skipped.map fun a => (none, .violation a.violation)) ++
    p.interfaces.flatMap fun i => i.members.flatMap (Member.log isError i)

def signatureLog (gs : List (FunDecl Span)) : List (Option String × LogEntry) :=
  gs.flatMap fun g => (g.entries isError).map fun entry => (some g.name, entry)

/-- The names of a program with their meanings, in the order in which they are declared. -/
def declarations (p : Program Span) : List (String × Binding) :=
  ((p.errors ++ p.types).map fun d => (d.name, { kind := .typeName })) ++
    p.functions.map fun g => (g.name, g.binding isError)

/-- The state in which the first body of a program is analysed. -/
def seeded (p : Program Span) (skipped : List Ambiguity) : AnalysisState where
  env := Env.defineAll [[]] (p.declarations isError)
  aggregates := p.functions.flatMap (FunDecl.aggregates isError)
  log := p.openingLog isError skipped ++ signatureLog isError p.functions

end Program

namespace Analysis

variable {c : Context}

theorem filterMap_zip_eq {isError : String → Bool} {ps : List (Param Span)} {bs : List Binding}
    (h : bs.map expectedEffect = ps.map (Param.declared? isError)) :
    (((ps.map Param.name).zip bs).filterMap fun entry =>
        (expectedEffect entry.2).map fun e => (entry.1, e)) =
      ps.filterMap fun p => (p.declared? isError).map fun e => (p.name, e) := by
  induction ps generalizing bs with
  | nil => rfl
  | cons p ps ih =>
    cases bs with
    | nil => cases h
    | cons b bs =>
      obtain ⟨hb, hbs⟩ := List.cons.inj h
      rw [List.map_cons, List.zip_cons_cons, List.filterMap_cons, List.filterMap_cons, hb, ih hbs]

/-- The effects that a signature resolves its rule against are the declared ones. -/
theorem callableEffects_eq {isError : String → Bool} {g : FunDecl Span} {bs : List Binding}
    (h : bs.map expectedEffect = g.params.map (Param.declared? isError)) :
    callableEffects g bs = g.declaredEffects isError :=
  congrArg Table.ofEntries (filterMap_zip_eq h)

theorem noteSkipped_eq (as : List Ambiguity) (s : AnalysisState) :
    noteSkipped as c s =
      (.ok (), s.logged c.function (as.map fun a => .violation a.violation)) := by
  induction as generalizing s with
  | nil => exact AnalysisState.eq_logged_nil ..
  | cons a as ih =>
    have hnote : note (.violation a.violation) c s =
        (.ok (), s.logged c.function [.violation a.violation]) := rfl
    rw [noteSkipped, bind_eq_of_ok hnote, ih, AnalysisState.logged_logged]
    rfl

theorem declareTypes_eq (ds : List (NameDecl Span)) (s : AnalysisState) :
    declareTypes ds c s = (.ok (),
      { s with env := s.env.defineAll (ds.map fun d => (d.name, { kind := .typeName })) }) := by
  induction ds generalizing s with
  | nil => rfl
  | cons d ds ih =>
    exact (bind_eq_of_ok (show define d.name _ c s = (.ok (), _) from rfl)).trans (ih _)

section Seeding

variable (hc : c.failFast = false)

include hc

theorem signature_eq (g : FunDecl Span) (s : AnalysisState) :
    signature g c s = (.ok (g.signature c.isError s.aggregates.length),
      { s.logged c.function (g.entries c.isError) with
        aggregates := s.aggregates ++ g.aggregates c.isError }) := by
  rw [signature, bind_eq_of_ok (parameterBindings_eq hc g.params s)]
  dsimp only [FunDecl.signature, FunDecl.entries, FunDecl.binding, FunDecl.ruleEntries]
  rw [map_expectedEffect_bindings, callableEffects_eq (map_expectedEffect_bindings ..)]
  split
  · rw [bind_eq_of_ok (declaredEffect_eq hc g.clause _)]
    simp [AnalysisState.logged, FunDecl.aggregates, Pure.pure]
  · cases resolveFunction g (g.declaredEffects c.isError) with
    | ok resolved =>
      obtain ⟨f, e⟩ := resolved
      refine (bind_eq_of_ok (noteJoin_eq f e _)).trans ?_
      refine (bind_eq_of_ok (show note _ c _ = (.ok (), _) from rfl)).trans ?_
      simp [AnalysisState.logged, FunDecl.aggregates, Pure.pure]
    | error v =>
      refine (bind_eq_of_ok (show note _ c _ = (.ok (), _) from rfl)).trans ?_
      simp [AnalysisState.logged, FunDecl.aggregates, Pure.pure]

theorem signatures_eq (gs : List (FunDecl Span)) (s : AnalysisState) :
    signatures gs c s = (.ok (FunDecl.signatures c.isError s.aggregates.length gs),
      { s with
        env := s.env.defineAll (gs.map fun g => (g.name, g.binding c.isError))
        aggregates := s.aggregates ++ gs.flatMap (FunDecl.aggregates c.isError)
        log := s.log ++ Program.signatureLog c.isError gs }) := by
  induction gs generalizing s with
  | nil => simp [signatures, FunDecl.signatures, Program.signatureLog, Env.defineAll, Pure.pure]
  | cons g gs ih =>
    have hsig := signature_eq (c := { c with function := some g.name }) hc g s
    refine (bind_eq_of_ok (show within g.name _ c s = _ from hsig)).trans ?_
    refine (bind_eq_of_ok (show define g.name _ c _ = (.ok (), _) from rfl)).trans ?_
    rw [bind_eq_of_ok (ih _)]
    simp [AnalysisState.logged, FunDecl.signatures, FunDecl.signature, Program.signatureLog,
      Env.defineAll, Pure.pure]

theorem memberEffects_eq (i : Interface Span) (ms : List (Member Span)) (s : AnalysisState) :
    memberEffects i ms c s = (.ok (ms.map (Member.noted c.isError)),
      { s with log := s.log ++ ms.flatMap (Member.log c.isError i) }) := by
  induction ms generalizing s with
  | nil => simp [memberEffects, Pure.pure]
  | cons m ms ih =>
    have hm := declaredEffect_eq (c := { c with function := some (memberName i.name m.name) }) hc
      m.clause s
    refine (bind_eq_of_ok (show within _ _ c s = _ from hm)).trans ?_
    rw [bind_eq_of_ok (ih _)]
    simp [AnalysisState.logged, Member.log, Member.noted, Pure.pure, Function.comp_def]

theorem interfaceEffects_eq (is : List (Interface Span)) (s : AnalysisState) :
    interfaceEffects is c s = (.ok (is.map (Interface.noted c.isError)),
      { s with log := s.log ++
          is.flatMap fun i => i.members.flatMap (Member.log c.isError i) }) := by
  induction is generalizing s with
  | nil => simp [interfaceEffects, Pure.pure]
  | cons i is ih =>
    rw [interfaceEffects, bind_eq_of_ok (memberEffects_eq hc i i.members s), bind_eq_of_ok (ih _)]
    simp [Interface.noted, Pure.pure]

/-- **A check is the check of the bodies, in the state that the declarations determine.** -/
theorem checkProgram_eq (hfunction : c.function = none) (checkBodies : Bool) (p : Program Span)
    (skipped : List Ambiguity) :
    checkProgram checkBodies p skipped c {} =
      (do
        let functions ← checkFunctions checkBodies
          (p.functions.zip (FunDecl.signatures c.isError 0 p.functions))
        return { p.map Note.blank with
          functions, interfaces := p.interfaces.map (Interface.noted c.isError) } :
        Analysis (Program Note)) c (p.seeded c.isError skipped) := by
  rw [checkProgram, bind_eq_of_ok (noteSkipped_eq skipped _), bind_eq_of_ok (declareTypes_eq _ _),
    bind_eq_of_ok (interfaceEffects_eq hc _ _), bind_eq_of_ok (signatures_eq hc _ _)]
  simp [AnalysisState.logged, Program.seeded, Program.openingLog, Program.declarations,
    Env.defineAll, List.foldl_append, Function.comp_def, hfunction]

end Seeding

end Analysis

end RaisingEffects
