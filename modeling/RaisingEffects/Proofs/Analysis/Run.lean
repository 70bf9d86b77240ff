import RaisingEffects.Proofs.Effect.Order
import RaisingEffects.Verdict

/-!
# Runs of analyses

`Yields c s m Q` says that the analysis `m`, started in the state `s`, returns a value, and that
`Q` holds of the value and of the state it ends in. Its rules follow the way analyses are put
together, so a proof about an analysis is a chain of them.

Most of what the walk over a body does at a node only reads the state and writes to the log. This
module says what each such part returns and writes, for contexts that do not end the analysis at the
first violation.
-/

namespace RaisingEffects

variable {params : List (Option Effect)}

/-- The analysis goes on after a violation, and knows no closure from before. -/
structure Context.Collects (c : Context) : Prop where
  failFast : c.failFast = false
  known : ∀ span, c.known span = none

theorem Context.Collects.within {c : Context} (hc : c.Collects) (function : String) :
    Context.Collects { c with function := some function } :=
  ⟨hc.failFast, hc.known⟩

/-- The effect that a clause declares. A clause that names something that is no error declares that
anything is raised. -/
def Clause.declared {α : Type} (isError : String → Bool) (clause : Option (Clause α)) : Effect :=
  match Effect.ofClause isError (clause.map Clause.types) with
  | .ok e => e
  | .error _ => .raisesAny

/-- What is reported about a clause: the first type in it that is no error. -/
def Clause.fault? (isError : String → Bool) (clause : Option (Clause Span)) : Option Violation :=
  match Effect.ofClause isError (clause.map Clause.types) with
  | .ok _ => none
  | .error type => some { cause := .clauseNotError type, pos := clause.map fun c => c.loc.start }

/-- The effect that a parameter of a function type is declared with. -/
def Param.declared? {α : Type} (isError : String → Bool) (p : Param α) : Option Effect :=
  match p.type with
  | some (.fn _ _ clause _) => some (Clause.declared isError clause)
  | _ => none

/-- The meaning of a parameter. If it is a collection of functions, `id` numbers its aggregate. -/
def Param.binding (isError : String → Bool) (id : Nat) (p : Param Span) : Binding :=
  match p.type with
  | some (.fn _ _ clause _) => .callable (Clause.declared isError clause)
  | type =>
    match type.bind Analysis.elementClause? with
    | some clause =>
      { kind := .collection, effect := Clause.declared isError clause, aggregate := some id }
    | none =>
      match Analysis.errorType? isError type with
      | some name => .error (.raises name)
      | none => .value

/-- The aggregates of a parameter: one if it is a collection of functions. -/
def Param.aggregates (isError : String → Bool) (p : Param Span) : List Aggregate :=
  match p.type with
  | some (.fn ..) => []
  | type => (type.bind Analysis.elementClause?).toList.map fun clause =>
      { effect := some (Clause.declared isError clause), declared := true }

theorem Param.effect_of_mem_aggregates {isError : String → Bool} {p : Param Span} {a : Aggregate}
    (h : a ∈ p.aggregates isError) : ∃ e, a.effect = some e := by
  unfold Param.aggregates at h
  split at h
  · cases h
  · obtain ⟨clause, -, rfl⟩ := List.mem_map.1 h
    exact ⟨_, rfl⟩

/-- What is noted about a parameter: a fault of the clause of its function type, or of that of its
elements. -/
def Param.entries (isError : String → Bool) (p : Param Span) : List LogEntry :=
  let clause? :=
    match p.type with
    | some (.fn _ _ clause _) => some clause
    | type => type.bind Analysis.elementClause?
  (clause?.bind (Clause.fault? isError)).toList.map .violation

def Param.bindings (isError : String → Bool) : Nat → List (Param Span) → List Binding
  | _, [] => []
  | id, p :: ps =>
    p.binding isError id :: Param.bindings isError (id + (p.aggregates isError).length) ps

/-- The state after entries were added to the log on behalf of a function. -/
def AnalysisState.logged (s : AnalysisState) (function : Option String)
    (entries : List LogEntry) : AnalysisState :=
  { s with log := s.log ++ entries.map fun entry => (function, entry) }

/-- What is noted when a forwarding rule gets its effect. -/
def Forwarding.joinEntries (f : Forwarding) (e : Effect) : List LogEntry :=
  if f.target.isNone then [.forwards f.function e] else []

/-- The scopes after names got meanings in the innermost one. -/
def Env.defineAll (env : Env) (entries : List (String × Binding)) : Env :=
  entries.foldl (fun env entry => env.define entry.1 entry.2) env

theorem Env.defineAll_cons (scope : Table Binding) (outer : Env)
    (entries : List (String × Binding)) :
    Env.defineAll (scope :: outer) entries =
      entries.foldl (fun t e => t.set e.1 e.2) scope :: outer := by
  induction entries generalizing scope with
  | nil => rfl
  | cons entry entries ih => exact ih _

/-- The effect of calling the value of an expression that was analysed. -/
def Env.effectOf (env : Env) : Expr Note → Effect
  | .closure loc .. => loc.effect.getD .nothrow
  | .name _ id =>
    match env.lookup id with
    | some b => if b.kind = .callable then b.effect else .nothrow
    | none => .nothrow
  | _ => .nothrow

/-- What is reported about an argument that does not fit what its parameter expects. -/
def argumentFault? (callee : String) (pos : Pos) (position : Nat) :
    Option Effect → Option Effect → Option Violation
  | some expected, some actual =>
    if actual.fits expected then none
    else some (.at_ (.argumentMismatch callee position expected actual) pos)
  | _, _ => none

/-- What is reported about the arguments that do not fit the parameters from `position` on. -/
def argumentFaults (callee : String) (pos : Pos) (arguments : List Effect) :
    Nat → List (Option Effect) → List Violation
  | _, [] => []
  | position, expected :: rest =>
    (argumentFault? callee pos position expected arguments[position]?).toList ++
      argumentFaults callee pos arguments (position + 1) rest

theorem cause_of_mem_argumentFaults {callee : String} {pos : Pos} {arguments : List Effect}
    {position : Nat} {v : Violation} (h : v ∈ argumentFaults callee pos arguments position params) :
    ∃ i expected actual, v.cause = .argumentMismatch callee i expected actual ∧
      some expected ∈ params ∧ actual ∈ arguments := by
  induction params generalizing position with
  | nil => cases h
  | cons expected rest ih =>
    rcases List.mem_append.1 h with h | h
    · unfold argumentFault? at h
      split at h
      · rename_i hactual _
        split at h
        · cases h
        · rw [List.mem_singleton.1 h]
          exact ⟨_, _, _, rfl, List.mem_cons_self .., List.mem_of_getElem? hactual⟩
      · cases h
    · obtain ⟨i, expected, actual, hcause, hexpected, hactual⟩ := ih h
      exact ⟨i, expected, actual, hcause, List.mem_cons_of_mem _ hexpected, hactual⟩

/-- Where nothing is reported, the arguments fit. -/
theorem fits_of_argumentFaults {callee : String} {pos : Pos} {arguments : List Effect}
    {position : Nat} (h : argumentFaults callee pos arguments position params = []) {i : Nat}
    {d a : Effect} (hd : params[i]? = some (some d)) (ha : arguments[position + i]? = some a) :
    a.fits d = true := by
  induction params generalizing position i with
  | nil => cases hd
  | cons expected rest ih =>
    obtain ⟨hfirst, hrest⟩ := List.append_eq_nil_iff.1 h
    cases i with
    | zero =>
      obtain rfl : expected = some d := Option.some.inj hd
      rw [Nat.add_zero] at ha
      rw [ha] at hfirst
      dsimp only [argumentFault?] at hfirst
      split at hfirst
      · assumption
      · cases hfirst
    | succ i => exact ih hrest hd (by rwa [Nat.add_assoc, Nat.add_comm 1 i])

theorem AnalysisState.logged_nil (s : AnalysisState) (function : Option String) :
    s.logged function [] = s := by
  simp [AnalysisState.logged]

/-- Nothing is logged. -/
theorem AnalysisState.eq_logged_nil {α : Type} (a : α) (s : AnalysisState)
    (function : Option String) : (a, s) = (a, s.logged function []) :=
  congrArg (Prod.mk a) (s.logged_nil function).symm

theorem AnalysisState.logged_logged (s : AnalysisState) (function : Option String)
    (entries more : List LogEntry) :
    (s.logged function entries).logged function more = s.logged function (entries ++ more) := by
  simp [AnalysisState.logged]

namespace Analysis

variable {α β : Type} {c : Context} {s : AnalysisState} {m : Analysis α} {f : α → Analysis β}

/-- The analysis returns a value, and `Q` holds of it and of the final state. -/
def Yields (c : Context) (s : AnalysisState) (m : Analysis α) (Q : α → AnalysisState → Prop) :
    Prop :=
  ∃ a s', m c s = (.ok a, s') ∧ Q a s'

theorem bind_eq_of_ok {a : α} {s' : AnalysisState} (h : m c s = (.ok a, s')) :
    (m >>= f) c s = f a c s' := by
  simp only [Bind.bind, h]

theorem lookup_bind (name : String) (f : Option Binding → Analysis β) (s : AnalysisState) :
    (lookup name >>= f) c s = f (s.env.lookup name) c s := rfl

theorem context_bind (f : Context → Analysis β) (s : AnalysisState) :
    (context >>= f) c s = f c c s := rfl

namespace Yields

variable {Q P : α → AnalysisState → Prop}

theorem pure {a : α} (h : Q a s) : Yields c s (Pure.pure a) Q :=
  ⟨a, s, rfl, h⟩

theorem mono (h : Yields c s m P) (hPQ : ∀ a s', P a s' → Q a s') : Yields c s m Q := by
  obtain ⟨a, s', hm, hP⟩ := h
  exact ⟨a, s', hm, hPQ a s' hP⟩

theorem bind {Q : β → AnalysisState → Prop} (h : Yields c s m P)
    (hf : ∀ a s', P a s' → Yields c s' (f a) Q) : Yields c s (m >>= f) Q := by
  obtain ⟨a, s', hm, hP⟩ := h
  obtain ⟨b, s'', hb, hQ⟩ := hf a s' hP
  exact ⟨b, s'', by rw [bind_eq_of_ok hm, hb], hQ⟩

/-- A run has one outcome, so what several proofs say of it holds of the same value and state. -/
theorem all {ι : Type} {p : ι → Prop} {Q : ι → α → AnalysisState → Prop} (hP : Yields c s m P)
    (hQ : ∀ i, p i → Yields c s m (Q i)) :
    Yields c s m fun a s' => P a s' ∧ ∀ i, p i → Q i a s' := by
  obtain ⟨a, s', hm, ha⟩ := hP
  refine ⟨a, s', hm, ha, fun i hi => ?_⟩
  obtain ⟨b, s'', hm', hb⟩ := hQ i hi
  cases hm.symm.trans hm'
  exact hb

/-- What follows a part whose outcome is known. -/
theorem after {a : α} {s' : AnalysisState} {Q : β → AnalysisState → Prop}
    (h : m c s = (.ok a, s')) (hf : Yields c s' (f a) Q) : Yields c s (m >>= f) Q := by
  obtain ⟨b, s'', hb, hQ⟩ := hf
  exact ⟨b, s'', by rw [bind_eq_of_ok h, hb], hQ⟩

/-- What an analysis yields holds of the run that it is known to have. -/
theorem of_run {a : α} {s' : AnalysisState} (h : Yields c s m Q) (hrun : m c s = (.ok a, s')) :
    Q a s' := by
  obtain ⟨_, _, hrun', hQ⟩ := h
  cases hrun.symm.trans hrun'
  exact hQ

theorem within {function : String} (h : Yields { c with function := some function } s m Q) :
    Yields c s (within function m) Q :=
  h

theorem inScope
    (h : Yields c { s with env := [] :: s.env } m fun a s' =>
      Q a { s' with env := s'.env.drop 1 }) :
    Yields c s (inScope m) Q := by
  obtain ⟨a, s', hm, hQ⟩ := h
  refine ⟨a, _, ?_, hQ⟩
  rw [Analysis.inScope, hm]

end Yields

/-- A violation is noted if the analysis goes on after it. -/
theorem report_eq (hc : c.failFast = false) (v : Violation) (s : AnalysisState) :
    report v c s = (.ok (), { s with log := s.log ++ [(c.function, .violation v)] }) := by
  rw [report, context_bind, hc]
  rfl

/-! ## Values -/

theorem valueEffect_eq (e : Expr Note) (s : AnalysisState) :
    valueEffect e c s = (.ok (s.env.effectOf e), s) := by
  cases e with
  | name loc id =>
    rw [valueEffect, nameEffect, lookup_bind, Env.effectOf]
    cases s.env.lookup id <;> rfl
  | _ => rfl

theorem valueEffects_eq (es : List (Expr Note)) (s : AnalysisState) :
    valueEffects es c s = (.ok (es.map s.env.effectOf), s) := by
  induction es with
  | nil => rfl
  | cons e es ih =>
    rw [valueEffects, bind_eq_of_ok (valueEffect_eq e s), bind_eq_of_ok ih]
    rfl

/-! ## What happens at a node -/

section Parts

variable (hc : c.failFast = false)

include hc

theorem declaredEffect_eq (clause : Option (Clause Span)) (s : AnalysisState) :
    declaredEffect clause c s = (.ok (Clause.declared c.isError clause),
      s.logged c.function ((Clause.fault? c.isError clause).toList.map .violation)) := by
  rw [declaredEffect, context_bind]
  unfold Clause.declared Clause.fault?
  cases Effect.ofClause c.isError (clause.map Clause.types) with
  | ok e => exact AnalysisState.eq_logged_nil ..
  | error type => exact bind_eq_of_ok (report_eq hc _ s)

theorem checkArguments_eq (callee : String) (pos : Pos) (arguments : List Effect)
    (position : Nat) (params : List (Option Effect)) (s : AnalysisState) :
    checkArguments callee pos arguments position params c s =
      (.ok (!(argumentFaults callee pos arguments position params).isEmpty),
        s.logged c.function
          ((argumentFaults callee pos arguments position params).map .violation)) := by
  induction params generalizing position s with
  | nil => exact AnalysisState.eq_logged_nil ..
  | cons expected rest ih =>
    unfold checkArguments argumentFaults
    cases expected with
    | none => exact bind_eq_of_ok (ih (position + 1) s)
    | some expected =>
      cases arguments[position]? with
      | none => exact bind_eq_of_ok (ih (position + 1) s)
      | some actual =>
        dsimp only [argumentFault?]
        by_cases hfits : actual.fits expected = true
        · rw [if_pos hfits, if_pos hfits]
          exact bind_eq_of_ok (ih (position + 1) s)
        · rw [if_neg hfits, if_neg hfits]
          refine (bind_eq_of_ok (report_eq hc _ s)).trans ?_
          refine (bind_eq_of_ok (ih (position + 1) _)).trans ?_
          simp [AnalysisState.logged, Pure.pure]

omit hc in
theorem noteJoin_eq (f : Forwarding) (e : Effect) (s : AnalysisState) :
    noteJoin f e c s = (.ok (), s.logged c.function (f.joinEntries e)) := by
  unfold noteJoin Forwarding.joinEntries
  split
  · rfl
  · exact AnalysisState.eq_logged_nil ..

/-! ## What changes the scopes and the aggregates -/

omit hc in
theorem expectedEffect_binding (isError : String → Bool) (id : Nat) (p : Param Span) :
    expectedEffect (p.binding isError id) = p.declared? isError := by
  obtain ⟨name, _ | ⟨loc, type, args⟩ | ⟨loc, params, clause, result⟩⟩ := p
  · rfl
  · dsimp only [Param.binding, Param.declared?]
    split
    · rfl
    · split <;> rfl
  · rfl

omit hc in
theorem map_expectedEffect_bindings (isError : String → Bool) (id : Nat) (ps : List (Param Span)) :
    (Param.bindings isError id ps).map expectedEffect = ps.map (Param.declared? isError) := by
  induction ps generalizing id with
  | nil => rfl
  | cons p ps ih => rw [Param.bindings, List.map_cons, List.map_cons, expectedEffect_binding, ih]

theorem parameterBinding_eq (p : Param Span) (s : AnalysisState) :
    parameterBinding p c s = (.ok (p.binding c.isError s.aggregates.length),
      { s.logged c.function (p.entries c.isError) with
        aggregates := s.aggregates ++ p.aggregates c.isError }) := by
  have hquiet : { s.logged c.function [] with aggregates := s.aggregates ++ [] } = s := by
    rw [AnalysisState.logged_nil, List.append_nil]
  obtain ⟨name, _ | ⟨loc, type, args⟩ | ⟨loc, params, clause, result⟩⟩ := p
  · exact congrArg (Prod.mk _) hquiet.symm
  · dsimp only [parameterBinding, Param.binding, Param.entries, Param.aggregates]
    cases Option.bind (some (TypeExpr.named loc type args)) elementClause? with
    | some clause => exact bind_eq_of_ok (declaredEffect_eq hc clause s)
    | none =>
      refine (context_bind _ s).trans ?_
      cases errorType? c.isError (some (.named loc type args)) <;>
        exact congrArg (Prod.mk _) hquiet.symm
  · dsimp only [parameterBinding, Param.binding, Param.entries, Param.aggregates]
    rw [bind_eq_of_ok (declaredEffect_eq hc clause s), List.append_nil]
    rfl

theorem parameterBindings_eq (ps : List (Param Span)) (s : AnalysisState) :
    parameterBindings ps c s = (.ok (Param.bindings c.isError s.aggregates.length ps),
      { s.logged c.function (ps.flatMap (Param.entries c.isError)) with
        aggregates := s.aggregates ++ ps.flatMap (Param.aggregates c.isError) }) := by
  induction ps generalizing s with
  | nil => rw [List.flatMap_nil, List.flatMap_nil, AnalysisState.logged_nil, List.append_nil]; rfl
  | cons p ps ih =>
    rw [parameterBindings, bind_eq_of_ok (parameterBinding_eq hc p s), bind_eq_of_ok (ih _)]
    simp [Param.bindings, AnalysisState.logged, Pure.pure]

theorem parameterBindings_yields (ps : List (Param Span)) (s : AnalysisState) :
    Yields c s (parameterBindings ps) fun bs s' =>
      bs.map expectedEffect = ps.map (Param.declared? c.isError) ∧ ∃ new entries,
        s' = { s with aggregates := s.aggregates ++ new, log := s.log ++ entries } :=
  ⟨_, _, parameterBindings_eq hc ps s, map_expectedEffect_bindings .., _, _, rfl⟩

omit hc in
theorem defineAll_yields (entries : List (String × Binding)) (s : AnalysisState) :
    Yields c s (defineAll entries) fun _ s' => s' = { s with env := s.env.defineAll entries } := by
  induction entries generalizing s with
  | nil => exact .pure rfl
  | cons entry entries ih => exact .after rfl (ih _)

end Parts

end Analysis

end RaisingEffects
