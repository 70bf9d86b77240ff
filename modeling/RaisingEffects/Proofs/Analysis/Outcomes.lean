import RaisingEffects.Proofs.Analysis.Run
import RaisingEffects.Proofs.Effect.Monotone

/-!
# What an analysis comes to at a node

What the walk over a body does at a node reads the scopes and the aggregates, and comes to a value
and to entries for the log. Here each such outcome is said as a function of what is read:
`Env.called` for calls, `Env.raised` for raised values, `Env.bindingOf` for values that are bound.
An analysis that collects violations returns the value and logs the entries (`callEffect_eq` and its
relatives), so what holds of the walk at a node is shown of these functions.
-/

namespace RaisingEffects

open Analysis

variable {callee : String} {v : Violation}

/-! ## Outcomes -/

def functionClause? : Option (TypeExpr Span) → Option (Option (Clause Span))
  | some (.fn _ _ clause _) => some clause
  | _ => none

/-- The effect of a name that is declared with a function type. -/
def Context.functionEffect? (c : Context) (type : Option (TypeExpr Span)) : Option Effect :=
  (functionClause? type).map (Clause.declared c.isError)

/-- The effect of the elements of a name that is declared with a collection type. -/
def Context.elementEffect? (c : Context) (type : Option (TypeExpr Span)) : Option Effect :=
  (type.bind elementClause?).map (Clause.declared c.isError)

/-- What is reported about a clause, if there is a place for one. -/
def clauseEntries (isError : String → Bool) (clause? : Option (Option (Clause Span))) :
    List LogEntry := (clause?.bind (Clause.fault? isError)).toList.map .violation

/-- What a call by a forwarding rule comes to. -/
def Forwarding.called (f : Forwarding) (pos : Pos) (arguments : List Effect) :
    Effect × List LogEntry :=
  match f.callSite (forwardedEffects f arguments) with
  | .ok e => (e, if f.anyRaises (forwardedEffects f arguments) then f.joinEntries e else [])
  | .error v => (.raisesAny, [.violation (v.locate pos)])

/-- What a call of a name with the given meaning comes to. -/
def Binding.called (callee : String) (pos : Pos) (arguments : List Effect) (b : Binding) :
    Effect × List LogEntry :=
  let faults := argumentFaults callee pos arguments 0 b.params
  if b.kind = .callable then
    match b.forwarding with
    | none => (b.effect, faults.map .violation)
    | some f =>
      if faults.isEmpty then f.called pos arguments else (.raisesAny, faults.map .violation)
  else (.nothrow, [])

/-- What a call comes to. What has no meaning raises nothing. -/
def Env.called (env : Env) (callee : String) (pos : Pos) (args : List (Expr Note)) :
    Effect × List LogEntry :=
  ((env.lookup callee).map (Binding.called callee pos (args.map env.effectOf))).getD (.nothrow, [])

/-- What raising a value of the named type comes to. -/
def typeRaised (isError : String → Bool) (name : String) (pos : Pos) : Effect × List LogEntry :=
  if isError name then (.raises name, [])
  else (.raisesAny, [.violation (.at_ (.raisedNotError name) pos)])

/-- What raising a name with the given meaning comes to. -/
def Binding.raised (isError : String → Bool) (name : String) (pos : Pos) (b : Binding) :
    Effect × List LogEntry :=
  match b.kind with
  | .error => (b.effect, [])
  | .typeName => typeRaised isError name pos
  | _ => (.raisesAny, [])

/-- What raising a value comes to. -/
def Env.raised (env : Env) (isError : String → Bool) : Expr Note → Effect × List LogEntry
  | .call loc callee _ =>
    if (env.lookup callee).map Binding.kind = some .typeName then
      typeRaised isError callee loc.span.start
    else (.raisesAny, [])
  | .name loc id =>
    ((env.lookup id).map (Binding.raised isError id loc.span.start)).getD (.raisesAny, [])
  | _ => (.raisesAny, [])

def annotated (isError : String → Bool) (type : Option (TypeExpr Span)) : Binding :=
  match errorType? isError type with
  | some name => .error (.raises name)
  | none => .value

/-- The meaning of a name that is bound to a value. -/
def Env.bindingOf (env : Env) (isError : String → Bool) (type : Option (TypeExpr Span)) :
    Expr Note → Binding
  | .closure loc .. => .callable (loc.effect.getD .nothrow)
  | .call _ callee _ =>
    if isError callee then .error (.raises callee) else annotated isError type
  | .name _ id => (effectful? (env.lookup id)).getD (annotated isError type)
  | _ => annotated isError type

/-- What a closure comes to whose body has the given candidates. -/
def closureOutcome (c : Context) (span : Span) (candidates : List Effect) :
    Option (Clause Span) → Effect × List LogEntry
  | none => (.collapse c.policy candidates, [])
  | some clause =>
    let declared := Clause.declared c.isError (some clause)
    let body := Effect.joinAll candidates
    if body.fits declared then (declared, clauseEntries c.isError (some clause))
    else (.raisesAny, clauseEntries c.isError (some clause) ++
      [.violation (.at_ (.closureRaises declared body) span.start)])

/-- What binding a name to a value comes to, under the effect it is declared with: the effect to be
noted, the meaning of the name, and the entries. -/
def Env.bound (env : Env) (isError : String → Bool) (name : String) (pos : Pos)
    (type : Option (TypeExpr Span)) (value : Expr Note) :
    Option Effect → Option Effect × Binding × List LogEntry
  | none => (none, env.bindingOf isError type value, [])
  | some d =>
    if (env.effectOf value).fits d then (none, .callable d, [])
    else (some .raisesAny, .callable .raisesAny,
      [.violation (.at_ (.letMismatch name d (env.effectOf value)) pos)])

/-- What is reported about the elements of a collection. -/
def elementEntries (policy : Policy) (kind : CollectionKind) (declared : Option Effect)
    (elements : List (Expr Note)) (es : List Effect) : List LogEntry :=
  match Aggregate.ofElements policy declared kind.noun es with
  | .ok _ => []
  | .error m => [.violation { cause := .misfit m, pos := elementPos elements m.index }]

namespace Analysis

/-- What an assignment does: it changes nothing, or it is reported and the name raises anything from
then on. -/
inductive Assigns (c : Context) (target : String) (pos : Pos) (value : Expr Note)
    (s : AnalysisState) : Option Effect → AnalysisState → Prop
  | fits (h : ∀ b ∈ s.env.lookup target, b.kind = .callable →
      (s.env.effectOf value).fits b.effect = true) : Assigns c target pos value s none s
  | mismatch {b : Binding} (hb : s.env.lookup target = some b) (hkind : b.kind = .callable)
      (hfits : (s.env.effectOf value).fits b.effect = false) :
      Assigns c target pos value s (some .raisesAny)
        { s.logged c.function
            [.violation (.at_ (.assignMismatch target b.effect (s.env.effectOf value)) pos)] with
          env := s.env.rebind target (.callable .raisesAny) }

/-- What an insertion does: it concerns no aggregate, or the aggregate accepts the value, or it is
reported. -/
inductive Inserts (c : Context) (target : String) (pos : Pos) (value : Expr Note)
    (s : AnalysisState) : Option Effect → AnalysisState → Prop
  | nowhere (h : ((s.env.lookup target).bind Binding.aggregate).bind (s.aggregates[·]?) = none) :
      Inserts c target pos value s none s
  | accepted {id : Nat} {a a' : Aggregate}
      (hid : (s.env.lookup target).bind Binding.aggregate = some id)
      (ha : s.aggregates[id]? = some a) (hinsert : a.insert (s.env.effectOf value) none = .ok a') :
      Inserts c target pos value s (some (s.env.effectOf value))
        { s with aggregates := s.aggregates.set id a', env := s.env.follow id a'.current }
  | refused {id : Nat} {a : Aggregate} {m : Misfit}
      (hid : (s.env.lookup target).bind Binding.aggregate = some id)
      (ha : s.aggregates[id]? = some a)
      (hinsert : a.insert (s.env.effectOf value) none = .error m) :
      Inserts c target pos value s (some .raisesAny)
        (s.logged c.function [.violation (.at_ (.misfit m) pos)])

variable {c : Context} {s : AnalysisState} (hc : c.failFast = false)

include hc

/-! ## Analyses -/

theorem declaredFunction_eq (type : Option (TypeExpr Span)) (s : AnalysisState) :
    declaredFunction type c s = (.ok (c.functionEffect? type),
      s.logged c.function (clauseEntries c.isError (functionClause? type))) := by
  cases type with
  | none => exact AnalysisState.eq_logged_nil ..
  | some type =>
    cases type with
    | fn loc params clause result => exact bind_eq_of_ok (declaredEffect_eq hc clause s)
    | named loc name args => exact AnalysisState.eq_logged_nil ..

theorem declaredElement_eq (type : Option (TypeExpr Span)) (s : AnalysisState) :
    declaredElement type c s = (.ok (c.elementEffect? type),
      s.logged c.function (clauseEntries c.isError (type.bind elementClause?))) := by
  unfold declaredElement Context.elementEffect?
  cases type.bind elementClause? with
  | none => exact AnalysisState.eq_logged_nil ..
  | some clause => exact bind_eq_of_ok (declaredEffect_eq hc clause s)

theorem forwardedCall_eq (f : Forwarding) (pos : Pos) (arguments : List Effect)
    (s : AnalysisState) :
    forwardedCall f pos arguments c s =
      (.ok (f.called pos arguments).1, s.logged c.function (f.called pos arguments).2) := by
  unfold forwardedCall Forwarding.called
  dsimp only
  cases f.callSite (forwardedEffects f arguments) with
  | error v => exact bind_eq_of_ok (report_eq hc _ s)
  | ok e =>
    dsimp only
    split
    · exact bind_eq_of_ok (noteJoin_eq f e s)
    · exact AnalysisState.eq_logged_nil ..

theorem callEffect_eq (callee : String) (pos : Pos) (args : List (Expr Note))
    (s : AnalysisState) :
    callEffect callee pos args c s = (.ok (s.env.called callee pos args).1,
      s.logged c.function (s.env.called callee pos args).2) := by
  rw [callEffect, lookup_bind, Env.called]
  cases s.env.lookup callee with
  | none => exact AnalysisState.eq_logged_nil ..
  | some b =>
    dsimp only [Option.map_some, Option.getD_some, Binding.called]
    by_cases hkind : b.kind = .callable
    · rw [if_pos hkind, if_pos hkind, bind_eq_of_ok (valueEffects_eq args s),
        bind_eq_of_ok (checkArguments_eq hc _ _ _ _ _ s)]
      cases b.forwarding with
      | none => rfl
      | some f =>
        dsimp only
        cases argumentFaults callee pos (args.map s.env.effectOf) 0 b.params with
        | nil =>
          rw [List.map_nil, AnalysisState.logged_nil]
          exact forwardedCall_eq hc f pos _ s
        | cons v vs => rfl
    · rw [if_neg hkind, if_neg hkind]
      exact AnalysisState.eq_logged_nil ..

theorem raisedType_eq (name : String) (pos : Pos) (s : AnalysisState) :
    raisedType name pos c s = (.ok (typeRaised c.isError name pos).1,
      s.logged c.function (typeRaised c.isError name pos).2) := by
  rw [raisedType, context_bind, typeRaised]
  split
  · exact AnalysisState.eq_logged_nil ..
  · exact bind_eq_of_ok (report_eq hc _ s)

theorem raisedEffect_eq (e : Expr Note) (s : AnalysisState) :
    raisedEffect e c s = (.ok (s.env.raised c.isError e).1,
      s.logged c.function (s.env.raised c.isError e).2) := by
  cases e with
  | call loc callee args =>
    rw [raisedEffect, lookup_bind, Env.raised]
    cases s.env.lookup callee with
    | none => exact AnalysisState.eq_logged_nil ..
    | some b =>
      dsimp only [Option.map_some]
      by_cases hkind : b.kind = .typeName
      · rw [if_pos hkind, if_pos (congrArg some hkind)]
        exact raisedType_eq hc callee _ s
      · rw [if_neg hkind, if_neg fun h => hkind (Option.some.inj h)]
        exact AnalysisState.eq_logged_nil ..
  | name loc id =>
    rw [raisedEffect, lookup_bind, Env.raised]
    cases s.env.lookup id with
    | none => exact AnalysisState.eq_logged_nil ..
    | some b =>
      dsimp only [Option.map_some, Option.getD_some, Binding.raised]
      cases b.kind with
      | typeName => exact raisedType_eq hc id _ s
      | _ => exact AnalysisState.eq_logged_nil ..
  | _ => exact AnalysisState.eq_logged_nil ..

omit hc in
theorem bindingOfValue_eq (type : Option (TypeExpr Span)) (e : Expr Note) (s : AnalysisState) :
    bindingOfValue type e c s = (.ok (s.env.bindingOf c.isError type e), s) := by
  have hannotated : annotatedBinding type c s = (.ok (annotated c.isError type), s) := by
    rw [annotatedBinding, context_bind, annotated]
    cases errorType? c.isError type <;> rfl
  cases e with
  | closure => rfl
  | call loc callee args =>
    rw [bindingOfValue, context_bind, Env.bindingOf]
    split
    · rfl
    · exact hannotated
  | name loc id =>
    rw [bindingOfValue, lookup_bind, Env.bindingOf]
    cases effectful? (s.env.lookup id) with
    | none => exact hannotated
    | some b => rfl
  | _ => exact hannotated

theorem closureEffect_eq (span : Span) (clause : Option (Clause Span)) (candidates : List Effect)
    (s : AnalysisState) :
    closureEffect span clause candidates c s = (.ok (closureOutcome c span candidates clause).1,
      s.logged c.function (closureOutcome c span candidates clause).2) := by
  cases clause with
  | none => exact AnalysisState.eq_logged_nil ..
  | some clause =>
    rw [closureEffect, bind_eq_of_ok (declaredEffect_eq hc _ s), closureOutcome]
    split
    · rfl
    · rw [bind_eq_of_ok (report_eq hc _ _), ← AnalysisState.logged_logged]
      rfl

theorem aggregateOf_eq (kind : CollectionKind) (declared : Option Effect)
    (elements : List (Expr Note)) (s : AnalysisState) :
    aggregateOf kind declared elements c s =
      (.ok (.settled c.policy declared kind.noun (elements.map s.env.effectOf)),
        s.logged c.function
          (elementEntries c.policy kind declared elements (elements.map s.env.effectOf))) := by
  rw [aggregateOf, bind_eq_of_ok (valueEffects_eq elements s), context_bind, Aggregate.settled,
    elementEntries]
  cases Aggregate.ofElements c.policy declared kind.noun (elements.map s.env.effectOf) with
  | ok a => exact AnalysisState.eq_logged_nil ..
  | error m => exact bind_eq_of_ok (report_eq hc _ s)

/-! ## What changes the scopes and the aggregates -/

theorem bindValue_eq (name : String) (pos : Pos) (type : Option (TypeExpr Span))
    (declared : Option Effect) (value : Expr Note) (s : AnalysisState) :
    let outcome := s.env.bound c.isError name pos type value declared
    bindValue name pos type declared value c s = (.ok outcome.1,
      { s.logged c.function outcome.2.2 with env := s.env.define name outcome.2.1 }) := by
  have hquiet (b : Binding) : { s with env := s.env.define name b } =
      { s.logged c.function [] with env := s.env.define name b } := by
    rw [AnalysisState.logged_nil]
  cases declared with
  | none =>
    refine (bind_eq_of_ok (bindingOfValue_eq type value s)).trans ?_
    exact congrArg (Prod.mk _) (hquiet _)
  | some d =>
    refine (bind_eq_of_ok (valueEffect_eq value s)).trans ?_
    rw [Env.bound]
    split
    · exact congrArg (Prod.mk _) (hquiet _)
    · exact bind_eq_of_ok (report_eq hc _ s)

omit hc in
theorem exists_assigns (c : Context) (target : String) (pos : Pos) (value : Expr Note)
    (s : AnalysisState) : ∃ e s', Assigns c target pos value s e s' := by
  by_cases h : ∀ b ∈ s.env.lookup target, b.kind = .callable →
      (s.env.effectOf value).fits b.effect = true
  · exact ⟨_, _, .fits h⟩
  · push Not at h
    obtain ⟨b, hb, hkind, hfits⟩ := h
    exact ⟨_, _, .mismatch hb hkind (Bool.eq_false_iff.2 hfits)⟩

theorem Assigns.run {target : String} {pos : Pos} {value : Expr Note} {e : Option Effect}
    {s' : AnalysisState} (h : Assigns c target pos value s e s') :
    assignValue target pos value c s = (.ok e, s') := by
  rw [assignValue, lookup_bind]
  cases h with
  | fits h =>
    cases hb : s.env.lookup target with
    | none => rfl
    | some b =>
      dsimp only
      split
      · rename_i hkind
        rw [bind_eq_of_ok (valueEffect_eq value s), if_pos (h b hb hkind)]
        rfl
      · rfl
  | mismatch hb hkind hfits =>
    simp only [hb, hkind, if_true]
    rw [bind_eq_of_ok (valueEffect_eq value s), if_neg (by simp [hfits])]
    exact bind_eq_of_ok (report_eq hc _ s)

omit hc in
theorem exists_inserts (c : Context) (target : String) (pos : Pos) (value : Expr Note)
    (s : AnalysisState) : ∃ e s', Inserts c target pos value s e s' := by
  cases hid : (s.env.lookup target).bind Binding.aggregate with
  | none => exact ⟨_, _, .nowhere (by rw [hid, Option.bind_none])⟩
  | some id =>
    cases ha : s.aggregates[id]? with
    | none => exact ⟨_, _, .nowhere (by rw [hid, Option.bind_some, ha])⟩
    | some a =>
      cases hinsert : a.insert (s.env.effectOf value) none with
      | ok a' => exact ⟨_, _, .accepted hid ha hinsert⟩
      | error m => exact ⟨_, _, .refused hid ha hinsert⟩

theorem Inserts.run {target : String} {pos : Pos} {value : Expr Note} {e : Option Effect}
    {s' : AnalysisState} (h : Inserts c target pos value s e s') :
    insertValue target pos value c s = (.ok e, s') := by
  rw [insertValue, lookup_bind]
  have haggregate (id : Nat) : aggregate? id c s = (.ok s.aggregates[id]?, s) := rfl
  cases h with
  | nowhere h =>
    cases hid : (s.env.lookup target).bind Binding.aggregate with
    | none => rfl
    | some id =>
      rw [hid, Option.bind_some] at h
      dsimp only
      rw [bind_eq_of_ok (valueEffect_eq value s), bind_eq_of_ok (haggregate id), h]
      rfl
  | accepted hid ha hinsert =>
    rw [hid]
    dsimp only
    rw [bind_eq_of_ok (valueEffect_eq value s), bind_eq_of_ok (haggregate _), ha]
    dsimp only
    rw [hinsert]
    rfl
  | refused hid ha hinsert =>
    rw [hid]
    dsimp only
    rw [bind_eq_of_ok (valueEffect_eq value s), bind_eq_of_ok (haggregate _), ha]
    dsimp only
    rw [hinsert]
    exact bind_eq_of_ok (report_eq hc _ s)

end Analysis

/-! ## What is known of the outcomes -/

theorem Env.called_of_some {env : Env} {b : Binding} (hb : env.lookup callee = some b) (pos : Pos)
    (args : List (Expr Note)) :
    env.called callee pos args = b.called callee pos (args.map env.effectOf) := by
  rw [Env.called, hb]
  rfl

/-- What is no callable raises nothing when it is called. -/
theorem Env.called_of_other {env : Env} (h : ∀ b ∈ env.lookup callee, b.kind ≠ .callable)
    (pos : Pos) (args : List (Expr Note)) : env.called callee pos args = (.nothrow, []) := by
  rw [Env.called]
  cases hb : env.lookup callee with
  | none => rfl
  | some b => exact if_neg (h b hb)

/-- A call of a callable without a rule has its effect. -/
theorem Binding.called_direct {b : Binding} (hkind : b.kind = .callable)
    (hrule : b.forwarding = none) (callee : String) (pos : Pos) (arguments : List Effect) :
    b.called callee pos arguments =
      (b.effect, (argumentFaults callee pos arguments 0 b.params).map .violation) := by
  rw [Binding.called, if_pos hkind, hrule]

/-- A call of a callable with a rule has the effect of the rule, unless an argument does not fit. -/
theorem Binding.called_rule {b : Binding} {f : Forwarding} (hkind : b.kind = .callable)
    (hrule : b.forwarding = some f) (callee : String) (pos : Pos) (arguments : List Effect) :
    b.called callee pos arguments =
      if (argumentFaults callee pos arguments 0 b.params).isEmpty then f.called pos arguments
      else (.raisesAny, (argumentFaults callee pos arguments 0 b.params).map .violation) := by
  rw [Binding.called, if_pos hkind, hrule]

theorem Clause.cause_of_fault? {isError : String → Bool} {clause : Option (Clause Span)}
    {w : Violation} (h : Clause.fault? isError clause = some w) :
    ∃ type, w.cause = .clauseNotError type := by
  unfold Clause.fault? at h
  split at h
  · cases h
  · cases h
    exact ⟨_, rfl⟩

theorem cause_of_mem_clauseEntries {isError : String → Bool}
    {clause? : Option (Option (Clause Span))} (h : .violation v ∈ clauseEntries isError clause?) :
    ∃ type, v.cause = .clauseNotError type := by
  obtain ⟨w, hw, heq⟩ := List.mem_map.1 h
  cases heq
  obtain ⟨clause, -, hfault⟩ := Option.bind_eq_some_iff.1 (Option.mem_toList.1 hw)
  exact Clause.cause_of_fault? hfault

/-- What a call by a rule reports is a fault of the rule. -/
theorem Forwarding.of_mem_called {f : Forwarding} {pos : Pos} {arguments : List Effect}
    (h : .violation v ∈ (f.called pos arguments).2) :
    ∃ w, f.callSite (forwardedEffects f arguments) = .error w ∧ v = w.locate pos := by
  unfold called at h
  split at h
  · unfold joinEntries at h
    split at h
    · split at h <;> simp at h
    · cases h
  · rename_i w hw
    cases List.mem_singleton.1 h
    exact ⟨w, hw, rfl⟩

/-- What a call reports is an argument that does not fit, or a fault of the rule of the callee. -/
theorem Env.of_mem_called {env : Env} {pos : Pos} {args : List (Expr Note)}
    (h : .violation v ∈ (env.called callee pos args).2) :
    (∃ i expected actual, v.cause = .argumentMismatch callee i expected actual) ∨
      ∃ (f : Forwarding) (effects : Table Effect) (w : Violation),
        f.callSite effects = .error w ∧ v = w.locate pos := by
  have hargument {params : List (Option Effect)} (h : .violation v ∈
      (argumentFaults callee pos (args.map env.effectOf) 0 params).map LogEntry.violation) :
      ∃ i expected actual, v.cause = .argumentMismatch callee i expected actual := by
    obtain ⟨w, hw, heq⟩ := List.mem_map.1 h
    cases heq
    obtain ⟨i, expected, actual, hcause, -⟩ := cause_of_mem_argumentFaults hw
    exact ⟨i, expected, actual, hcause⟩
  rw [Env.called] at h
  cases hb : env.lookup callee with
  | none =>
    rw [hb] at h
    cases h
  | some b =>
    rw [hb, Option.map_some, Option.getD_some] at h
    by_cases hkind : b.kind = .callable
    · cases hrule : b.forwarding with
      | none =>
        rw [Binding.called_direct hkind hrule] at h
        exact .inl (hargument h)
      | some f =>
        rw [Binding.called_rule hkind hrule] at h
        split at h
        · obtain ⟨w, hw, rfl⟩ := Forwarding.of_mem_called h
          exact .inr ⟨f, _, w, hw, rfl⟩
        · exact .inl (hargument h)
    · rw [Binding.called, if_neg hkind] at h
      cases h

/-- What is reported where a value is raised is that its type is no error. -/
theorem Env.raised_entries (env : Env) (isError : String → Bool) (e : Expr Note) :
    (env.raised isError e).2 = [] ∨ ∃ name loc, e.loc? = some loc ∧
      (env.raised isError e).2 = [.violation (.at_ (.raisedNotError name) loc.span.start)] := by
  have htype (name : String) (pos : Pos) : (typeRaised isError name pos).2 = [] ∨
      (typeRaised isError name pos).2 = [.violation (.at_ (.raisedNotError name) pos)] := by
    unfold typeRaised
    split
    · exact .inl rfl
    · exact .inr rfl
  cases e with
  | call loc callee args =>
    rw [Env.raised]
    split
    · exact (htype callee _).imp_right fun h => ⟨callee, loc, rfl, h⟩
    · exact .inl rfl
  | name loc id =>
    rw [Env.raised]
    cases env.lookup id with
    | none => exact .inl rfl
    | some b =>
      rw [Option.map_some, Option.getD_some, Binding.raised]
      split
      · exact .inl rfl
      · exact (htype id _).imp_right fun h => ⟨id, loc, rfl, h⟩
      · exact .inl rfl
  | _ => exact .inl rfl

/-- The effect of a closure is at least what its body raises. -/
theorem closureOutcome_fits (c : Context) (span : Span) (candidates : List Effect)
    (clause : Option (Clause Span)) :
    (Effect.joinAll candidates).fits (closureOutcome c span candidates clause).1 = true := by
  cases clause with
  | none => exact Effect.joinAll_fits_collapse c.policy candidates
  | some clause =>
    rw [closureOutcome]
    split
    · assumption
    · exact Effect.fits_raisesAny _

end RaisingEffects
