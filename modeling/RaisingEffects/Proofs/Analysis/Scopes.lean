import RaisingEffects.Proofs.Analysis.Changes

/-!
# The outermost scope

While a body is analysed there are scopes of its own inside the one with the declarations. The walk
changes the outermost scope in one way only: an assignment to a callable that is not bound inside,
by a value that does not fit, which is reported (`Change.scopes`).
-/

namespace RaisingEffects

/-- The name that was assigned a value that does not fit. -/
def Cause.reassigned? : Cause → Option String
  | .assignMismatch target _ _ => some target
  | _ => none

/-- An assignment to one of the names was reported for the function. -/
def Reassigned (names : List String) (log : List (Option String × LogEntry))
    (function : Option String) : Prop :=
  ∃ w, (function, .violation w) ∈ log ∧ ∃ name ∈ names, w.cause.reassigned? = some name

theorem Reassigned.mono {names : List String} {log log' : List (Option String × LogEntry)}
    {function : Option String} (h : Reassigned names log function) (hlog : log ⊆ log') :
    Reassigned names log' function := by
  obtain ⟨w, hw, hname⟩ := h
  exact ⟨w, hlog hw, hname⟩

/-! ## Scopes inside another -/

/-- A scope with declarations: what is declared is no collection, and the callables have the given
names. -/
structure Table.Declares (scope : Table Binding) (names : List String) : Prop where
  plain : ∀ entry ∈ scope, entry.2.aggregate = none
  callables : ∀ name b, scope.get? name = some b → b.kind = .callable → name ∈ names

/-- The scopes are the outermost one with `d` scopes inside. -/
def Env.Inside (outer : Table Binding) (d : Nat) (env : Env) : Prop :=
  ∃ locals : Env, locals.length = d ∧ env = locals ++ [outer]

namespace Env.Inside

variable {outer : Table Binding} {d : Nat} {env : Env}

theorem push (h : env.Inside outer d) : Env.Inside outer (d + 1) ([] :: env) := by
  obtain ⟨locals, rfl, rfl⟩ := h
  exact ⟨[] :: locals, rfl, rfl⟩

theorem pop (h : env.Inside outer (d + 1)) : Env.Inside outer d (env.drop 1) := by
  obtain ⟨_ | ⟨scope, locals⟩, hlength, rfl⟩ := h
  · cases hlength
  · exact ⟨locals, Nat.succ.inj hlength, rfl⟩

theorem define (h : env.Inside outer (d + 1)) (name : String) (b : Binding) :
    (env.define name b).Inside outer (d + 1) := by
  obtain ⟨_ | ⟨scope, locals⟩, hlength, rfl⟩ := h
  · cases hlength
  · exact ⟨scope.set name b :: locals, hlength, rfl⟩

theorem defineAll (h : env.Inside outer (d + 1)) (entries : List (String × Binding)) :
    (env.defineAll entries).Inside outer (d + 1) := by
  induction entries generalizing env with
  | nil => exact h
  | cons entry entries ih => exact ih (h.define entry.1 entry.2)

theorem follow (h : env.Inside outer d) (houter : ∀ entry ∈ outer, entry.2.aggregate = none)
    (id : Nat) (e : Effect) : (env.follow id e).Inside outer d := by
  obtain ⟨locals, rfl, rfl⟩ := h
  have hkept : Env.follow [outer] id e = [outer] := by
    refine congrArg (· :: []) (.trans (List.map_congr_left fun entry hentry => ?_) outer.map_id)
    dsimp only
    rw [houter entry hentry, if_neg (by simp)]
    rfl
  refine ⟨Env.follow locals id e, List.length_map .., ?_⟩
  exact List.map_append.trans (congrArg (Env.follow locals id e ++ ·) hkept)

/-- Rebinding a name changes the scopes inside, if they bind it, and else the outermost one. -/
theorem rebind (h : env.Inside outer d) (name : String) (b : Binding) :
    (env.rebind name b).Inside outer d ∨ env.lookup name = outer.get? name := by
  obtain ⟨locals, rfl, rfl⟩ := h
  induction locals with
  | nil => exact .inr (by rw [List.nil_append, Env.lookup]; simp)
  | cons scope locals ih =>
    rw [List.cons_append, Env.rebind]
    cases hscope : scope.get? name with
    | some d => exact .inl ⟨scope.set name b :: locals, rfl, rfl⟩
    | none =>
      rcases ih with ⟨locals', hlength, heq⟩ | hlookup
      · exact .inl ⟨scope :: locals', congrArg (· + 1) hlength, congrArg (scope :: ·) heq⟩
      · refine .inr ?_
        unfold Env.lookup at hlookup ⊢
        rw [List.findSome?_cons, hscope, hlookup]

end Env.Inside

/-! ## Runs -/

namespace Analysis

/-- The outermost scope is as it was, or an assignment to one of the names was reported: every
change keeps this. -/
theorem Change.scopes {policy : Policy} {outer : Table Binding} {names : List String}
    (houter : outer.Declares names) {d d' : Nat} {s s' : AnalysisState}
    (h : Change policy [] d s d' s')
    (hs : (∃ f, Reassigned names s.log f) ∨ s.env.Inside outer d) :
    (∃ f, Reassigned names s'.log f) ∨ s'.env.Inside outer d' := by
  cases h with
  | log entries => exact hs.imp_left fun ⟨f, h⟩ => ⟨f, h.mono (List.subset_append_left ..)⟩
  | candidates => exact hs
  | aggregate => exact hs
  | enter => exact hs.imp_right fun h => h.push
  | leave => exact hs.imp_right fun h => h.pop
  | define hname hb =>
    obtain ⟨k, rfl⟩ := Nat.exists_eq_succ_of_ne_zero fun hd => by simpa using hname hd
    exact hs.imp_right fun h => h.define _ _
  | @assign _ _ target b e hb hkind he function pos =>
    rcases hs with ⟨f, hs⟩ | hs
    · exact .inl ⟨f, hs.mono (List.subset_append_left ..)⟩
    rcases hs.rebind target (.callable .raisesAny) with henv | hlookup
    · exact .inr henv
    · -- no scope inside binds the name, so it is that of a callable in the outermost scope
      refine .inl ⟨function, _, List.mem_append_right _ (List.mem_singleton.2 rfl), target, ?_, rfl⟩
      exact houter.callables target b (hlookup ▸ hb) hkind
  | insert => exact hs.imp_right fun h => h.follow houter.plain _ _

end Analysis

end RaisingEffects
