import RaisingEffects.Proofs.Analysis.Related
import RaisingEffects.Proofs.Forwarding.Narrowing

/-!
# States that raise no more

The same analysis is run from two states, and the callables of the first raise no more than those of
the second (`AnalysisState.Below`). What happens at a node of a body leaves such states again, with
three exceptions.

* A collection whose elements no longer fit the first one counts as raising anything
  (`Aggregate.settled_below_or`).
* An assignment to a name that now raises less may be refused, and then the name raises anything
  (`AnalysisState.Below.assign`).
* A name under which nothing is caught any more raises anything (`caughtBinding_below`).
-/

namespace RaisingEffects

open Analysis

/-! ## Lesser meanings -/

/-- The first meaning raises no more than the second. Only collections have an aggregate, and the
effect that is kept with them does not matter, since that of the aggregate is used. A name that was
assigned what does not fit raises anything, and has lost its parameters and its rule. -/
structure Binding.Below (b b' : Binding) : Prop where
  kind : b.kind = b'.kind
  aggregate : b.aggregate = b'.aggregate
  collection : b.aggregate.isSome = true → b.kind = .collection
  effect : b.kind ≠ .collection → b.effect.Below b'.effect
  rule : b.params = b'.params ∧ b.forwarding = b'.forwarding ∨ b' = .callable .raisesAny

namespace Binding.Below

variable {b b' : Binding} {d e : Effect}

theorem refl (h : b.aggregate.isSome = true → b.kind = .collection) : b.Below b :=
  ⟨rfl, rfl, h, fun _ => Effect.fits_refl _, .inl ⟨rfl, rfl⟩⟩

theorem callable (h : d.Below e) : (Binding.callable d).Below (.callable e) :=
  ⟨rfl, rfl, by simp [Binding.callable], fun _ => h, .inl ⟨rfl, rfl⟩⟩

theorem error (h : d.Below e) : (Binding.error d).Below (.error e) :=
  ⟨rfl, rfl, by simp [Binding.error], fun _ => h, .inl ⟨rfl, rfl⟩⟩

theorem ofCollection {id id' : Nat} (h : id = id') (d e : Effect) :
    Binding.Below { kind := .collection, effect := d, aggregate := some id }
      { kind := .collection, effect := e, aggregate := some id' } :=
  ⟨rfl, congrArg some h, fun _ => rfl, fun h => absurd rfl h, .inl ⟨rfl, rfl⟩⟩

theorem relates : Relates Binding.Below Effect.Below where
  refl := Effect.fits_refl
  plain := fun _ h => refl (by simp [h])
  callable := fun _ _ => callable
  kind := fun _ _ h => h.kind
  effect := fun _ _ h hkind => h.effect (h.kind ▸ hkind)

/-- A callable raises no more than what raises anything. -/
theorem raisesAny (h : b.Below b') (hkind : b.kind = .callable) :
    b.Below (.callable .raisesAny) where
  kind := hkind
  aggregate := by
    cases ha : b.aggregate with
    | none => rfl
    | some id =>
      have hcollection := h.collection (by simp [ha])
      rw [hkind] at hcollection
      cases hcollection
  collection := h.collection
  effect := fun _ => Effect.fits_raisesAny _
  rule := .inr rfl

theorem of_collection (h : b.Below b') (hsome : b.aggregate ≠ none ∨ b'.aggregate ≠ none)
    (d e : Effect) : Below { b with effect := d } { b' with effect := e } := by
  rw [h.aggregate, or_self] at hsome
  have hcollection := h.collection (Option.isSome_iff_ne_none.2 (h.aggregate ▸ hsome))
  refine ⟨h.kind, h.aggregate, h.collection, fun hne => absurd hcollection hne, ?_⟩
  rcases h.rule with hrule | rfl
  · exact .inl hrule
  · exact absurd rfl hsome

end Binding.Below

abbrev Expr.Below : Expr Note → Expr Note → Prop := Expr.Rel Effect.Below

/-! ## Lesser outcomes -/

theorem Param.binding_below (isError : String → Bool) (id : Nat) (p : Param Span) :
    (p.binding isError id).Below (p.binding isError id) := by
  refine .refl fun h => ?_
  unfold Param.binding at h ⊢
  split at h
  · cases h
  · split at h
    · rfl
    · split at h <;> cases h

theorem Forwarding.called_below (f : Forwarding) (pos : Pos) {ds es : List Effect}
    (h : List.Forall₂ Effect.Below ds es) : (f.called pos ds).1.Below (f.called pos es).1 := by
  have heffects (p : ForwardedParam) (_ : p ∈ f.params) :=
    effectOf_rel Effect.fits_refl (forwardedEffects_rel Effect.fits_refl f h) p
  cases he : f.callSite (forwardedEffects f es) with
  | error v =>
    rw [called.eq_def _ _ es, he]
    exact Effect.fits_raisesAny _
  | ok e =>
    obtain ⟨d, hd, hde⟩ := callSite_below heffects he
    rwa [called, called, hd, he]

/-- **A call of a lesser callee with lesser arguments has a lesser effect.** -/
theorem Env.called_below {env env' : Env} (h : Env.Rel Binding.Below env env') (callee : String)
    (pos : Pos) {args args' : List (Expr Note)} (hargs : List.Forall₂ Expr.Below args args') :
    (env.called callee pos args).1.Below (env'.called callee pos args').1 := by
  have heffects := Binding.Below.relates.map_effectOf h hargs
  obtain ⟨hb, hb'⟩ | ⟨b, b', hb, hb', hbb⟩ := eq_none_or_some_of_rel (h.lookup callee)
  · rw [called_of_other (by simp [hb]), called_of_other (by simp [hb'])]
    exact Effect.fits_refl _
  rw [called_of_some hb, called_of_some hb']
  by_cases hkind : b.kind = .callable
  · have hkind' : b'.kind = .callable := hbb.kind ▸ hkind
    rcases hbb.rule with ⟨hparams, hrule⟩ | rfl
    · cases hf : b.forwarding with
      | none =>
        rw [Binding.called_direct hkind hf, Binding.called_direct hkind' (hrule ▸ hf)]
        exact hbb.effect (by simp [hkind])
      | some f =>
        rw [Binding.called_rule hkind hf, Binding.called_rule hkind' (hrule ▸ hf), hparams]
        cases hfaults : argumentFaults callee pos (args'.map env'.effectOf) 0 b'.params with
        | nil =>
          rw [argumentFaults_eq_nil heffects hfaults]
          exact f.called_below pos heffects
        | cons v vs => exact Effect.fits_raisesAny _
    · -- a name that raises anything: what the first run makes of the call does not matter
      rw [Binding.called_direct hkind' rfl]
      exact Effect.fits_raisesAny _
  · rw [Binding.called, Binding.called, if_neg hkind, if_neg (hbb.kind ▸ hkind)]
    exact Effect.fits_refl _

theorem closureOutcome_below (c : Context) (span : Span) (clause : Option (Clause Span))
    {ds es : List Effect} (h : (Effect.joinAll ds).Below (Effect.joinAll es)) :
    (closureOutcome c span ds clause).1.Below (closureOutcome c span es clause).1 := by
  cases clause with
  | none => exact Effect.collapse_below c.policy h
  | some clause =>
    rw [closureOutcome, closureOutcome]
    by_cases hfits : (Effect.joinAll es).fits (Clause.declared c.isError (some clause)) = true
    · rw [if_pos hfits, if_pos (Effect.fits_trans h hfits)]
      exact Effect.fits_refl _
    · rw [if_neg hfits]
      exact Effect.fits_raisesAny _

/-- A name with a declared effect has that effect, or it raises anything. -/
theorem Env.bound_below {env env' : Env} (h : Env.Rel Binding.Below env env')
    (isError : String → Bool) (name : String) (pos : Pos) (type : Option (TypeExpr Span))
    (declared : Option Effect) {x y : Expr Note} (hxy : x.Below y) :
    (env.bound isError name pos type x declared).2.1.Below
      (env'.bound isError name pos type y declared).2.1 := by
  cases declared with
  | none => exact Binding.Below.relates.bindingOf h isError type hxy
  | some d =>
    have hvalue := Binding.Below.relates.effectOf h hxy
    rw [Env.bound, Env.bound]
    by_cases hfits : (env'.effectOf y).fits d = true
    · rw [if_pos hfits, if_pos (Effect.fits_trans hvalue hfits)]
      exact .callable (Effect.fits_refl d)
    · rw [if_neg hfits]
      split
      · exact .callable (Effect.fits_raisesAny d)
      · exact .callable (Effect.fits_refl _)

/-- What a handler catches under a name raises no more, unless nothing is caught in the first run
only: then the name raises anything. -/
theorem caughtBinding_below {d e : Effect} (h : d.Below e)
    (hagree : (caughtBinding d).effect = .raisesAny → (caughtBinding e).effect = .raisesAny) :
    (caughtBinding d).Below (caughtBinding e) := by
  refine .error ?_
  cases hd : d.isRaising with
  | true =>
    rw [if_pos rfl, if_pos (Effect.isRaising_of_fits hd h)]
    exact h
  | false =>
    have hany : (caughtBinding e).effect = .raisesAny := hagree (if_neg (by simp [hd]))
    rw [show (if e.isRaising = true then e else .raisesAny) = Effect.raisesAny from hany]
    exact Effect.fits_raisesAny _

/-! ## Lesser states -/

/-- The first state raises no more than the second. -/
structure AnalysisState.Below (s t : AnalysisState) : Prop where
  env : Env.Rel Binding.Below s.env t.env
  aggregates : List.Forall₂ Aggregate.Below s.aggregates t.aggregates
  candidates : (Effect.joinAll s.candidates).Below (Effect.joinAll t.candidates)

/-- The aggregates after a value was inserted into the collection of a name. -/
def AnalysisState.insertedInto (s : AnalysisState) (target : String) (e : Effect) :
    List Aggregate :=
  match (s.env.lookup target).bind Binding.aggregate with
  | none => s.aggregates
  | some id =>
    match s.aggregates[id]? with
    | none => s.aggregates
    | some a => s.aggregates.set id (a.inserted e)

/-- An insertion changes the aggregates, and the effects that are kept with collections. -/
theorem Analysis.Inserts.changes {c : Context} {target : String} {pos : Pos} {x : Expr Note}
    {s s' : AnalysisState} {o : Option Effect} (h : Inserts c target pos x s o s') :
    s'.aggregates = s.insertedInto target (s.env.effectOf x) ∧ s'.candidates = s.candidates ∧
      (s'.env = s.env ∨ ∃ id e, s'.env = s.env.follow id e) := by
  cases h with
  | nowhere hnone =>
    refine ⟨?_, rfl, .inl rfl⟩
    unfold AnalysisState.insertedInto
    cases hid : (s.env.lookup target).bind Binding.aggregate with
    | none => rfl
    | some id =>
      rw [hid, Option.bind_some] at hnone
      dsimp only
      rw [hnone]
  | @accepted id _ a' hid ha hinsert =>
    refine ⟨?_, rfl, .inr ⟨id, a'.current, rfl⟩⟩
    simp only [AnalysisState.insertedInto, hid, ha, Aggregate.inserted, hinsert]
  | refused hid ha hinsert =>
    refine ⟨?_, rfl, .inl rfl⟩
    simp only [AnalysisState.insertedInto, hid, ha, Aggregate.inserted, hinsert]
    obtain ⟨hlt, rfl⟩ := List.getElem?_eq_some_iff.1 ha
    exact (List.set_getElem_self hlt).symm

namespace AnalysisState.Below

variable {s t : AnalysisState} {b b' : Binding} {d e : Effect} (h : s.Below t)

include h

/-- The logs do not matter. -/
theorem log (l l' : List (Option String × LogEntry)) :
    AnalysisState.Below { s with log := l } { t with log := l' } := { h with }

theorem push : AnalysisState.Below { s with env := [] :: s.env } { t with env := [] :: t.env } :=
  { h with env := h.env.push }

theorem pop : AnalysisState.Below { s with env := s.env.drop 1 } { t with env := t.env.drop 1 } :=
  { h with env := h.env.pop }

theorem define (name : String) (hb : b.Below b') :
    AnalysisState.Below { s with env := s.env.define name b }
      { t with env := t.env.define name b' } := { h with env := h.env.define name hb }

theorem newAggregate {a a' : Aggregate} (ha : a.Below a') :
    AnalysisState.Below { s with aggregates := s.aggregates ++ [a] }
      { t with aggregates := t.aggregates ++ [a'] } :=
  { h with aggregates := List.rel_append h.aggregates (.cons ha .nil) }

theorem contribute (hde : d.Below e) :
    AnalysisState.Below { s with candidates := s.candidates ++ [d] }
      { t with candidates := t.candidates ++ [e] } where
  env := h.env
  aggregates := h.aggregates
  candidates := by
    rw [Effect.joinAll_append, Effect.joinAll_append]
    exact Effect.join_below h.candidates (Effect.joinAll_below (.cons hde .nil))

/-- What is called becomes a candidate if it raises. -/
theorem heard (hde : d.Below e) :
    AnalysisState.Below { s with candidates := s.candidates ++ [d].filter Effect.isRaising }
      { t with candidates := t.candidates ++ [e].filter Effect.isRaising } where
  env := h.env
  aggregates := h.aggregates
  candidates := by
    have hfilter (f : Effect) : Effect.joinAll ([f].filter Effect.isRaising) = f := by
      cases f <;> rfl
    rw [Effect.joinAll_append, Effect.joinAll_append, hfilter, hfilter]
    exact Effect.join_below h.candidates hde

/-- Parameters mean the same in both states. -/
theorem inClosure (c : Context) (ps : List (Param Span)) :
    (s.inClosure c ps).Below (t.inClosure c ps) where
  env := h.env.inClosure h.aggregates.length_eq (Param.binding_below c.isError) ps
  aggregates := List.rel_append h.aggregates (List.forall₂_same.2 fun a _ => .refl a)
  candidates := Effect.fits_refl _

theorem insertedInto (target : String) (hde : d.Below e) :
    List.Forall₂ Aggregate.Below (s.insertedInto target d) (t.insertedInto target e) := by
  unfold AnalysisState.insertedInto
  rw [h.env.lookup_aggregate (fun _ _ hb => hb.aggregate) target]
  cases (t.env.lookup target).bind Binding.aggregate with
  | none => exact h.aggregates
  | some id =>
    dsimp only
    obtain ⟨ha, ha'⟩ | ⟨a, a', ha, ha', haa⟩ :=
      eq_none_or_some_of_rel (rel_getElem?_of_forall₂ h.aggregates id)
    · rw [ha, ha']
      exact h.aggregates
    · rw [ha, ha']
      exact forall₂_set h.aggregates id (Aggregate.inserted_below haa hde)

omit h

section Runs

variable {c : Context} {target : String} {pos : Pos} {x y : Expr Note} {o o' : Option Effect}
  {s' t' : AnalysisState}

/-- An assignment leaves a lesser state, unless it is refused in the first run only. -/
theorem assign (h : Assigns c target pos x s o s') (h' : Assigns c target pos y t o' t')
    (hs : s.Below t) (hagree : o = some .raisesAny → o' = some .raisesAny) : s'.Below t' := by
  cases h with
  | fits =>
    cases h' with
    | fits => exact hs
    | mismatch hb' hkind' =>
      obtain ⟨-, hnone⟩ | ⟨b, d, hb, hd, hbb⟩ := eq_none_or_some_of_rel (hs.env.lookup target)
      · rw [hb'] at hnone
        cases hnone
      · cases hb'.symm.trans hd
        have hany := hbb.raisesAny (hbb.kind.trans hkind')
        exact ⟨hs.env.rebind_right hb hany, hs.aggregates, hs.candidates⟩
  | mismatch =>
    cases h' with
    | fits => cases hagree rfl
    | mismatch =>
      have hany : (Binding.callable .raisesAny).Below (.callable .raisesAny) :=
        .callable (Effect.fits_refl _)
      exact ⟨hs.env.rebind target hany, hs.aggregates, hs.candidates⟩

/-- Insertions leave lesser states, whether they are refused or not. -/
theorem insert (h : Inserts c target pos x s o s') (h' : Inserts c target pos y t o' t')
    (hxy : x.Below y) (hs : s.Below t) : s'.Below t' := by
  obtain ⟨haggregates, hcandidates, henv⟩ := h.changes
  obtain ⟨haggregates', hcandidates', henv'⟩ := h'.changes
  refine ⟨?_, ?_, ?_⟩
  · have hleft : Env.Rel Binding.Below s'.env t.env := by
      rcases henv with h | ⟨id, e, h⟩
      · exact h ▸ hs.env
      · exact h ▸ hs.env.follow_left (fun _ _ => .of_collection) id e
    rcases henv' with h | ⟨id, e, h⟩
    · exact h ▸ hleft
    · exact h ▸ hleft.follow_right (fun _ _ => .of_collection) id e
  · rw [haggregates, haggregates']
    exact hs.insertedInto target (Binding.Below.relates.effectOf hs.env hxy)
  · rw [hcandidates, hcandidates']
    exact hs.candidates

end Runs

end AnalysisState.Below

end RaisingEffects
