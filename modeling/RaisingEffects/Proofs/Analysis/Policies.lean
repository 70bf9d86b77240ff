import RaisingEffects.Proofs.Analysis.Related
import RaisingEffects.Proofs.Forwarding.Narrowing

/-!
# Two policies side by side

The same analysis is run under the precise policy, from a state `s`, and under the compatibility
policy, from a state `t`. As long as the second run finds no violation, the effects in the first are
narrower (`AnalysisState.Narrows`), and what the first reports is only that a value does not fit the
collection or the name it is put into (`Cause.ofPlacement`). This module is about what happens at a
node.

* A call with narrower arguments is accepted and has a narrower effect (`Env.Narrows.called`).
* The precise policy may refuse an element (`AnalysisState.Narrows.collection`), an inserted value
  (`AnalysisState.Narrows.insert`) or an assigned value (`AnalysisState.Narrows.assign`) that the
  other policy accepts; then the other policy takes the collection or the name for one that raises
  anything.
-/

namespace RaisingEffects

open Analysis

/-- Whether the cause is that a value does not fit the collection it is put into, as an element or
by an insertion, or the name it is assigned to. -/
def Cause.ofPlacement : Cause → Bool
  | .misfit _ | .assignMismatch .. => true
  | _ => false

def Context.under (c : Context) (policy : Policy) : Context := { c with policy }

theorem Context.Collects.under {c : Context} (hc : c.Collects) (policy : Policy) :
    (c.under policy).Collects := ⟨hc.failFast, hc.known⟩

/-- No violation is among the entries. -/
def Quiet (entries : List LogEntry) : Prop := ∀ v, .violation v ∉ entries

theorem Quiet.nil : Quiet [] := by simp [Quiet]

theorem quiet_map_violation {vs : List Violation} : Quiet (vs.map .violation) ↔ vs = [] := by
  refine ⟨fun h => List.eq_nil_iff_forall_not_mem.2 fun v hv => ?_, fun h => h ▸ .nil⟩
  exact h v (List.mem_map_of_mem hv)

/-! ## Narrower scopes -/

/-- The first meaning is that of the second with a narrower effect. The effect that is kept with a
collection does not matter, since that of its aggregate is used. -/
inductive Binding.Narrows : Binding → Binding → Prop
  | same {b : Binding} (h : b.aggregate = none) : Narrows b b
  | callable {d e : Effect} (h : d.Narrows e) : Narrows (.callable d) (.callable e)
  | error {d e : Effect} (h : d.Narrows e) : Narrows (.error d) (.error e)
  | collection (id : Nat) (d e : Effect) :
    Narrows { kind := .collection, effect := d, aggregate := some id }
      { kind := .collection, effect := e, aggregate := some id }

namespace Binding.Narrows

variable {b b' : Binding}

theorem aggregate (h : b.Narrows b') : b.aggregate = b'.aggregate := by
  cases h <;> rfl

theorem rule (h : b.Narrows b') : b.params = b'.params ∧ b.forwarding = b'.forwarding := by
  cases h <;> exact ⟨rfl, rfl⟩

theorem relates : Relates Binding.Narrows Effect.Narrows where
  refl := .refl
  plain := fun _ => .same
  callable := fun _ _ => .callable
  kind := fun _ _ h => by cases h <;> rfl
  effect := by
    intro b b' h hkind
    cases h with
    | same => exact .refl _
    | callable hde => exact hde
    | error hde => exact hde
    | collection => exact absurd rfl hkind

/-- A callable whose effect may differ is one without known parameters. -/
theorem eq_or_callable (h : b.Narrows b') (hkind : b'.kind = .callable) :
    b = b' ∨ b' = .callable b'.effect := by
  cases h with
  | same => exact .inl rfl
  | callable => exact .inr rfl
  | error => cases hkind
  | collection => cases hkind

theorem of_collection (h : b.Narrows b') (hsome : b.aggregate ≠ none ∨ b'.aggregate ≠ none)
    (d e : Effect) : Narrows { b with effect := d } { b' with effect := e } := by
  cases h with
  | same ha => simp [ha] at hsome
  | callable | error => simp [Binding.callable, Binding.error] at hsome
  | collection id => exact .collection id d e

theorem caught {d e : Effect} (h : d.Narrows e) : (caughtBinding d).Narrows (caughtBinding e) := by
  refine .error ?_
  rw [h.raising]
  split
  · exact h
  · exact .refl _

end Binding.Narrows

theorem Param.binding_narrows (isError : String → Bool) (id : Nat) (p : Param Span) :
    (p.binding isError id).Narrows (p.binding isError id) := by
  unfold Param.binding
  split
  · exact .same rfl
  · split
    · exact .collection ..
    · split <;> exact .same rfl

theorem Forwarding.called_narrows (f : Forwarding) (pos : Pos) {ds es : List Effect}
    (h : List.Forall₂ Effect.Narrows ds es) (hquiet : Quiet (f.called pos es).2) :
    (f.called pos ds).1.Narrows (f.called pos es).1 ∧ Quiet (f.called pos ds).2 := by
  have heffects (p : ForwardedParam) (_ : p ∈ f.params) :=
    Forwarding.effectOf_rel .refl (forwardedEffects_rel .refl f h) p
  cases he : f.callSite (forwardedEffects f es) with
  | error v =>
    rw [called, he] at hquiet
    exact absurd (List.mem_singleton.2 rfl) (hquiet _)
  | ok e =>
    obtain ⟨d, hd, hde⟩ := callSite_narrows heffects he
    refine ⟨by rwa [called, called, hd, he], fun v hv => ?_⟩
    obtain ⟨w, hw, -⟩ := of_mem_called hv
    rw [hd] at hw
    cases hw

/-- The scopes have the same names, and narrower meanings. -/
abbrev Env.Narrows : Env → Env → Prop := Env.Rel Binding.Narrows

/-- The first expression is the second with narrower effects, as far as it is read as a value. -/
abbrev Expr.Narrows : Expr Note → Expr Note → Prop := Expr.Rel Effect.Narrows

namespace Env.Narrows

variable {env env' : Env} {e e' : Expr Note} (h : env.Narrows env')

include h

theorem effectOf (he : e.Narrows e') : (env.effectOf e).Narrows (env'.effectOf e') :=
  Binding.Narrows.relates.effectOf h he

/-- **A call of the same callee with narrower arguments has a narrower effect.** -/
theorem called (callee : String) (pos : Pos) {args args' : List (Expr Note)}
    (hargs : List.Forall₂ Expr.Narrows args args')
    (hquiet : Quiet (env'.called callee pos args').2) :
    (env.called callee pos args).1.Narrows (env'.called callee pos args').1 ∧
      Quiet (env.called callee pos args).2 := by
  have heffects := Binding.Narrows.relates.map_effectOf h hargs
  have hnil {params : List (Option Effect)} (hnil : argumentFaults callee pos
      (args'.map env'.effectOf) 0 params = []) :
      argumentFaults callee pos (args.map env.effectOf) 0 params = [] :=
    argumentFaults_eq_nil (heffects.imp fun _ _ hde => hde.fits) hnil
  obtain ⟨hb, hb'⟩ | ⟨b, b', hb, hb', hbb⟩ := eq_none_or_some_of_rel (h.lookup callee)
  · rw [Env.called, Env.called, hb, hb']
    exact ⟨.refl _, .nil⟩
  · have hkinds := Binding.Narrows.relates.kind b b' hbb
    rw [Env.called_of_some hb'] at hquiet ⊢
    rw [Env.called_of_some hb]
    by_cases hkind : b'.kind = .callable
    · obtain ⟨hparams, hrule⟩ := hbb.rule
      cases hf : b'.forwarding with
      | none =>
        rw [Binding.called_direct hkind hf] at hquiet ⊢
        rw [Binding.called_direct (hkinds.trans hkind) (hrule.trans hf), hparams,
          hnil (quiet_map_violation.1 hquiet)]
        exact ⟨Binding.Narrows.relates.effect b b' hbb (by simp [hkind]), .nil⟩
      | some f =>
        rw [Binding.called_rule hkind hf] at hquiet ⊢
        rw [Binding.called_rule (hkinds.trans hkind) (hrule.trans hf), hparams]
        cases hfaults : argumentFaults callee pos (args'.map env'.effectOf) 0 b'.params with
        | cons v vs =>
          rw [hfaults] at hquiet
          exact absurd (List.mem_cons_self ..) (hquiet v)
        | nil =>
          rw [hfaults] at hquiet
          rw [hnil hfaults]
          exact f.called_narrows pos heffects hquiet
    · rw [Binding.called, Binding.called, if_neg hkind, if_neg (hkinds ▸ hkind)]
      exact ⟨.refl _, .nil⟩

theorem raised (isError : String → Bool) (he : e.Narrows e')
    (hquiet : Quiet (env'.raised isError e').2) :
    (env.raised isError e).1.Narrows (env'.raised isError e').1 ∧
      (env.raised isError e).2 = [] := by
  obtain ⟨hde, hentries⟩ := Binding.Narrows.relates.raised h isError he
  refine ⟨hde, hentries ?_⟩
  obtain hnil | ⟨name, loc, -, hviolation⟩ := env'.raised_entries isError e'
  · exact hnil
  · rw [hviolation] at hquiet
    exact absurd (List.mem_singleton.2 rfl) (hquiet _)

/-- A name that is declared with an effect has it, if its value fits under the compatibility
policy. -/
theorem bound (isError : String → Bool) (name : String) (pos : Pos) (type : Option (TypeExpr Span))
    (declared : Option Effect) (he : e.Narrows e')
    (hquiet : Quiet (env'.bound isError name pos type e' declared).2.2) :
    (env.bound isError name pos type e declared).2.1.Narrows
        (env'.bound isError name pos type e' declared).2.1 ∧
      (env.bound isError name pos type e declared).2.2 = [] := by
  cases declared with
  | none => exact ⟨Binding.Narrows.relates.bindingOf h isError type he, rfl⟩
  | some d =>
    rw [Env.bound] at hquiet ⊢
    by_cases hfits : (env'.effectOf e').fits d = true
    · rw [Env.bound, if_pos hfits, if_pos ((h.effectOf he).fits_trans hfits)]
      exact ⟨.same rfl, rfl⟩
    · rw [if_neg hfits] at hquiet
      exact absurd (List.mem_singleton.2 rfl) (hquiet _)

end Env.Narrows

theorem closureOutcome_narrows (c : Context) (span : Span) (clause : Option (Clause Span))
    {ds es : List Effect} (h : List.Forall₂ Effect.Narrows ds es)
    (hquiet : Quiet (closureOutcome (c.under .compatibility) span es clause).2) :
    (closureOutcome (c.under .precise) span ds clause).1.Narrows
        (closureOutcome (c.under .compatibility) span es clause).1 ∧
      Quiet (closureOutcome (c.under .precise) span ds clause).2 := by
  cases clause with
  | none => exact ⟨.collapse h, .nil⟩
  | some clause =>
    rw [closureOutcome] at hquiet ⊢
    by_cases hfits : (Effect.joinAll es).fits (Clause.declared c.isError (some clause)) = true
    · have hfits' := (Effect.Narrows.joinAll h).fits_trans hfits
      rw [closureOutcome]
      simp only [Context.under, hfits, hfits', if_true] at hquiet ⊢
      exact ⟨.refl _, hquiet⟩
    · simp only [Context.under, hfits] at hquiet
      exact absurd (List.mem_append_right _ (List.mem_singleton.2 rfl)) (hquiet _)

/-! ## Narrower states -/

def AnalysisState.Clean (t : AnalysisState) : Prop :=
  ∀ entry ∈ t.log, ∀ v, entry.2 ≠ .violation v

/-- The first state is the second with narrower effects, and its violations are about placements. -/
structure AnalysisState.Narrows (s t : AnalysisState) : Prop where
  env : s.env.Narrows t.env
  aggregates : List.Forall₂ Aggregate.Narrows s.aggregates t.aggregates
  candidates : List.Forall₂ Effect.Narrows s.candidates t.candidates
  placements : ∀ entry ∈ s.log, ∀ v, entry.2 = .violation v → v.cause.ofPlacement = true

namespace AnalysisState

variable {s t t' : AnalysisState} {e e' : Expr Note}

theorem Clean.earlier (h : t'.Clean) (hlog : t.log <+: t'.log) : t.Clean :=
  fun entry hentry => h entry (hlog.subset hentry)

theorem clean_logged {function : Option String} {entries : List LogEntry} :
    (t.logged function entries).Clean ↔ t.Clean ∧ Quiet entries := by
  unfold Clean logged Quiet
  rw [List.forall_mem_append, List.forall_mem_map]
  refine and_congr_right fun _ => ⟨fun h v hv => h _ hv v rfl, ?_⟩
  rintro h entry hentry v rfl
  exact h v hentry

section Clean

variable {c : Context} {target : String} {pos : Pos} {o : Option Effect}

theorem clean_of_assign (h : Assigns c target pos e t o t') (hclean : t'.Clean) : t.Clean := by
  cases h with
  | fits => exact hclean
  | mismatch => exact hclean.earlier (List.prefix_append ..)

theorem clean_of_insert (h : Inserts c target pos e t o t') (hclean : t'.Clean) : t.Clean := by
  cases h with
  | nowhere | accepted => exact hclean
  | refused => exact hclean.earlier (List.prefix_append ..)

end Clean

namespace Narrows

variable {entries : List LogEntry} (h : s.Narrows t)

include h

theorem push : AnalysisState.Narrows { s with env := [] :: s.env } { t with env := [] :: t.env } :=
  { h with env := h.env.push }

theorem pop : s.closed.Narrows t.closed := { h with env := h.env.pop }

theorem define (name : String) {b b' : Binding} (hb : b.Narrows b') :
    AnalysisState.Narrows { s with env := s.env.define name b }
      { t with env := t.env.define name b' } := { h with env := h.env.define name hb }

theorem newAggregate {a a' : Aggregate} (ha : a.Narrows a') :
    AnalysisState.Narrows { s with aggregates := s.aggregates ++ [a] }
      { t with aggregates := t.aggregates ++ [a'] } :=
  { h with aggregates := List.rel_append h.aggregates (.cons ha .nil) }

theorem collect : AnalysisState.Narrows { s with candidates := [] } { t with candidates := [] } :=
  { h with candidates := .nil }

/-- The first log may grow by violations about placements. -/
theorem placing (hentries : ∀ v, .violation v ∈ entries → v.cause.ofPlacement = true)
    (function : Option String) :
    ∀ entry ∈ (s.logged function entries).log, ∀ v,
      entry.2 = .violation v → v.cause.ofPlacement = true := by
  refine List.forall_mem_append.2 ⟨h.placements, ?_⟩
  exact List.forall_mem_map.2 fun entry hentry v heq => hentries v (heq ▸ hentry)

theorem placing_quiet (hquiet : Quiet entries) (function : Option String) :
    ∀ entry ∈ (s.logged function entries).log, ∀ v,
      entry.2 = .violation v → v.cause.ofPlacement = true :=
  h.placing (fun v hv => absurd hv (hquiet v)) function

/-- Both logs may grow by what is no violation. -/
theorem noted {function : Option String} (hclean : (t.logged function entries).Clean) :
    (s.logged function entries).Narrows (t.logged function entries) :=
  { h with placements := h.placing_quiet (clean_logged.1 hclean).2 function }

theorem entered {function : Option String} {entries more : List LogEntry}
    (hclean : ((t.logged function entries).logged function more).Clean) :
    ((s.logged function entries).logged function more).Narrows
      ((t.logged function entries).logged function more) :=
  (h.noted (clean_logged.1 hclean).1).noted hclean

theorem reported (cause : Cause) (pos : Pos) (hcause : cause.ofPlacement = true)
    (function : Option String) : (s.logged function [.violation (.at_ cause pos)]).Narrows t := by
  refine { h with placements := h.placing (fun v hv => ?_) function }
  cases List.mem_singleton.1 hv
  exact hcause

theorem inClosure (c : Context) (ps : List (Param Span)) (hclean : (t.inClosure c ps).Clean) :
    (s.inClosure c ps).Narrows (t.inClosure c ps) where
  env := h.env.inClosure h.aggregates.length_eq (Param.binding_narrows c.isError) ps
  aggregates := by
    refine List.rel_append h.aggregates (List.forall₂_same.2 fun a ha => ?_)
    obtain ⟨p, -, ha⟩ := List.mem_flatMap.1 ha
    obtain ⟨e, he⟩ := Param.effect_of_mem_aggregates ha
    exact .of_some he he (.refl e)
  candidates := .nil
  placements := by
    refine List.forall_mem_append.2 ⟨h.placements, fun entry hentry v hv => ?_⟩
    exact absurd hv (hclean entry (List.mem_append_right _ hentry) v)

/-- An element that only the precise policy refuses raises, and then the other policy takes the
collection for one that raises anything. -/
theorem collection (kind : CollectionKind) (declared : Option Effect) {es es' : List (Expr Note)}
    (hes : List.Forall₂ Expr.Narrows es es')
    (hquiet : Quiet (elementEntries .compatibility kind declared es' (es'.map t.env.effectOf))) :
    (Aggregate.settled .precise declared kind.noun (es.map s.env.effectOf)).Narrows
        (.settled .compatibility declared kind.noun (es'.map t.env.effectOf)) ∧
      ∀ v, .violation v ∈ elementEntries .precise kind declared es (es.map s.env.effectOf) →
        v.cause.ofPlacement = true := by
  refine ⟨?_, fun v hv => ?_⟩
  · rw [elementEntries] at hquiet
    rw [Aggregate.settled, Aggregate.settled]
    cases hb : Aggregate.ofElements .compatibility declared kind.noun (es'.map t.env.effectOf) with
    | ok b =>
      obtain ⟨a, ha, hab⟩ | ⟨⟨m, hm⟩, rfl, hany⟩ := Aggregate.ofElements_narrows
        (Binding.Narrows.relates.map_effectOf h.env hes) hb
      · rwa [ha]
      · rw [hm]
        exact .of_some rfl hany (.refl _)
    | error m =>
      rw [hb] at hquiet
      exact absurd (List.mem_singleton.2 rfl) (hquiet _)
  · unfold elementEntries at hv
    split at hv
    · cases hv
    · cases List.mem_singleton.1 hv
      rfl

section Runs

variable {c c' : Context} {target : String} {pos : Pos} {o o' : Option Effect} {s' : AnalysisState}

/-- A value that only the precise policy refuses is assigned to a name that raises anything under
the other policy. -/
theorem assign (he : e.Narrows e') (hrun : Assigns c target pos e s o s')
    (hrun' : Assigns c' target pos e' t o' t') (hclean : t'.Clean) : s'.Narrows t' := by
  cases hrun' with
  | mismatch => exact absurd (List.mem_singleton.2 rfl) ((clean_logged.1 hclean).2 _)
  | fits hfits' =>
    cases hrun with
    | fits => exact h
    | @mismatch b hb hkind hmisfit =>
      obtain ⟨hnone, -⟩ | ⟨d, b', hd, hb', hbb⟩ := eq_none_or_some_of_rel (h.env.lookup target)
      · rw [hb] at hnone
        cases hnone
      · cases hb.symm.trans hd
        have hkind' : b'.kind = .callable :=
          (Binding.Narrows.relates.kind b b' hbb).symm.trans hkind
        have hvalue := h.env.effectOf he
        have hfits := hfits' b' hb' hkind'
        have hany := hvalue.eq_raisesAny
          (Binding.Narrows.relates.effect b b' hbb (by simp [hkind'])) hfits hmisfit
        obtain rfl | hcallable := hbb.eq_or_callable hkind'
        · rw [hvalue.fits_trans hfits] at hmisfit
          cases hmisfit
        · rw [hcallable, hany] at hb'
          have hplacements := (h.reported (.assignMismatch target b.effect (s.env.effectOf e)) pos
            rfl c.function).placements
          exact { h with env := h.env.rebind_left hb' (.same rfl), placements := hplacements }

/-- Insertions concern an aggregate in both states or in none. -/
theorem aggregates_of_target (target : String) :
    Option.Rel Aggregate.Narrows
      (((s.env.lookup target).bind Binding.aggregate).bind (s.aggregates[·]?))
      (((t.env.lookup target).bind Binding.aggregate).bind (t.aggregates[·]?)) := by
  rw [h.env.lookup_aggregate (fun _ _ hb => hb.aggregate) target]
  cases (t.env.lookup target).bind Binding.aggregate with
  | none => exact .none
  | some id => exact rel_getElem?_of_forall₂ h.aggregates id

/-- A value that only the precise policy refuses is not inserted, and the collection keeps its
effect under both policies. -/
theorem insert (he : e.Narrows e') (hrun : Inserts c target pos e s o s')
    (hrun' : Inserts c' target pos e' t o' t') (hclean : t'.Clean) : s'.Narrows t' := by
  have hid := h.env.lookup_aggregate (fun _ _ hb => hb.aggregate) target
  have hrel := h.aggregates_of_target target
  cases hrun' with
  | refused => exact absurd (List.mem_singleton.2 rfl) ((clean_logged.1 hclean).2 _)
  | nowhere hnone' =>
    cases hrun with
    | nowhere => exact h
    | accepted hid ha | refused hid ha =>
      rw [hnone', hid, Option.bind_some, ha] at hrel
      cases hrel
  | accepted hid' ha' hb' =>
    rw [hid', Option.bind_some, ha'] at hrel
    cases hrun with
    | nowhere hnone =>
      rw [hnone] at hrel
      cases hrel
    | @accepted id _ _ hid₁ ha hok =>
      obtain rfl := Option.some.inj (hid₁.symm.trans (hid.trans hid'))
      rw [hid₁, Option.bind_some, ha] at hrel
      cases hrel with | some haa
      obtain ⟨b, hb, hbb⟩ | ⟨⟨m, hm⟩, -⟩ := Aggregate.insert_narrows haa (h.env.effectOf he) hb'
      · cases hok.symm.trans hb
        exact { h with
          env := (h.env.follow_left (fun _ _ => .of_collection) ..).follow_right
            (fun _ _ => .of_collection) ..
          aggregates := forall₂_set h.aggregates id hbb }
      · cases hok.symm.trans hm
    | @refused id _ m hid₁ ha hrefused =>
      obtain rfl := Option.some.inj (hid₁.symm.trans (hid.trans hid'))
      rw [hid₁, Option.bind_some, ha] at hrel
      cases hrel with | some haa
      obtain ⟨b, hb, -⟩ | ⟨-, hab⟩ := Aggregate.insert_narrows haa (h.env.effectOf he) hb'
      · cases hrefused.symm.trans hb
      · exact { h with
          env := h.env.follow_right (fun _ _ => .of_collection) ..
          aggregates := forall₂_set_right h.aggregates ha hab
          placements := (h.reported (.misfit m) pos rfl c.function).placements }

end Runs

end Narrows

end AnalysisState

end RaisingEffects
