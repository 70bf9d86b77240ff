import RaisingEffects.Proofs.Verdict.Alone
import RaisingEffects.Proofs.Verdict.Course

/-!
# Checks that do not compare bodies

A check may leave out the comparison of bodies with signatures. All bodies are still analysed, and
what the comparison reports is read by nothing that comes later: the two checks go through states
that differ in their logs only (`AnalysisState.Matches`). So one check is made from the other.
`FunDecl.excess?` is what the comparison reports about a function, and `FunDecl.compared` is the
function that it leaves.
-/

namespace RaisingEffects

open Analysis

/-! ## States that differ in their logs -/

/-- The states differ in their logs only. -/
structure AnalysisState.Matches (s t : AnalysisState) : Prop where
  env : List.Forall₂ (fun scope scope' => ∀ name, scope'.get? name = scope.get? name) s.env t.env
  candidates : t.candidates = s.candidates
  aggregates : t.aggregates = s.aggregates

/-- Numbers and places stay as they are in runs from the given states. -/
def Relabelling.plain (s t : AnalysisState) : Relabelling where
  number := fun i => i
  injective := fun _ _ h => h
  place := fun pos => pos
  log := s.log
  log' := t.log
  before := t.aggregates

theorem Note.relabel_plain (s t : AnalysisState) (n : Note) : n.relabel (.plain s t) = n := by
  simp only [Note.relabel, Relabelling.plain, funext Forwarding.move_id, Option.map_id']
  rfl

theorem Binding.relabel_plain (s t : AnalysisState) (b : Binding) :
    b.relabel (.plain s t) = b := by
  simp only [Binding.relabel, Relabelling.plain, funext Forwarding.move_id, Option.map_id']

namespace AnalysisState

variable {s s' t t' : AnalysisState}

theorem Matches.refl (s : AnalysisState) : s.Matches s where
  env := List.forall₂_same.2 fun _ _ _ => rfl
  candidates := rfl
  aggregates := rfl

theorem Matches.logged (h : s.Matches t) (function : Option String) (entries : List LogEntry) :
    AnalysisState.Matches (s.logged function entries) t :=
  { h with }

theorem Matches.relabels (h : s.Matches t) : s.Relabels (.plain s t) t where
  env := by
    refine h.env.imp fun scope scope' hscope name => ?_
    rw [hscope name, funext (Binding.relabel_plain s t), Option.map_id']
  candidates := h.candidates
  aggregates := fun i => by rw [h.aggregates]; rfl
  others := fun j hj => absurd rfl (hj j)
  next := by rw [h.aggregates]; rfl
  step := fun _ _ => rfl
  log := ⟨[], (List.append_nil _).symm, (List.append_nil _).symm⟩

theorem Relabels.matches_plain (h : s'.Relabels (.plain s t) t') : s'.Matches t' where
  env := by
    refine h.env.imp fun scope scope' hscope name => ?_
    rw [hscope name, funext (Binding.relabel_plain s t), Option.map_id']
  candidates := h.candidates
  aggregates := List.ext_getElem? h.aggregates

/-- Both runs logged the same. -/
theorem Relabels.log_plain (h : s'.Relabels (.plain s t) t') :
    ∃ new, s'.log = s.log ++ new ∧ t'.log = t.log ++ new := by
  obtain ⟨new, hs, ht⟩ := h.log
  have hplain : (fun entry : Option String × LogEntry =>
      (entry.1, entry.2.move (Relabelling.plain s t).place)) = fun entry => entry :=
    funext fun entry => congrArg (Prod.mk entry.1) entry.2.move_id
  rw [hplain, List.map_id'] at ht
  exact ⟨new, hs, ht⟩

end AnalysisState

/-! ## One function -/

/-- What is reported about a function whose body raises more than its effect, if it is compared. -/
def FunDecl.excess? (g : FunDecl Note) : Option Diagnostic := do
  let declared ← g.loc.effect
  let raised ← g.loc.bodyEffect
  if raised.fits declared then none
  else some ⟨.functionRaises g.name declared raised, some g.name, some g.loc.span.start⟩

/-- The function as the comparison leaves it: with its effect, or, if it is reported, with that of
raising anything. -/
def FunDecl.compared (g : FunDecl Note) : FunDecl Note :=
  if g.excess?.isSome then { g with loc := { g.loc with effect := some .raisesAny } } else g

def LogEntry.ofFunction : LogEntry → Bool
  | .violation w => w.cause.ofFunction
  | _ => false

section Noted

variable (g : FunDecl Span) (sig : Signature) (body : Block Note) (declared b : Effect)

theorem FunDecl.compared_noted :
    (notedFunction g sig body b declared).compared =
      notedFunction g sig body b (.judged true declared b) := by
  unfold FunDecl.compared FunDecl.excess? Effect.judged
  cases hfits : b.fits declared <;> simp [notedFunction, hfits]

theorem FunDecl.diagnosticsOf_judgement :
    diagnosticsOf ((g.judgement true declared b).map fun entry => (some g.name, entry)) =
      (notedFunction g sig body b declared).excess?.toList := by
  unfold FunDecl.judgement FunDecl.excess?
  cases hfits : b.fits declared <;> simp [notedFunction, hfits] <;> rfl

theorem FunDecl.ofFunction_of_mem_judgement {entry : LogEntry}
    (h : entry ∈ g.judgement true declared b) : entry.ofFunction = true := by
  unfold FunDecl.judgement at h
  split at h
  · cases List.mem_singleton.1 h
    rfl
  · cases h

end Noted

theorem FunDecl.ofFunction_of_excess? {g : FunDecl Note} {d : Diagnostic}
    (h : g.excess? = some d) : d.cause.ofFunction = true := by
  obtain ⟨declared, -, h⟩ := Option.bind_eq_some_iff.1 h
  obtain ⟨raised, -, h⟩ := Option.bind_eq_some_iff.1 h
  split at h <;> cases h
  rfl

/-! ## All functions -/

theorem diagnosticsOf_filter (log : List (Option String × LogEntry)) :
    diagnosticsOf (log.filter fun entry => !entry.2.ofFunction) =
      (diagnosticsOf log).filter fun d => !d.cause.ofFunction := by
  rw [diagnosticsOf, diagnosticsOf, List.filterMap_filter, List.filter_filterMap]
  refine List.filterMap_congr fun entry _ => ?_
  obtain ⟨function, entry⟩ := entry
  cases entry with
  | violation w =>
    cases hown : w.cause.ofFunction <;>
      simp [LogEntry.ofFunction, Diagnostic.ofViolation, Option.filter, hown]
  | _ => rfl

namespace Analysis

variable {c : Context} {s t : AnalysisState}

/-- From states that differ in their logs, a body is analysed to the same, and the same is
logged. -/
theorem functionBody_matches (hc : c.Collects) (g : FunDecl Span) (sig : Signature)
    (h : s.Matches t) :
    ∃ r s' t' new,
      (inScope do
        defineAll ((g.params.map Param.name).zip sig.params)
        bodyEffect g.body) c s = (.ok r, s') ∧
      (inScope do
        defineAll ((g.params.map Param.name).zip sig.params)
        bodyEffect g.body) c t = (.ok r, t') ∧
      s'.Matches t' ∧ s'.log = s.log ++ new ∧ t'.log = t.log ++ new := by
  obtain ⟨⟨body, b⟩, s', t', hs, ht, hrelabels⟩ := Alike.inScope
    (((defineAll_mirrors (g.params.map Param.name) sig.params).alike hc.failFast).bind fun _ =>
      bodyEffect_alike hc g.body) s t h.relabels
  obtain ⟨new, hlog, hlog'⟩ := hrelabels.log_plain
  have hbody : g.body.map (Span.move (Relabelling.plain s t).place) = g.body := g.body.map_id
  rw [hbody, funext (Binding.relabel_plain s t), List.map_id',
    funext (Note.relabel_plain s t)] at ht
  dsimp only at ht
  rw [Block.map_id] at ht
  exact ⟨(body, b), s', t', new, hs, ht, hrelabels.matches_plain, hlog, hlog'⟩

/-- What the analysis of a body reports is not about the function as a whole. -/
theorem Course.ofFunction_eq_false {s' : AnalysisState} {vs : List Visit} {ns : List (Node Note)}
    {new : List (Option String × LogEntry)} (h : Course c (fun _ => False) [] 0 s s' vs ns)
    (hlog : s'.log = s.log ++ new) : ∀ entry ∈ new, entry.2.ofFunction = false := by
  obtain ⟨more, hmore, hreported⟩ := h.reported
  obtain rfl : new = more := List.append_cancel_left (hlog.symm.trans hmore)
  intro entry hentry
  obtain ⟨function, entry⟩ := entry
  cases entry with
  | violation w =>
    obtain ⟨v, -, hreports⟩ := (hreported function w hentry).resolve_left fun hown => hown.2
    exact hreports.2.ofFunction_eq_false
  | _ => rfl

/-- Checking a function with and without the comparison of its body. -/
theorem checkFunction_compared (hc : c.Collects) (g : FunDecl Span) {sig : Signature}
    (hst : s.Matches t) (hparams : ∀ b ∈ sig.params, b.Follows s.aggregates) :
    ∃ g' s' t' new vs,
      within g.name (checkFunction true g sig) c s = (.ok g'.compared, s') ∧
      within g.name (checkFunction false g sig) c t = (.ok g', t') ∧
      Run c.policy [] 0 s vs 0 s' ∧ s'.Matches t' ∧ s'.log = s.log ++ new ∧
      t'.log = t.log ++ new.filter (fun entry => !entry.2.ofFunction) ∧
      (diagnosticsOf new).filter (fun d => d.cause.ofFunction) = g'.excess?.toList := by
  obtain ⟨⟨body, b⟩, s₁, t₁, new, hs, ht, hst₁, hlog, hlog'⟩ :=
    functionBody_matches (hc.within g.name) g sig hst
  obtain ⟨s₂, -, rfl, hbody⟩ := (functionBody_derives (hc.within g.name) _ g.body s).of_run hs
  have hcourse := functionBody_course (hc.within g.name)
    (fun entry hentry => hparams _ (List.of_mem_zip hentry).2) hbody
  have hown := hcourse.ofFunction_eq_false hlog
  have hquiet : new.filter (fun entry => !entry.2.ofFunction) = new :=
    List.filter_eq_self.2 fun entry hentry => by rw [hown entry hentry]; rfl
  have hsilent : (diagnosticsOf new).filter (fun d => d.cause.ofFunction) = [] := by
    refine List.filter_eq_nil_iff.2 fun d hd => ?_
    obtain ⟨function, w, hw, rfl⟩ := mem_diagnosticsOf.1 hd
    exact Bool.eq_false_iff.1 (hown _ hw)
  have hloud : ((g.judgement true sig.binding.effect b).map fun entry =>
      (some g.name, entry)).filter (fun entry => !entry.2.ofFunction) = [] := by
    refine List.filter_eq_nil_iff.2 fun entry hentry => ?_
    obtain ⟨reported, hreported, rfl⟩ := List.mem_map.1 hentry
    simp [g.ofFunction_of_mem_judgement sig.binding.effect b hreported]
  refine ⟨notedFunction g sig body b sig.binding.effect,
    AnalysisState.logged _ (some g.name) (g.judgement true sig.binding.effect b), t₁,
    new ++ (g.judgement true sig.binding.effect b).map (fun entry => (some g.name, entry)),
    _, ?_, ?_, hcourse.run.snoc (.log 0 _ _), hst₁.logged .., ?_, ?_, ?_⟩
  · rw [FunDecl.compared_noted]
    exact checkFunction_eq hs true
  · exact (checkFunction_eq ht false).trans (congrArg (Prod.mk _) (AnalysisState.logged_nil ..))
  · rw [AnalysisState.logged, hlog, List.append_assoc]
  · rw [hlog', List.filter_append, hquiet, hloud, List.append_nil]
  · rw [diagnosticsOf_append, List.filter_append, hsilent, List.nil_append,
      FunDecl.diagnosticsOf_judgement g sig body]
    refine List.filter_eq_self.2 fun d hd => ?_
    exact FunDecl.ofFunction_of_excess? (Option.mem_toList.1 hd)

/-- Checking functions with and without the comparison of their bodies. -/
theorem checkFunctions_compared (hc : c.Collects) {pairs : List (FunDecl Span × Signature)}
    (hst : s.Matches t)
    (hparams : ∀ pair ∈ pairs, ∀ b ∈ pair.2.params, b.Declared s.aggregates) :
    ∃ gs s' t' new,
      checkFunctions true pairs c s = (.ok (gs.map FunDecl.compared), s') ∧
      checkFunctions false pairs c t = (.ok gs, t') ∧
      s'.Matches t' ∧ s'.log = s.log ++ new ∧
      t'.log = t.log ++ new.filter (fun entry => !entry.2.ofFunction) ∧
      (diagnosticsOf new).filter (fun d => d.cause.ofFunction) =
        gs.filterMap FunDecl.excess? := by
  induction pairs generalizing s t with
  | nil => exact ⟨[], s, t, [], rfl, rfl, hst, by simp, by simp, rfl⟩
  | cons pair rest ih =>
    obtain ⟨g, sig⟩ := pair
    obtain ⟨hpair, hrest⟩ := List.forall_mem_cons.1 hparams
    obtain ⟨g', s₁, t₁, new₁, vs, hs₁, ht₁, hrun, hst₁, hlog₁, hlog₁', hfound₁⟩ :=
      checkFunction_compared hc g hst fun b hb => (hpair b hb).follows
    obtain ⟨gs, s₂, t₂, new₂, hs₂, ht₂, hst₂, hlog₂, hlog₂', hfound₂⟩ :=
      ih hst₁ fun pair hp b hb => hrun.declared (hrest pair hp b hb)
    refine ⟨g' :: gs, s₂, t₂, new₁ ++ new₂, ?_, ?_, hst₂, ?_, ?_, ?_⟩
    · rw [checkFunctions, bind_eq_of_ok hs₁, bind_eq_of_ok hs₂]
      rfl
    · rw [checkFunctions, bind_eq_of_ok ht₁, bind_eq_of_ok ht₂]
      rfl
    · rw [hlog₂, hlog₁, List.append_assoc]
    · rw [hlog₂', hlog₁', List.filter_append, List.append_assoc]
    · rw [diagnosticsOf_append, List.filter_append, hfound₁, hfound₂]
      cases hexcess : g'.excess? <;> simp [hexcess]

end Analysis

/-! ## Programs -/

theorem Cause.ofFunction_eq_false_of_ofForwarding {cause : Cause}
    (h : cause.ofForwarding = true) : cause.ofFunction = false := by
  cases cause with
  | functionRaises => cases h
  | _ => rfl

/-- Nothing is reported about a function as a whole before the first body. -/
theorem Program.seeded_ofFunction {p : Program Span} {isError : String → Bool}
    {skipped : List Ambiguity} :
    ∀ entry ∈ (p.seeded isError skipped).log, entry.2.ofFunction = false := by
  rintro ⟨function, entry⟩ hentry
  cases entry with
  | violation w =>
    show w.cause.ofFunction = false
    rcases cause_of_mem_seeded hentry with hcause | ⟨_, hcause⟩ | ⟨_, hcause⟩
    · exact Cause.ofFunction_eq_false_of_ofForwarding hcause
    · rw [hcause]
      rfl
    · rw [hcause]
      rfl
  | _ => rfl

/-- **Not comparing bodies leaves out what the comparison reports,** and changes nothing else but
the effects of the functions that are reported. -/
theorem Program.check_compared (p : Program Span) (policy : Policy) (isError : String → Bool)
    (skipped : List Ambiguity) :
    ∃ on off, p.check { policy, checkBodies := true } isError skipped = .ok on ∧
      p.check { policy, checkBodies := false } isError skipped = .ok off ∧
      off.diagnostics = on.diagnostics.filter (fun d => !d.cause.ofFunction) ∧
      on.diagnostics.filter (fun d => d.cause.ofFunction) =
        off.program.functions.filterMap FunDecl.excess? ∧
      on.program =
        { off.program with functions := off.program.functions.map FunDecl.compared } ∧
      (∀ g ∈ off.program.functions, g.compared.loc.effect ≠ g.loc.effect →
        ∃ d ∈ on.diagnostics, g.excess? = some d) ∧
      on.aggregates = off.aggregates := by
  have hparams : ∀ pair ∈ p.signed isError, ∀ b ∈ pair.2.params,
      b.Declared (p.seeded isError skipped).aggregates := signatures_declared p.functions []
  obtain ⟨gs, s, t, new, hs, ht, hst, hlog, hlog', hfound⟩ :=
    checkFunctions_compared (c := { policy, isError }) ⟨rfl, fun _ => rfl⟩
      (.refl (p.seeded isError skipped)) hparams
  have hseeded : (p.seeded isError skipped).log.filter (fun entry => !entry.2.ofFunction) =
      (p.seeded isError skipped).log :=
    List.filter_eq_self.2 fun entry hentry => by rw [seeded_ofFunction entry hentry]; rfl
  have hsilent : (diagnosticsOf (p.seeded isError skipped).log).filter
      (fun d => d.cause.ofFunction) = [] := by
    refine List.filter_eq_nil_iff.2 fun d hd => ?_
    obtain ⟨function, w, hw, rfl⟩ := mem_diagnosticsOf.1 hd
    exact Bool.eq_false_iff.1 (seeded_ofFunction _ hw)
  have hdeleted : (diagnosticsOf s.log).filter (fun d => d.cause.ofFunction) =
      gs.filterMap FunDecl.excess? := by
    rw [hlog, diagnosticsOf_append, List.filter_append, hsilent, hfound, List.nil_append]
  have hon : p.check { policy, checkBodies := true } isError skipped = .ok _ := check_eq_of_run hs
  have hoff : p.check { policy, checkBodies := false } isError skipped = .ok _ :=
    check_eq_of_run ht
  refine ⟨_, _, hon, hoff, ?_, hdeleted, rfl, ?_, hst.aggregates.symm⟩
  · show diagnosticsOf t.log = (diagnosticsOf s.log).filter fun d => !d.cause.ofFunction
    rw [← diagnosticsOf_filter, hlog, hlog', List.filter_append, hseeded]
  · intro g hg hne
    cases hexcess : g.excess? with
    | none =>
      simp only [FunDecl.compared, hexcess, Option.isSome_none, Bool.false_eq_true, if_false] at hne
      exact absurd rfl hne
    | some d =>
      have hd : d ∈ gs.filterMap FunDecl.excess? := List.mem_filterMap.2 ⟨g, hg, hexcess⟩
      rw [← hdeleted] at hd
      exact ⟨d, (List.mem_filter.1 hd).1, rfl⟩

end RaisingEffects
