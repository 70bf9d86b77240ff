import RaisingEffects.Proofs.Analysis.Bodies
import RaisingEffects.Proofs.Verdict.Soundness

/-!
# The check of the bodies

The bodies are analysed one after the other, each in a scope for its parameters, and compared with
the signatures. `Program.visits` lists what the check comes to on the way, and `Verdict.Bodies` is
what it establishes: every state that it comes through is sound, every function is left with the
effect of its signature or is reported, and the faults of forwarding rules are those of the
signatures.
-/

namespace RaisingEffects

open Analysis

/-! ## Functions -/

/-- `g'` is the function `g` after its check, and the log has what there is to report about it. -/
structure FunDecl.Judged (checkBodies : Bool) (log : List (Option String × LogEntry))
    (g : FunDecl Span) (declared : Effect) (g' : FunDecl Note) : Prop where
  shape : g'.map Note.span = g
  effects : ∃ b, g'.loc.bodyEffect = some b ∧
    g'.loc.effect = some (.judged checkBodies declared b) ∧
    ∀ entry ∈ g.judgement checkBodies declared b, (some g.name, entry) ∈ log

/-- A walk as part of a function. -/
theorem Analysis.Invariant.Walked.within {c : Context} {J : Invariant} {function : Option String}
    {vs : List Visit} {ns : List (Node Note)} (h : J.Walked { c with function } vs ns) :
    J.Walked c vs ns :=
  { h with }

namespace FunDecl.AnalysedAll

variable {c : Context} {checkBodies : Bool} {s s' : AnalysisState}
  {pairs : List (FunDecl Span × Signature)} {vs : List Visit} {gs : List (FunDecl Note)}
  (hc : c.Collects) (h : AnalysedAll c checkBodies s pairs vs gs s')

include hc h

/-- Checking functions adds to the log, and leaves each function with its judgement. -/
theorem judged : s.log <+: s'.log ∧
    ∀ g' ∈ gs, ∃ pair ∈ pairs, pair.1.Judged checkBodies s'.log pair.2.binding.effect g' := by
  induction h with
  | nil => exact ⟨List.prefix_rfl, by simp⟩
  | @cons _ _ _ g sig _ _ _ _ _ hbody _ ih =>
    obtain ⟨hgrows, hrest⟩ := ih
    refine ⟨((hbody.log_extends (hc.within g.name)).trans (List.prefix_append ..)).trans hgrows,
      List.forall_mem_cons.2 ⟨?_, fun g' hg' => ?_⟩⟩
    · refine ⟨_, List.mem_cons_self .., notedFunction_map_span sig _ _
        (Part.block.inj hbody.traced.1), _, rfl, rfl, fun entry hentry => hgrows.subset ?_⟩
      exact List.mem_append_right _ (List.mem_map_of_mem hentry)
    · obtain ⟨pair, hpair, hjudged⟩ := hrest g' hg'
      exact ⟨pair, List.mem_cons_of_mem _ hpair, hjudged⟩

/-- States stay sound when functions are checked with signatures that are sound. -/
theorem walked {V : Vocabulary c.isError}
    (hpairs : ∀ pair ∈ pairs, pair.1 ∈ V.functions ∧ pair.2.binding.Sound V ∧
      ∀ b ∈ pair.2.params, b.Sound V) (hs : s.Sound V) :
    s'.Sound V ∧ (soundness V).Walked c vs (gs.flatMap fun g => g.body.walk) := by
  induction h with
  | nil => exact ⟨hs, .nil⟩
  | @cons s s₁ _ g sig _ _ _ _ _ hbody _ ih =>
    obtain ⟨⟨hg, hbinding, hparams⟩, hrest⟩ := List.forall_mem_cons.1 hpairs
    obtain ⟨hword, hknows⟩ := Vocabulary.knows_cons.1 (V.named g hg)
    have hf : ∀ f ∈ some g.name, V.Word f := by simpa using hword g.name (List.mem_cons_self ..)
    obtain ⟨hs₁, hw⟩ := hbody.walked (hc.within g.name) hf (Vocabulary.knows_append.1 hknows).2
      ((hs.opened fun entry hentry => hparams _ (List.of_mem_zip hentry).2).withCandidates
        (by simp))
    have hentries : ∀ entry ∈ g.judgement checkBodies sig.binding.effect (.joinAll s₁.candidates),
        entry.Fair V := by
      intro entry hentry
      unfold FunDecl.judgement at hentry
      split at hentry
      · rw [List.mem_singleton.1 hentry]
        exact ⟨rfl, hf g.name rfl, hbinding.names, .joinAll hs₁.candidates⟩
      · cases hentry
    obtain ⟨hs', hw'⟩ := ih hrest ((hs₁.withCandidates hs.candidates).closed.logged hf hentries)
    exact ⟨hs', hw.within.append hw'⟩

end FunDecl.AnalysedAll

/-! ## Programs -/

namespace Program

variable {isError : String → Bool}

section Seeded

variable {p : Program Span} (hp : p.WellNamed) {V : Vocabulary isError}
  (hV : V.functions = p.functions) {skipped : List Ambiguity}
  (hlog : V.log = (p.seeded isError skipped).log)

include hp hV hlog

/-- All that is known from the declarations is sound. -/
theorem seeded_sound : (p.seeded isError skipped).Sound V where
  env := by
    refine Env.Sound.defineAll (by simp [Env.Sound]) fun entry hentry => ?_
    rcases List.mem_append.1 hentry with h | h
    · obtain ⟨d, -, rfl⟩ := List.mem_map.1 h
      exact .typeName
    · obtain ⟨g, hg, rfl⟩ := List.mem_map.1 h
      exact .of_function (hV ▸ hg) (hp.functions g hg)
  aggregates := by
    intro a ha
    obtain ⟨g, hg, ha⟩ := List.mem_flatMap.1 ha
    obtain ⟨p, hp, ha⟩ := List.mem_flatMap.1 ha
    exact Param.aggregates_names
      (fun x hx => V.named g (hV ▸ hg) x (FunDecl.mem_names_of_param hp hx)) ha
  candidates := by simp [seeded]
  log := ⟨[], by rw [hlog, List.append_nil], by simp⟩

/-- The check of the bodies comes through sound states. -/
theorem checkFunctions_sound (settings : Settings) :
    Yields { policy := settings.policy, isError } (p.seeded isError skipped)
      (checkFunctions settings.checkBodies (p.signed isError)) fun gs' s' => s'.Sound V ∧
        (soundness V).Walked { policy := settings.policy, isError }
          (p.visits isError settings skipped) (gs'.flatMap fun g => g.body.walk) := by
  refine (p.derives settings isError skipped).mono fun gs' s' h => ?_
  refine h.walked ⟨rfl, fun _ => rfl⟩ (fun pair hpair => ?_) (seeded_sound hp hV hlog)
  obtain ⟨hg, id, hsig⟩ := of_mem_signed hpair
  have hmem := hV.symm ▸ hg
  rw [hsig]
  refine ⟨hmem, .of_function hmem (hp.functions _ hg), fun b hb => ?_⟩
  refine Binding.Sound.of_params (fun x hx => ?_) _ hb
  rw [List.flatMap_assoc] at hx
  obtain ⟨p, hp, hx⟩ := List.mem_flatMap.1 hx
  exact V.named _ hmem x (FunDecl.mem_names_of_param hp hx)

end Seeded

end Program

namespace Verdict.Covers

variable {isError : String → Bool} {checkBodies : Bool} {p : Program Span} {v : Verdict}
  (h : v.Covers isError checkBodies p) {g : FunDecl Note} (hg : g ∈ v.program.functions)

include h hg

theorem mem_functions : g.map Note.span ∈ p.functions := by
  rw [← h.shape]
  exact List.mem_map_of_mem hg

/-- The table has the effect that is noted at a function. -/
theorem get?_effects (hp : p.WellNamed) {e : Effect} (he : g.loc.effect = some e) :
    v.effects.get? g.name = some e := by
  rw [h.effects, get?_effectTable (h.names ▸ hp.nodup) hg, he]
  rfl

end Verdict.Covers

/-- What the check of the bodies of a program establishes. -/
structure Verdict.Bodies (isError : String → Bool) (settings : Settings) (p : Program Span)
    (skipped : List Ambiguity) (v : Verdict) : Prop where
  walked : (soundness (.all isError p.functions (p.seeded isError skipped).log)).Walked
    { policy := settings.policy, isError } (p.visits isError settings skipped)
    v.program.bodies
  judged : ∀ g ∈ v.program.functions, (g.map Note.span).Judged settings.checkBodies v.log
    ((g.map Note.span).binding isError).effect g
  interfaces : v.program.interfaces = p.interfaces.map (Interface.noted isError)
  log : (p.seeded isError skipped).log <+: v.log
  faults : forwardingFaults v.log = forwardingFaults (p.seeded isError skipped).log

/-- **Every check comes through sound states only, and judges every function.** -/
theorem Program.check_bodies {p : Program Span} (hp : p.WellNamed) (settings : Settings)
    (isError : String → Bool) (skipped : List Ambiguity) :
    ∃ v, p.check settings isError skipped = .ok v ∧ v.Covers isError settings.checkBodies p ∧
      v.Bodies isError settings p skipped := by
  obtain ⟨gs', s', hrun, hs', hwalked⟩ := checkFunctions_sound
    (V := .all isError p.functions (p.seeded isError skipped).log) hp rfl rfl settings
  obtain ⟨hgrows, hjudged⟩ :=
    ((p.derives settings isError skipped).of_run hrun).judged ⟨rfl, fun _ => rfl⟩
  obtain ⟨v, hv, hcovers⟩ := p.check_run settings isError skipped
  cases (check_eq_of_run hrun).symm.trans hv
  refine ⟨_, check_eq_of_run hrun, hcovers, hwalked, fun g hg => ?_, rfl, hgrows, hs'.faults⟩
  obtain ⟨pair, hpair, hg⟩ := hjudged g hg
  obtain ⟨-, id, hsig⟩ := of_mem_signed hpair
  rw [hsig] at hg
  exact hg.shape.symm ▸ hg

end RaisingEffects
