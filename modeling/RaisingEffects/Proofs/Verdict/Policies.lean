import RaisingEffects.Proofs.Analysis.Narrowing
import RaisingEffects.Proofs.Verdict.Bodies

/-!
# From the compatibility policy to the precise one

A program that the compatibility policy accepts may be refused by the precise one, but only where a
value is put into a collection or assigned to a name, and what is raised at each node becomes
narrower (`Program.check_precise`). The signatures are read alike under both policies, so the
bodies are walked in scopes that differ only in the effects of what the bodies themselves bind.
-/

namespace RaisingEffects

open Analysis

/-! ## Functions -/

theorem FunDecl.judgement_narrows {checkBodies : Bool} (g : FunDecl Span) {declared b b' : Effect}
    (h : b.Narrows b') (hquiet : Quiet (g.judgement checkBodies declared b')) :
    Quiet (g.judgement checkBodies declared b) := by
  unfold judgement at hquiet ⊢
  split at hquiet
  · exact absurd (List.mem_singleton.2 rfl) (hquiet _)
  · rename_i hfits
    rw [if_neg]
    · exact .nil
    · simp only [Bool.and_eq_true, Bool.not_eq_true', not_and, Bool.not_eq_false] at hfits ⊢
      exact fun hcheck => h.fits_trans (hfits hcheck)

theorem FunDecl.AnalysedAll.narrowed {c : Context} (hc : c.Collects) {checkBodies : Bool}
    {pairs : List (FunDecl Span × Signature)} {vs ws : List Visit} {gs gs' : List (FunDecl Note)}
    {s s' t t' : AnalysisState} (hparams : ∀ pair ∈ pairs, ∀ b ∈ pair.2.params, b.Narrows b)
    (h : AnalysedAll (c.under .precise) checkBodies s pairs vs gs s')
    (h' : AnalysedAll (c.under .compatibility) checkBodies t pairs ws gs' t')
    (hclean : t'.Clean) (hs : t.Clean → s.Narrows t) :
    NodesNarrow (gs.flatMap FunDecl.walk) (gs'.flatMap FunDecl.walk) ∧ s'.Narrows t' := by
  induction h generalizing t ws gs' with
  | nil => cases h'; exact ⟨.nil, hs hclean⟩
  | @cons s s₁ _ g sig _ _ _ _ _ hbody _ ih =>
    cases h' with | @cons _ t₁ _ _ _ _ _ _ _ _ hbody' hrest' =>
    obtain ⟨hsig, hrest⟩ := List.forall_mem_cons.1 hparams
    have hcg := hc.within g.name
    -- nothing is found in this body either, nor is its effect refused
    have hgrown := (hrest'.judged (hc.under .compatibility)).1
    obtain ⟨hclean₁, hquiet⟩ := AnalysisState.clean_logged.1 (hclean.earlier hgrown)
    replace hclean₁ : t₁.Clean := hclean₁
    have hgrown := hbody'.log_extends (hcg.under .compatibility)
    replace hs := hs (hclean₁.earlier hgrown)
    obtain ⟨-, hns, hs₁⟩ := hbody.narrowed hcg hbody' hclean₁
      ⟨hs.env.push.defineAll (Env.rel_zip_self _ hsig), hs.aggregates, .nil, hs.placements⟩
    have hb := Effect.Narrows.joinAll hs₁.candidates
    have hjudged := hs₁.placing_quiet (g.judgement_narrows hb hquiet) (some g.name)
    obtain ⟨hxs, hs₂⟩ := ih hrest hrest' fun _ =>
      ⟨hs₁.env.pop, hs₁.aggregates, hs.candidates, hjudged⟩
    refine ⟨NodesNarrow.append (.raising rfl rfl hb ?_) hxs, hs₂⟩
    exact ((NodesNarrow.with_types .nil _).append hns).with_clause _

/-! ## Programs -/

theorem Program.seeded_narrows {isError : String → Bool} {p : Program Span}
    {skipped : List Ambiguity} (hclean : (p.seeded isError skipped).Clean) :
    (p.seeded isError skipped).Narrows (p.seeded isError skipped) where
  env := by
    refine Env.Rel.defineAll (.cons .nil .nil)
      (List.forall₂_same.2 fun entry hentry => ⟨rfl, .same ?_⟩)
    rcases List.mem_append.1 hentry with h | h
    · obtain ⟨d, -, rfl⟩ := List.mem_map.1 h
      rfl
    · obtain ⟨g, -, rfl⟩ := List.mem_map.1 h
      exact FunDecl.binding_aggregate isError g
  aggregates := by
    refine List.forall₂_same.2 fun a ha => ?_
    obtain ⟨g, -, ha⟩ := List.mem_flatMap.1 ha
    obtain ⟨p, -, ha⟩ := List.mem_flatMap.1 ha
    obtain ⟨e, he⟩ := Param.effect_of_mem_aggregates ha
    exact .of_some he he (.refl e)
  candidates := .nil
  placements := fun entry hentry v hv => absurd hv (hclean entry hentry v)

/-! ## Verdicts -/

theorem Cause.kind_of_ofPlacement {cause : Cause} (h : cause.ofPlacement = true) :
    cause.kind = "EffectMismatch" := by
  cases cause with
  | misfit => rfl
  | assignMismatch => rfl
  | _ => cases h

/-- A verdict without diagnostics comes from a log without violations. -/
theorem Verdict.clean_of_diagnostics {v : Verdict} {t : AnalysisState} (hlog : v.log = t.log)
    (h : v.diagnostics = []) : t.Clean := by
  rintro ⟨function, entry⟩ hentry w rfl
  have hnone := List.filterMap_eq_nil_iff.1 h (function, .violation w) (hlog ▸ hentry)
  cases hnone

/-- Whether a node is a call, raise, closure or function. -/
def Node.canRaise {α : Type} : Node α → Bool
  | .expr (.call ..) | .expr (.closure ..) | .stmt (.raise ..) | .function _ => true
  | _ => false

/-- Both nodes stand for the same node of the source. If it is a call, raise, closure or function,
what the first raises fits what the second raises, and nothing is raised by both or by neither. -/
structure Node.Refines (n n' : Node Note) : Prop where
  same : n.map Note.span = n'.map Note.span
  raised : n.canRaise = true → ∃ d e, n.raised? = some d ∧ n'.raised? = some e ∧
    d.fits e = true ∧ (d = .nothrow ↔ e = .nothrow)

theorem Node.Sound.exists_raised {k : Nat} {n : Node Note} (h : n.Sound k)
    (hn : n.canRaise = true) : ∃ d, n.raised? = some d := by
  unfold Node.canRaise at hn
  split at hn
  · exact Option.isSome_iff_exists.1 h
  · obtain ⟨e, he, -⟩ := h
    exact ⟨e, he⟩
  · exact Option.isSome_iff_exists.1 h
  · obtain ⟨-, e, he, -⟩ := h
    exact ⟨e, he⟩
  · cases hn

theorem Node.Narrows.refines {k : Nat} {n n' : Node Note} (h : n.Narrows n') (hsound : n.Sound k)
    (hsame : n.map Note.span = n'.map Note.span) : n.Refines n' where
  same := hsame
  raised := by
    intro hn
    obtain ⟨d, hd⟩ := hsound.exists_raised hn
    obtain ⟨hnone, -⟩ | ⟨d', e, hd', he, hde⟩ := eq_none_or_some_of_rel h
    · rw [hd] at hnone
      cases hnone
    · cases hd'.symm.trans hd
      refine ⟨_, e, hd, he, hde.fits, ?_⟩
      rw [← Effect.isRaising_eq_false, ← Effect.isRaising_eq_false, hde.raising]

theorem forall₂_of_map_eq {α β γ : Type} {f : α → γ} {g : β → γ} {R : α → β → Prop}
    {as : List α} {bs : List β} (h : List.Forall₂ R as bs) (hmap : as.map f = bs.map g) :
    List.Forall₂ (fun a b => f a = g b ∧ R a b) as bs := by
  induction h with
  | nil => exact .nil
  | cons hab _ ih =>
    obtain ⟨hhead, htail⟩ := List.cons.inj hmap
    exact .cons ⟨hhead, hab⟩ (ih htail)

theorem Program.check_narrows (p : Program Span) (checkBodies : Bool) (isError : String → Bool)
    (skipped : List Ambiguity) :
    ∃ v v', p.check { policy := .compatibility, checkBodies } isError skipped = .ok v ∧
      p.check { policy := .precise, checkBodies } isError skipped = .ok v' ∧
      (v.diagnostics = [] → (∀ d ∈ v'.diagnostics, d.cause.ofPlacement = true) ∧
        NodesNarrow v'.program.walk v.program.walk) := by
  have hc : Context.Collects { policy := .precise, isError } := ⟨rfl, fun _ => rfl⟩
  obtain ⟨gs, s', hrun, h⟩ := p.derives { policy := .precise, checkBodies } isError skipped
  obtain ⟨gs', t', hrun', h'⟩ :=
    p.derives { policy := .compatibility, checkBodies } isError skipped
  refine ⟨_, _, check_eq_of_run hrun', check_eq_of_run hrun, fun hclean => ?_⟩
  have hparams : ∀ pair ∈ p.signed isError, ∀ b ∈ pair.2.params, b.Narrows b := by
    intro pair hpair
    obtain ⟨-, id, hsig⟩ := of_mem_signed hpair
    rw [hsig]
    exact Param.bindings_rel (Param.binding_narrows isError) id _
  obtain ⟨hgs, hs'⟩ := h.narrowed hc hparams h' (Verdict.clean_of_diagnostics rfl hclean)
    seeded_narrows
  refine ⟨fun d hd => ?_, .silent rfl rfl (((hgs.append ?_).append ?_).append ?_)⟩
  · obtain ⟨function, w, hw, rfl⟩ := mem_diagnosticsOf.1 hd
    exact hs'.placements _ hw w rfl
  all_goals exact .refl _

/-- **Going over to the precise policy exposes misplaced values only, and narrows all effects.** -/
theorem Program.check_precise {p : Program Span} {checkBodies : Bool} {isError : String → Bool}
    {skipped : List Ambiguity} {v : Verdict}
    (hv : p.check { policy := .compatibility, checkBodies } isError skipped = .ok v)
    (hclean : v.diagnostics = []) :
    ∃ v', p.check { policy := .precise, checkBodies } isError skipped = .ok v' ∧
      (∀ d ∈ v'.diagnostics, d.cause.kind = "EffectMismatch" ∧ d.cause.ofPlacement = true) ∧
      List.Forall₂ Node.Refines v'.program.walk v.program.walk := by
  obtain ⟨w, v', hw, hv', hnarrows⟩ := p.check_narrows checkBodies isError skipped
  cases hv.symm.trans hw
  obtain ⟨hplacements, hnodes⟩ := hnarrows hclean
  obtain ⟨u, hu, hcovers⟩ := p.check_run { policy := .compatibility, checkBodies } isError skipped
  cases hv.symm.trans hu
  obtain ⟨u', hu', hcovers'⟩ := p.check_run { policy := .precise, checkBodies } isError skipped
  cases hv'.symm.trans hu'
  refine ⟨v', hv', fun d hd => ⟨Cause.kind_of_ofPlacement (hplacements d hd), hplacements d hd⟩, ?_⟩
  -- both trees are annotations of `p`, so their nodes correspond
  have hshape : v'.program.walk.map (Node.map Note.span) =
      v.program.walk.map (Node.map Note.span) := by
    rw [← Program.walk_map, ← Program.walk_map, hcovers'.shape, hcovers.shape]
  have hpairs := (List.forall₂_and_left _ _).2 ⟨hcovers'.sound, forall₂_of_map_eq hnodes hshape⟩
  exact hpairs.imp fun n n' ⟨hsound, hsame, hnarrows⟩ => hnarrows.refines hsound hsame

/-- A source whose values are all placed well under the compatibility policy only: an element, an
inserted value and an assigned one raise errors of another type than those before them. -/
def placementSource : String :=
  "error E; error F;
fn main() \x7b
  let xs = [|| \x7b raise E(); \x7d, || \x7b raise F(); \x7d];
  let ys = [];
  ys.append(|| \x7b raise E(); \x7d);
  ys.insert(|| \x7b raise F(); \x7d);
  let mut h = || \x7b raise E(); \x7d;
  h = || \x7b raise F(); \x7d;
  for x in xs \x7b try \x7b x(); h(); \x7d catch e \x7b print(e); \x7d \x7d
\x7d"

set_option maxRecDepth 8192 in
theorem Program.check_precise_placement :
    ∃ r, Program.parse placementSource = .ok r ∧
      ∃ v, r.program.check { policy := .compatibility } r.program.declaresError r.skipped = .ok v ∧
        v.diagnostics = [] ∧
        ∃ v', r.program.check { policy := .precise } r.program.declaresError r.skipped = .ok v' ∧
          v'.diagnostics.map Diagnostic.cause =
            [.misfit ⟨some 1, .raises "F", "list", .raises "E"⟩,
              .misfit ⟨none, .raises "F", "list", .raises "E"⟩,
              .assignMismatch "h" (.raises "E") (.raises "F")] ∧
          (∀ d ∈ v'.diagnostics, d.cause.kind = "EffectMismatch" ∧ d.cause.ofPlacement = true) ∧
          List.Forall₂ Node.Refines v'.program.walk v.program.walk := by
  obtain ⟨r, v, hr, hv, hclean, v', hv', hcauses⟩ := Program.exists_verdict placementSource
    { policy := .compatibility } (fun r v => v.diagnostics = [] ∧ ∃ v',
      r.program.check { policy := .precise } r.program.declaresError r.skipped = .ok v' ∧
        v'.diagnostics.map Diagnostic.cause =
          [.misfit ⟨some 1, .raises "F", "list", .raises "E"⟩,
            .misfit ⟨none, .raises "F", "list", .raises "E"⟩,
            .assignMismatch "h" (.raises "E") (.raises "F")]) rfl (by decide +kernel)
  obtain ⟨w, hw, hplacements, hnodes⟩ := Program.check_precise hv hclean
  cases hv'.symm.trans hw
  exact ⟨r, hr, v, hv, hclean, v', hv', hcauses, hplacements, hnodes⟩

end RaisingEffects
