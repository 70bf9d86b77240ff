import RaisingEffects.Proofs.Verdict.Bodies

/-!
# No raise is missed

Whatever is raised, a raise has a raising effect. This rests on the meanings of names being sound:
a name of an error has a raising effect, however the name was bound. So a function or a closure that
exposes a raise has a raising body, and `Program.check_raises` says what follows for functions that
declare to raise nothing.
-/

namespace RaisingEffects

open Analysis

/-- A node exposes a raise. -/
def Node.ExposesRaise {α : Type} (n : Node α) : Prop :=
  ∃ loc value, n.Exposes (.stmt (.raise loc value))

/-- What a verdict says about raises, and about functions and closures that expose one. -/
structure Verdict.SeesRaises (isError : String → Bool) (checkBodies : Bool) (v : Verdict) :
    Prop where
  raise : ∀ loc value, Node.stmt (.raise loc value) ∈ v.program.walk →
    ∃ e, loc.effect = some e ∧ e.isRaising = true
  function : ∀ g ∈ v.program.functions, (Node.block g.body).ExposesRaise →
    ∃ b, g.loc.bodyEffect = some b ∧ b.isRaising = true ∧
      (checkBodies = true → ((g.map Note.span).binding isError).effect = .nothrow →
        g.loc.effect = some .raisesAny ∧ v.effects.get? g.name = some .raisesAny ∧
        ⟨.functionRaises g.name .nothrow b, some g.name, some g.loc.span.start⟩ ∈ v.diagnostics)
  closure : ∀ loc params clause body, Node.expr (.closure loc params clause body) ∈ v.program.walk →
    (Node.ofBody body).ExposesRaise → ∃ e, loc.effect = some e ∧ e.isRaising = true

namespace Verdict.Bodies

variable {isError : String → Bool} {settings : Settings} {p : Program Span}
  {skipped : List Ambiguity} {v : Verdict} (h : v.Bodies isError settings p skipped)

include h

/-- The effect that is noted at a raise is raising. -/
theorem isRaising_of_raise {loc : Note} {value : Expr Note}
    (hmem : Node.stmt (.raise loc value) ∈ v.program.bodies) {e : Effect}
    (he : loc.effect = some e) : e.isRaising = true :=
  (h.walked.noted _ hmem rfl).2 rfl e he

/-- What bounds the raises and calls that a listed node exposes is raising, if it exposes a
raise. -/
theorem isRaising_of_exposes {n : Node Note} (hn : n ∈ v.program.bodies) (hraise : n.ExposesRaise)
    {e : Effect} (hbounds : n.BoundsExposed e) : e.isRaising = true := by
  obtain ⟨loc, value, hexposes⟩ := hraise
  obtain ⟨d, hd, hfits⟩ := hbounds _ hexposes rfl
  have hmem := v.program.bodies_closed.exposes hn hexposes rfl
  exact Effect.isRaising_of_fits (h.isRaising_of_raise hmem hd) hfits

/-- A function with a raising body that declares to raise nothing is reported. -/
theorem function_reported (hcovers : v.Covers isError settings.checkBodies p) (hp : p.WellNamed)
    {g : FunDecl Note} (hg : g ∈ v.program.functions) {b : Effect}
    (hb : g.loc.bodyEffect = some b) (hraising : b.isRaising = true)
    (hcheck : settings.checkBodies = true)
    (hnothrow : ((g.map Note.span).binding isError).effect = .nothrow) :
    g.loc.effect = some .raisesAny ∧ v.effects.get? g.name = some .raisesAny ∧
      ⟨.functionRaises g.name .nothrow b, some g.name, some g.loc.span.start⟩ ∈ v.diagnostics := by
  obtain ⟨b', hb', heffect, hlog⟩ := (h.judged g hg).effects
  cases hb'.symm.trans hb
  have hmisfit : (settings.checkBodies && !b.fits .nothrow) = true := by
    rw [hcheck, Bool.true_and, Bool.not_eq_true', Bool.eq_false_iff]
    intro hfits
    rw [Effect.fits_nothrow.1 hfits] at hraising
    cases hraising
  rw [hnothrow, Effect.judged, if_pos hmisfit] at heffect
  rw [hnothrow, FunDecl.judgement, if_pos hmisfit] at hlog
  refine ⟨heffect, hcovers.get?_effects hg hp heffect, ?_⟩
  exact mem_diagnosticsOf.2 ⟨_, _, hlog _ (List.mem_singleton.2 rfl), rfl⟩

theorem seesRaises (hcovers : v.Covers isError settings.checkBodies p) (hp : p.WellNamed) :
    v.SeesRaises isError settings.checkBodies where
  raise := by
    intro loc value hmem
    obtain ⟨e, he⟩ := Option.isSome_iff_exists.1 (hcovers.sound _ hmem)
    exact ⟨e, he, h.isRaising_of_raise (Program.mem_bodies hmem rfl) he⟩
  function := by
    intro g hg hraise
    obtain ⟨-, b, hb, hjoin⟩ := hcovers.sound _ (Program.mem_walk_of_mem_functions hg)
    have hmem : Node.block g.body ∈ v.program.bodies :=
      List.mem_flatMap.2 ⟨g, hg, g.body.mem_walk⟩
    have hraising := h.isRaising_of_exposes hmem hraise
      (hjoin.boundsExposed (fun _ => Block.mem_uncaught_iff) (Effect.fits_refl b))
    exact ⟨b, hb, hraising, h.function_reported hcovers hp hg hb hraising⟩
  closure := by
    intro loc params clause body hmem hraise
    obtain ⟨e, he, hbounds⟩ := hcovers.sound _ hmem
    have hbody : Node.ofBody body ∈ v.program.bodies := by
      refine v.program.bodies_closed.below _ (Program.mem_bodies hmem rfl) _
        (List.mem_cons_self ..) ?_
      cases body <;> rfl
    refine ⟨e, he, h.isRaising_of_exposes hbody hraise fun n hn hcontributes => ?_⟩
    exact hbounds n (Body.mem_uncaught_iff.2 ⟨hn, hcontributes⟩)

end Verdict.Bodies

/-- **No raise is missed.** -/
theorem Program.check_raises {source : String} {r : Reading} (h : Program.parse source = .ok r)
    (settings : Settings) (isError : String → Bool) :
    ∃ v, r.program.check settings isError r.skipped = .ok v ∧
      v.program.map Note.span = r.program ∧ v.SeesRaises isError settings.checkBodies := by
  have hp := Program.parse_wellNamed h
  obtain ⟨v, hv, hcovers, hbodies⟩ := Program.check_bodies hp settings isError r.skipped
  exact ⟨v, hv, hcovers.shape, hbodies.seesRaises hcovers hp⟩

/-- A source with a handler of a body that raises nothing, which raises what it caught under another
name. -/
def reraiseSource : String :=
  "fn quiet() \x7b
  try \x7b print(1); \x7d catch e \x7b let f = e; if len(1) == 0 \x7b raise f; \x7d \x7d
\x7d"

theorem Block.exposesRaise_of_uncaught {α : Type} {b : Block α}
    (h : b.uncaught.any Node.isRaise = true) : (Node.block b).ExposesRaise := by
  obtain ⟨n, hn, hraise⟩ := List.any_eq_true.1 h
  unfold Node.isRaise at hraise
  split at hraise
  · exact ⟨_, _, (Block.mem_uncaught_iff.1 hn).1⟩
  · cases hraise

set_option maxRecDepth 8192 in
theorem Program.check_raises_reraise :
    ∃ r v g b, Program.parse reraiseSource = .ok r ∧
      r.program.check {} r.program.declaresError r.skipped = .ok v ∧
      g ∈ v.program.functions ∧ g.name = "quiet" ∧ (Node.block g.body).ExposesRaise ∧
      g.loc.bodyEffect = some b ∧ b.isRaising = true ∧
      v.effects.get? "quiet" = some .raisesAny ∧
      ⟨.functionRaises "quiet" .nothrow b, some "quiet", some g.loc.span.start⟩ ∈
        v.diagnostics := by
  obtain ⟨r, v, hr, hv, g, hmem, hname, hraise, hnothrow⟩ :=
    Program.exists_verdict reraiseSource {} (fun r v => ∃ g ∈ v.program.functions,
      g.name = "quiet" ∧ g.body.uncaught.any Node.isRaise = true ∧
      ((g.map Note.span).binding r.program.declaresError).effect = .nothrow) rfl
        (by decide +kernel)
  obtain ⟨v', hv', -, hsees⟩ := Program.check_raises hr {} r.program.declaresError
  cases hv.symm.trans hv'
  have hexposes := Block.exposesRaise_of_uncaught hraise
  obtain ⟨b, hb, hraising, hreported⟩ := hsees.function g hmem hexposes
  obtain ⟨-, htable, hdiagnostic⟩ := hreported rfl hnothrow
  rw [hname] at htable hdiagnostic
  exact ⟨r, v, g, b, hr, hv, hmem, hname, hexposes, hb, hraising, htable, hdiagnostic⟩

end RaisingEffects
