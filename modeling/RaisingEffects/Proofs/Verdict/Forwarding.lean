import Mathlib.Data.List.Nodup
import RaisingEffects.Proofs.Analysis.Frame
import RaisingEffects.Proofs.Forwarding.CallSite
import RaisingEffects.Proofs.Verdict.Notes

/-!
# Call sites of forwarding functions

A call of a forwarding function gets its effect from the effects of its arguments, by the rule of
the function. This module compares that with what the body of the function raises when its
parameters have the effects of the arguments.

* `Program.bodyUnder` analyses the body of a function under chosen effects of its parameters.
* The call site covers every call of a forwarded parameter in the body, and nothing else: the body
  raises no more than the call site says exactly when this is so of all its other uncaught raises
  and calls (`Program.check_callSites`).
* What the body raises by itself can therefore be missed (`callSite_misses_raise`).
-/

namespace RaisingEffects

/-! ## Chosen effects -/

/-- Whether the chosen effects fit what the parameters of function types are declared with. -/
def FunDecl.allows (isError : String → Bool) (g : FunDecl Span) (choose : String → Effect) : Bool :=
  g.params.all fun p => (p.declared? isError).all fun d => (choose p.name).fits d

/-- The chosen effects of the parameters of function types. -/
def FunDecl.chosenEffects (isError : String → Bool) (g : FunDecl Span)
    (choose : String → Effect) : Table Effect :=
  g.effectsBy fun p => (p.declared? isError).map fun _ => choose p.name

/-- The meaning of a parameter, with the chosen effect if it is a callable. -/
def Binding.choose (choose : String → Effect) (name : String) (b : Binding) : Binding :=
  if b.kind = .callable then .callable (choose name) else b

/-- The parameters with their meanings under the chosen effects. -/
def FunDecl.chosenBindings (g : FunDecl Span) (choose : String → Effect) (bs : List Binding) :
    List (String × Binding) :=
  g.params.zipWith (fun p b => (p.name, b.choose choose p.name)) bs

def Analysis.bodyUnder (choose : String → Effect) (g : FunDecl Span) :
    Analysis (Block Note × Effect) := inScope do
  let bs ← parameterBindings g.params
  defineAll (g.chosenBindings choose bs)
  bodyEffect g.body

/-- The body of a function of the program, and its effect, when the parameters of the function have
the chosen effects. -/
def Program.bodyUnder (p : Program Span) (policy : Policy) (isError : String → Bool)
    (g : FunDecl Span) (choose : String → Effect) : Except Violation (Block Note × Effect) :=
  (do
    Analysis.declareTypes (p.errors ++ p.types)
    let _ ← Analysis.signatures p.functions
    Analysis.within g.name (Analysis.bodyUnder choose g)
    : Analysis (Block Note × Effect)) { policy, isError } {} |>.1

/-- Whether a node calls a forwarded parameter of a function type whose name the body of the
function nowhere binds or assigns. -/
def FunDecl.callsForwarded (isError : String → Bool) (g : FunDecl Span) (n : Node Note) : Bool :=
  g.params.any fun p => n.callee? = some p.name && p.name ∈ g.forwards &&
    (p.declared? isError).isSome && !g.body.binds p.name

/-! ## The parameters in scope -/

section Parameters

variable {isError : String → Bool} {g : FunDecl Span} {choose : String → Effect} {p : Param Span}
  {q : ForwardedParam} {bs : List Binding} {f : Forwarding}

theorem FunDecl.WellNamed.param_eq (hg : g.WellNamed) {p q : Param Span} (hp : p ∈ g.params)
    (hq : q ∈ g.params) (h : p.name = q.name) : p = q :=
  List.inj_on_of_nodup_map hg.nodup hp hq h

/-- The effect of a parameter can be looked up under its name. -/
theorem FunDecl.get?_effectsBy (hg : g.WellNamed) (k : Param Span → Option Effect)
    (hp : p ∈ g.params) : (g.effectsBy k).get? p.name = k p := by
  have hentry {entry : String × Effect}
      (h : entry ∈ g.params.filterMap fun p => (k p).map fun e => (p.name, e))
      (hname : entry.1 = p.name) : k p = some entry.2 := by
    obtain ⟨q, hq, hkq⟩ := List.mem_filterMap.1 h
    obtain ⟨e, he, rfl⟩ := Option.map_eq_some_iff.1 hkq
    rw [← hg.param_eq hq hp hname, he]
  cases hk : k p with
  | some e =>
    refine Table.get?_ofEntries_of_forall ?_ fun entry h hname => ?_
    · exact List.mem_filterMap.2 ⟨p, hp, by rw [hk]; rfl⟩
    · rw [hentry h hname, Option.some.injEq] at hk
      exact hk
  | none =>
    cases hget : (g.effectsBy k).get? p.name with
    | none => rfl
    | some e =>
      rw [hentry (Table.mem_ofEntries (Table.mem_of_get? hget)) rfl] at hk
      cases hk

theorem Binding.choose_of_expected {b : Binding} {d : Effect} {name : String}
    (h : Analysis.expectedEffect b = some d) : b.choose choose name = .callable (choose name) := by
  unfold Analysis.expectedEffect at h
  split at h
  · rename_i hkind
    rw [Binding.choose, if_pos hkind]
  · cases h

/-- The parameters stand with the bindings that are made for them. -/
theorem zip_bindings {ps : List (Param Span)}
    (hbs : bs.map Analysis.expectedEffect = ps.map (Param.declared? isError)) :
    (ps.zip bs).map Prod.fst = ps ∧
      ∀ x ∈ ps.zip bs, Analysis.expectedEffect x.2 = x.1.declared? isError := by
  induction ps generalizing bs with
  | nil => simp
  | cons q ps ih =>
    cases bs with
    | nil => cases hbs
    | cons b bs =>
      obtain ⟨hb, hrest⟩ := List.cons.inj hbs
      obtain ⟨hps, hall⟩ := ih hrest
      exact ⟨congrArg (List.cons q) hps, List.forall_mem_cons.2 ⟨hb, hall⟩⟩

/-- In a scope of its own, a parameter of a function type means a callable of the chosen effect. -/
theorem FunDecl.lookup_chosenBindings (hg : g.WellNamed)
    (hbs : bs.map Analysis.expectedEffect = g.params.map (Param.declared? isError))
    (hp : p ∈ g.params) (hd : (p.declared? isError).isSome = true) (env : Env) :
    (Env.defineAll ([] :: env) (g.chosenBindings choose bs)).lookup p.name =
      some (.callable (choose p.name)) := by
  obtain ⟨d, hd⟩ := Option.isSome_iff_exists.1 hd
  have hget : (Table.ofEntries (g.chosenBindings choose bs)).get? p.name =
      some (.callable (choose p.name)) := by
    obtain ⟨hparams, hall⟩ := zip_bindings hbs
    rw [FunDecl.chosenBindings, ← List.map_uncurry_zip_eq_zipWith]
    refine Table.get?_ofEntries_of_forall ?_ fun entry h hname => ?_
    · obtain ⟨⟨_, b⟩, hx, rfl⟩ := List.mem_map.1 (hparams.symm ▸ hp)
      refine List.mem_map.2 ⟨_, hx, congrArg (Prod.mk _) ?_⟩
      exact Binding.choose_of_expected ((hall _ hx).trans hd)
    · obtain ⟨⟨q, b⟩, hx, rfl⟩ := List.mem_map.1 h
      obtain rfl := hg.param_eq (List.of_mem_zip hx).1 hp hname
      exact Binding.choose_of_expected ((hall _ hx).trans hd)
  rw [Env.defineAll_cons, Env.lookup_cons]
  exact congrArg (Option.or · _) hget

/-! ## The rule and the body -/

theorem Analysis.resolveFunction_eq_ok {effects : Table Effect} {e : Effect}
    (h : resolveFunction g effects = .ok (f, e)) :
    Forwarding.ofFunction g effects = .ok f ∧ f.resolve effects = .ok e := by
  obtain ⟨f', hf, h⟩ := except_bind_eq_ok h
  obtain ⟨e', he, h⟩ := except_bind_eq_ok h
  cases h
  exact ⟨hf, he⟩

theorem Analysis.resolveFunction_eq_error {effects : Table Effect} {v : Violation}
    (h : resolveFunction g effects = .error v) :
    v = { cause := .forwardsNothing g.name, pos := some g.loc.start } ∨
      ∃ f, Forwarding.ofFunction g effects = .ok f ∧ f.resolve effects = .error v := by
  rcases except_bind_eq_error h with hf | ⟨f, hf, h⟩
  · exact .inl (Forwarding.ofFunction_eq_error hf)
  · rcases except_bind_eq_error h with he | ⟨e, -, h⟩
    · exact .inr ⟨f, hf, he⟩
    · cases h

variable (hg : g.WellNamed) {e₀ : Effect}

include hg

/-- A parameter of the rule of a function is a parameter of the function, with its declared
effect. -/
theorem FunDecl.exists_param
    (hrule : Forwarding.ofFunction g (g.declaredEffects isError) = .ok f) (hq : q ∈ f.params) :
    ∃ p ∈ g.params, p.name = q.name ∧ q.effect = (p.declared? isError).getD .nothrow := by
  rw [(Forwarding.ofFunction_eq_ok hrule).1] at hq
  obtain ⟨name, hname, rfl⟩ := List.mem_map.1 hq
  obtain ⟨p, hp, rfl⟩ := List.mem_map.1 (hg.forwards name hname)
  refine ⟨p, hp, rfl, ?_⟩
  show ((g.declaredEffects isError).get? p.name).getD .nothrow = _
  rw [FunDecl.declaredEffects, FunDecl.get?_effectsBy hg _ hp]

theorem FunDecl.effectOf_effectsBy (k : Param Span → Option Effect) (hp : p ∈ g.params)
    (hname : p.name = q.name) :
    Forwarding.effectOf (g.effectsBy k) q = (k p).getD q.effect := by
  rw [Forwarding.effectOf, ← hname, FunDecl.get?_effectsBy hg k hp]

/-- The rule of a function has an effect for chosen effects that the function allows, and what a
forwarded parameter of a function type lets escape fits it. -/
theorem FunDecl.callSite_chosen
    (hresolve : Analysis.resolveFunction g (g.declaredEffects isError) = .ok (f, e₀))
    (hallows : g.allows isError choose = true) :
    ∃ cs, f.callSite (g.chosenEffects isError choose) = .ok cs ∧
      ∀ p ∈ g.params, p.name ∈ g.forwards → (p.declared? isError).isSome = true →
        escapes p.name (g.body.raisePaths g.forwards) = true → (choose p.name).fits cs = true := by
  obtain ⟨hrule, hresolve⟩ := Analysis.resolveFunction_eq_ok hresolve
  obtain ⟨hparams, hpaths⟩ := Forwarding.ofFunction_eq_ok hrule
  have hsame : ∀ q ∈ f.params, ∀ q' ∈ f.params, q.name = q'.name → q.effect = q'.effect :=
    fun q hq q' hq' hname =>
      congrArg ForwardedParam.effect (Forwarding.param_eq_of_ofFunction hrule hq hq' hname)
  have hchosen : ∀ q ∈ f.params,
      (Forwarding.effectOf (g.chosenEffects isError choose) q).fits q.effect = true := by
    intro q hq
    obtain ⟨p, hp, hpq, heffect⟩ := FunDecl.exists_param hg hrule hq
    rw [FunDecl.chosenEffects, FunDecl.effectOf_effectsBy hg _ hp hpq, heffect]
    have hfits := List.all_eq_true.1 hallows p hp
    cases hd : p.declared? isError with
    | none => simp
    | some d =>
      rw [hd] at hfits
      exact hfits
  obtain ⟨cs, hcs, hfits⟩ := Forwarding.callSite_of_fits hsame
    (fun _ hq => Forwarding.effectOf_of_ofFunction hrule hq) hresolve hchosen
  refine ⟨cs, hcs, fun p hp hforwards hd hescapes => ?_⟩
  obtain ⟨q, hq, hname⟩ : ∃ q ∈ f.params, p.name = q.name := by
    rw [hparams]
    exact ⟨_, List.mem_map.2 ⟨p.name, hforwards, rfl⟩, rfl⟩
  obtain ⟨d, hd⟩ := Option.isSome_iff_exists.1 hd
  have hq' := hfits q hq (by rwa [← hname, hpaths])
  rwa [FunDecl.chosenEffects, FunDecl.effectOf_effectsBy hg _ hp hname, hd] at hq'

/-- The position that a rule has for a parameter is that of the parameter of the function. -/
theorem FunDecl.exists_param_at
    (hrule : Forwarding.ofFunction g (g.declaredEffects isError) = .ok f) (hq : q ∈ f.params) :
    ∃ p, g.params[q.position]? = some p ∧ q.effect = (p.declared? isError).getD .nothrow := by
  obtain ⟨p, hp, hname, heffect⟩ := FunDecl.exists_param hg hrule hq
  rw [(Forwarding.ofFunction_eq_ok hrule).1] at hq
  obtain ⟨name, -, rfl⟩ := List.mem_map.1 hq
  obtain rfl : p.name = name := hname
  have hlt : g.params.findIdx (fun q => q.name = p.name) < g.params.length :=
    List.findIdx_lt_length_of_exists ⟨p, hp, by simp⟩
  have hfound := List.findIdx_getElem (w := hlt)
  have hsame := hg.param_eq (List.getElem_mem hlt) hp (by simpa using hfound)
  exact ⟨p, by rw [List.getElem?_eq_getElem hlt, hsame], heffect⟩

/-- **A call of a forwarding function whose arguments fit its parameters has an effect, which fits
that of the signature.** Only arguments for parameters of function types need to fit. -/
theorem FunDecl.callSite_arguments
    (hresolve : Analysis.resolveFunction g (g.declaredEffects isError) = .ok (f, e₀))
    {arguments : List Effect}
    (hfits : ∀ (i : Nat) (d a : Effect),
      (g.params.map (Param.declared? isError))[i]? = some (some d) →
        arguments[i]? = some a → a.fits d = true) :
    ∃ e, f.callSite (Analysis.forwardedEffects f arguments) = .ok e ∧ e.fits e₀ = true := by
  obtain ⟨hrule, hresolve⟩ := Analysis.resolveFunction_eq_ok hresolve
  have heffect {q : ForwardedParam} (hq : q ∈ f.params) :
      Forwarding.effectOf (Analysis.forwardedEffects f arguments) q =
        (arguments[q.position]?).getD q.effect := by
    have hget : (Analysis.forwardedEffects f arguments).get? q.name =
        some ((arguments[q.position]?).getD q.effect) := by
      refine Table.get?_ofEntries_of_forall (List.mem_map.2 ⟨q, hq, rfl⟩) fun entry h hname => ?_
      obtain ⟨q', hq', rfl⟩ := List.mem_map.1 h
      rw [Forwarding.param_eq_of_ofFunction hrule hq' hq hname]
    rw [Forwarding.effectOf, hget, Option.getD_some]
  refine Forwarding.callSite_fits (fun q hq q' hq' hname => ?_)
    (fun _ hq => Forwarding.effectOf_of_ofFunction hrule hq) (fun q hq hraising => ?_) hresolve
  · rw [Forwarding.param_eq_of_ofFunction hrule hq hq' hname]
  · rw [heffect hq]
    obtain ⟨p, hp, hdeclared⟩ := FunDecl.exists_param_at hg hrule hq
    cases ha : arguments[q.position]? with
    | none => exact Effect.fits_refl _
    | some a =>
      refine hfits q.position q.effect a ?_ ha
      rw [List.getElem?_map, hp, Option.map_some, hdeclared]
      -- what raises nothing is no parameter of a function type here
      cases hd : p.declared? isError with
      | some d => rfl
      | none =>
        rw [hdeclared, hd] at hraising
        cases hraising

omit hg in
/-- **The body of a forwarding function under chosen effects raises no more than the call site says
exactly when this is so of what is uncaught in it apart from the calls of forwarded parameters.** -/
theorem Analysis.bodyUnder_yields {c : Context} (hc : c.Collects) (hg : g.WellNamed)
    {cs : Effect} (hfits : ∀ p ∈ g.params, p.name ∈ g.forwards →
      (p.declared? c.isError).isSome = true →
      escapes p.name (g.body.raisePaths g.forwards) = true → (choose p.name).fits cs = true)
    (s : AnalysisState) :
    Yields c s (bodyUnder choose g) fun r _ => r.1.map Note.span = g.body ∧
      (r.2.fits cs = true ↔ ∀ n ∈ r.1.uncaught, g.callsForwarded c.isError n = false →
        ∃ d, n.effect? = some d ∧ d.fits cs = true) := by
  refine .inScope ((parameterBindings_yields hc.failFast g.params _).bind fun bs s₁ h₁ => ?_)
  obtain ⟨hbs, new, entries, rfl⟩ := h₁
  refine (defineAll_yields _ _).bind fun _ s₂ h₂ => ?_
  subst h₂
  refine ((bodyEffect_traced hc g.body _).all (p := fun x => g.body.binds x = false)
    fun x hx => bodyEffect_kept hc hx _).mono fun r s₃ h₃ => ?_
  obtain ⟨⟨⟨hshape, hjoin⟩, -⟩, hkept⟩ := h₃
  refine ⟨hshape, hjoin.fits_iff.trans ⟨fun h n hn _ => h n hn, fun h n hn => ?_⟩⟩
  cases hcalls : g.callsForwarded c.isError n with
  | false => exact h n hn hcalls
  | true =>
    obtain ⟨p, hp, hcall⟩ := List.any_eq_true.1 hcalls
    obtain ⟨⟨⟨hcallee, hforwards⟩, hd⟩, hbinds⟩ : ((n.callee? = some p.name ∧
        p.name ∈ g.forwards) ∧ (p.declared? c.isError).isSome = true) ∧
        g.body.binds p.name = false := by simpa using hcall
    refine ⟨choose p.name, ?_, hfits p hp hforwards hd ?_⟩
    · exact (hkept p.name hbinds).calls _ (g.lookup_chosenBindings hg hbs hp hd _) n hn hcallee
    · rw [← hshape]
      exact Part.escapes_of_uncaught Note.span hforwards hcallee (.block r.1) hn

end Parameters

/-! ## Programs -/

/-- Under chosen effects, the call site of a forwarding function of the program has an effect, and
its body fits that effect exactly when everything uncaught in it does, calls of forwarded parameters
apart. -/
def Program.CallSiteCovers (p : Program Span) (policy : Policy) (isError : String → Bool)
    (g : FunDecl Span) (f : Forwarding) (choose : String → Effect) : Prop :=
  ∃ body e cs, p.bodyUnder policy isError g choose = .ok (body, e) ∧
    body.map Note.span = g.body ∧
    f.callSite (g.chosenEffects isError choose) = .ok cs ∧
    (e.fits cs = true ↔ ∀ n, (Node.block body).Exposes n → n.contributes = true →
      g.callsForwarded isError n = false → ∃ d, n.effect? = some d ∧ d.fits cs = true)

theorem Program.callSiteCovers (p : Program Span) (policy : Policy) {isError : String → Bool}
    {g : FunDecl Span} (hg : g.WellNamed) {f : Forwarding} {e₀ : Effect}
    (hresolve : Analysis.resolveFunction g (g.declaredEffects isError) = .ok (f, e₀))
    {choose : String → Effect} (hallows : g.allows isError choose = true) :
    p.CallSiteCovers policy isError g f choose := by
  obtain ⟨cs, hcs, hfits⟩ := g.callSite_chosen hg hresolve hallows
  have hc : Context.Collects { policy, isError } := ⟨rfl, fun _ => rfl⟩
  have hrun : Analysis.Yields { policy, isError } {} (do
      Analysis.declareTypes (p.errors ++ p.types)
      let _ ← Analysis.signatures p.functions
      Analysis.within g.name (Analysis.bodyUnder choose g)) fun r _ =>
      r.1.map Note.span = g.body ∧
        (r.2.fits cs = true ↔ ∀ n ∈ r.1.uncaught, g.callsForwarded isError n = false →
          ∃ d, n.effect? = some d ∧ d.fits cs = true) := by
    refine .after (Analysis.declareTypes_eq _ _) (.after (Analysis.signatures_eq rfl _ _) ?_)
    exact .within (Analysis.bodyUnder_yields (hc.within g.name) hg hfits _)
  obtain ⟨⟨body, e⟩, s', hbody, hshape, hiff⟩ := hrun
  refine ⟨body, e, cs, by rw [Program.bodyUnder, hbody], hshape, hcs, hiff.trans ?_⟩
  constructor
  · exact fun h n hn hcontributes => h n (Block.mem_uncaught_iff.2 ⟨hn, hcontributes⟩)
  · intro h n hn
    obtain ⟨hexposed, hcontributes⟩ := Block.mem_uncaught_iff.1 hn
    exact h n hexposed hcontributes

theorem FunDecl.WellNamed.of_mem {r : Reading} {source : String}
    (h : Program.parse source = .ok r) {v : Verdict} (hshape : v.program.map Note.span = r.program)
    {g : FunDecl Note} (hg : g ∈ v.program.functions) : (g.map Note.span).WellNamed := by
  refine (Program.parse_wellNamed h).functions _ ?_
  rw [← hshape]
  exact List.mem_map_of_mem hg

/-- **Call sites account for the forwarded parameters, and for nothing else in the body.** -/
theorem Program.check_callSites {source : String} {r : Reading}
    (h : Program.parse source = .ok r) (settings : Settings) (isError : String → Bool) :
    ∃ v, r.program.check settings isError r.skipped = .ok v ∧
      v.program.map Note.span = r.program ∧
      ∀ g ∈ v.program.functions, ∀ f, g.loc.forwarding = some f → ∀ choose : String → Effect,
        (g.map Note.span).allows isError choose = true →
        r.program.CallSiteCovers settings.policy isError (g.map Note.span) f choose := by
  obtain ⟨v, hv, hcovers⟩ := r.program.check_run settings isError r.skipped
  refine ⟨v, hv, hcovers.shape, fun g hg f hf choose hallows => ?_⟩
  obtain ⟨e₀, hresolve⟩ := (hcovers.functions g hg).forwarding f hf
  exact r.program.callSiteCovers _ (.of_mem h hcovers.shape hg) hresolve hallows

set_option maxRecDepth 8192 in
theorem Program.check_callSites_nested :
    ∃ r v g f, Program.parse nestedSource = .ok r ∧
      r.program.check {} r.program.declaresError r.skipped = .ok v ∧
      g ∈ v.program.functions ∧ g.name = "pick" ∧ g.loc.forwarding = some f ∧
      r.program.CallSiteCovers .compatibility r.program.declaresError (g.map Note.span) f
        (fun name => if name = "g" then .raises "E" else .nothrow) := by
  obtain ⟨r, v, hr, hv, g, hg, hname, hforwarding, hallows⟩ :=
    Program.exists_verdict nestedSource {} (fun r v => ∃ g ∈ v.program.functions,
      g.name = "pick" ∧ g.loc.forwarding.isSome ∧ (g.map Note.span).allows r.program.declaresError
        fun name => if name = "g" then .raises "E" else .nothrow) rfl (by decide +kernel)
  obtain ⟨f, hf⟩ := Option.isSome_iff_exists.1 hforwarding
  obtain ⟨v', hv', -, hcovers⟩ := Program.check_callSites hr {} r.program.declaresError
  cases hv.symm.trans hv'
  exact ⟨r, v, g, f, hr, hv, hg, hname, hf, hcovers g hg f hf _ hallows⟩

/-! ## What a call site misses -/

/-- A forwarding function that raises by itself. -/
def ownRaiseSource : String :=
  "error E; fn f(g: fn() raises(E)) forwards(g) \x7b raise E(); \x7d"

/-- A body that raises by itself raises more than the call site says, and nothing is reported. -/
theorem callSite_misses_raise :
    ∃ r v g f body e cs, Program.parse ownRaiseSource = .ok r ∧
      r.program.check {} r.program.declaresError r.skipped = .ok v ∧ v.diagnostics = [] ∧
      g ∈ v.program.functions ∧ g.loc.forwarding = some f ∧
      (g.map Note.span).allows r.program.declaresError (fun _ => .nothrow) = true ∧
      r.program.bodyUnder .compatibility r.program.declaresError (g.map Note.span)
        (fun _ => .nothrow) = .ok (body, e) ∧
      f.callSite ((g.map Note.span).chosenEffects r.program.declaresError fun _ => .nothrow) =
        .ok cs ∧
      e.fits cs = false := by
  obtain ⟨r, v, hr, hv, hclean, g, hg, f, hf, hallows, ⟨body, e⟩, hbody, cs, hcs, hfits⟩ :=
    Program.exists_verdict ownRaiseSource {} (fun r v => v.diagnostics = [] ∧
      ∃ g ∈ v.program.functions, ∃ f ∈ g.loc.forwarding,
        (g.map Note.span).allows r.program.declaresError (fun _ => .nothrow) = true ∧
        ∃ body, r.program.bodyUnder .compatibility r.program.declaresError (g.map Note.span)
          (fun _ => .nothrow) = .ok body ∧
        ∃ cs, f.callSite ((g.map Note.span).chosenEffects r.program.declaresError
          fun _ => .nothrow) = .ok cs ∧ body.2.fits cs = false) rfl (by decide +kernel)
  exact ⟨r, v, g, f, body, e, cs, hr, hv, hclean, hg, hf, hallows, hbody, hcs, hfits⟩

end RaisingEffects
