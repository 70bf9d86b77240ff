import RaisingEffects.Proofs.Effect.Order
import RaisingEffects.Proofs.Forwarding.Flags
import RaisingEffects.Proofs.Table
import RaisingEffects.Proofs.Tree.Uncaught

/-!
# What call sites account for

A call of a forwarding function gets its effect from the rule of the function and the effects of
the arguments, without a look at the body. Two facts tie that to the body.

* A call of a forwarded parameter that is uncaught in the body is a raise path that is not converted
  (`Part.escapes_of_uncaught`).
* If the arguments fit what the parameters are declared with, the call has an effect, and what an
  unconverted path raises fits it (`Forwarding.callSite_of_fits`). The effect fits that of the rule,
  and for this only the parameters that are declared to raise matter (`Forwarding.callSite_fits`).
-/

namespace RaisingEffects

/-- Whether the paths have a call of the parameter that is not converted. -/
def escapes (x : String) (paths : List RaisePath) : Bool :=
  paths.any fun p => p.parameter = x && !p.converted

theorem escapes_cons (x : String) (p : RaisePath) (paths : List RaisePath) :
    escapes x (p :: paths) = ((p.parameter = x && !p.converted) || escapes x paths) := List.any_cons

theorem escapes_append (x : String) (paths more : List RaisePath) :
    escapes x (paths ++ more) = (escapes x paths || escapes x more) := List.any_append

/-! ## Paths of uncaught calls -/

/-- **An uncaught call of one of the names is a path that is not converted.** -/
theorem Part.escapes_of_uncaught {α : Type} (f : α → Span) {names : List String} {x : String}
    {n : Node α} (hx : x ∈ names) (hn : n.callee? = some x) (t : Part α) (h : n ∈ t.uncaught) :
    escapes x ((t.map f).raisePaths names false) = true := by
  induction t using Part.induction <;>
    grind [uncaught, raisePaths, map, Node.callee?, escapes_cons, escapes_append, Expr.uncaught,
      Expr.uncaughtAll, Expr.raisePaths, Expr.map, Expr.raisePathsAll, Expr.mapAll, Body.map,
      Body.uncaught, Block.uncaught, Block.raisePathsFrom, Block.map, Stmt.uncaught,
      Stmt.uncaughtAll, Stmt.raisePaths, Stmt.map, Stmt.raisePathsAll, Stmt.mapAll, Else.uncaught,
      Else.raisePaths, Else.map]

/-! ## Effects of calls -/

namespace Forwarding

theorem unhandled?_eq_none_iff {used : Table Effect} {target : Effect} {paths : List RaisePath} :
    unhandled? used target paths = none ↔
      ∀ p ∈ paths, p.converted = false → ∀ e, used.get? p.parameter = some e →
        e.fits target = true := by
  rw [unhandled?, List.findSome?_eq_none_iff]
  refine forall₂_congr fun p _ => ?_
  cases used.get? p.parameter with
  | none => simp
  | some e => cases p.converted <;> simp

theorem of_unhandled? {used : Table Effect} {target : Effect} {paths : List RaisePath}
    {p : RaisePath} {e : Effect} (h : unhandled? used target paths = some (p, e)) :
    p ∈ paths ∧ used.get? p.parameter = some e := by
  obtain ⟨q, hq, hfound⟩ := List.exists_of_findSome?_eq_some h
  split at hfound
  · cases hfound
  · rename_i hget
    split at hfound <;> cases hfound
    exact ⟨hq, hget⟩

/-- A rule that cannot be resolved has a target, and names a parameter that is declared to raise. It
is at fault where the function stands, or where the parameter is called in a body that converts. -/
theorem resolve_eq_error {f : Forwarding} {effects : Table Effect} {v : Violation}
    (h : f.resolve effects = .error v) :
    ∃ target name e, f.target = some target ∧ (name, e) ∈ f.raisingEffects effects ∧
      ((∃ p ∈ f.paths,
          v = { cause := .unhandledPath f.function name target e
                pos := (p.span <|> f.span).map Span.start }) ∨
        v = { cause := .passMismatch f.function name target e
              pos := f.span.map Span.start }) := by
  unfold resolve at h
  dsimp only at h
  split at h
  · cases h
  · rename_i target htarget
    split at h
    · split at h <;> cases h
      rename_i p e hunhandled
      obtain ⟨hp, hget⟩ := of_unhandled? hunhandled
      exact ⟨target, p.parameter, e, htarget, Table.mem_of_get? hget, .inl ⟨p, hp, rfl⟩⟩
    · split at h <;> cases h
      rename_i name e hfind
      exact ⟨target, name, e, htarget, List.mem_of_find?_eq_some hfind, .inr rfl⟩

/-- The effects of the parameters that are declared to raise fit the target; if the body converts,
only those that escape need to. -/
def Keeps (f : Forwarding) (effects : Table Effect) (target : String) : Prop :=
  ∀ p ∈ f.params, p.effect.isRaising = true →
    (f.converts = true → escapes p.name f.paths = true) →
    (effectOf effects p).fits (.raises target) = true

section Resolve

variable {f : Forwarding} {declared chosen : Table Effect}
  (hsame : ∀ p ∈ f.params, ∀ q ∈ f.params, p.name = q.name → p.effect = q.effect) {e₀ : Effect}

include hsame

/-- The effect used for a parameter that is declared to raise can be looked up under its name. -/
theorem get?_raisingEffects (effects : Table Effect) {p : ForwardedParam} (hp : p ∈ f.params)
    (hraising : p.effect.isRaising = true) :
    (f.raisingEffects effects).get? p.name = some (effectOf effects p) := by
  refine Table.get?_ofEntries_of_forall ?_ fun entry hentry hname => ?_
  · exact List.mem_map.2 ⟨p, List.mem_filter.2 ⟨hp, hraising⟩, rfl⟩
  · obtain ⟨q, hq, rfl⟩ := List.mem_map.1 hentry
    have heffect : q.effect = p.effect := hsame q (List.mem_filter.1 hq).1 p hp hname
    show effectOf effects q = effectOf effects p
    rw [effectOf, effectOf, heffect, show q.name = p.name from hname]

omit hsame in
theorem exists_of_mem_raisingEffects {effects : Table Effect} {name : String} {e : Effect}
    (h : (name, e) ∈ f.raisingEffects effects) :
    ∃ p ∈ f.params, p.effect.isRaising = true ∧ p.name = name ∧ e = effectOf effects p := by
  obtain ⟨p, hp, hentry⟩ := List.mem_map.1 (Table.mem_ofEntries h)
  cases hentry
  exact ⟨p, (List.mem_filter.1 hp).1, (List.mem_filter.1 hp).2, rfl, rfl⟩

/-- With a target, the rule is resolved exactly when it keeps to the target. -/
theorem resolve_eq_ok_iff {target : String} (htarget : f.target = some target)
    {effects : Table Effect} {e : Effect} :
    f.resolve effects = .ok e ↔ e = .raises target ∧ f.Keeps effects target := by
  have hget {p : ForwardedParam} (hp : p ∈ f.params) (hraising : p.effect.isRaising = true) :=
    get?_raisingEffects hsame effects hp hraising
  unfold resolve
  rw [htarget]
  dsimp only
  split
  · rename_i hconverts
    have hiff : unhandled? (f.raisingEffects effects) (.raises target) f.paths = none ↔
        f.Keeps effects target := by
      rw [unhandled?_eq_none_iff]
      constructor
      · intro h p hp hraising hescapes
        obtain ⟨path, hpath, hp'⟩ := List.any_eq_true.1 (hescapes hconverts)
        obtain ⟨hname, hconverted⟩ : path.parameter = p.name ∧ path.converted = false := by
          simpa using hp'
        exact h path hpath hconverted _ (hname ▸ hget hp hraising)
      · intro h path hpath hconverted d hd
        obtain ⟨p, hp, hraising, hname, rfl⟩ := exists_of_mem_raisingEffects (Table.mem_of_get? hd)
        refine h p hp hraising fun _ => List.any_eq_true.2 ⟨path, hpath, ?_⟩
        simp [hname, hconverted]
    rw [← hiff]
    cases unhandled? (f.raisingEffects effects) (.raises target) f.paths <;>
      simp [eq_comm]
  · rename_i hconverts
    have hiff : ((f.raisingEffects effects).find? fun entry =>
          !entry.2.fits (.raises target)) = none ↔ f.Keeps effects target := by
      rw [List.find?_eq_none]
      constructor
      · intro h p hp hraising _
        simpa using h _ (Table.mem_of_get? (hget hp hraising))
      · intro h entry hentry
        obtain ⟨p, hp, hraising, -, he⟩ := exists_of_mem_raisingEffects hentry
        simp [he, h p hp hraising fun hc => absurd hc hconverts]
    rw [← hiff]
    cases (f.raisingEffects effects).find? fun entry => !entry.2.fits (.raises target) <;>
      simp [eq_comm]

variable (hdeclared : ∀ p ∈ f.params, effectOf declared p = p.effect)
  (hchosen : ∀ p ∈ f.params, p.effect.isRaising = true → (effectOf chosen p).fits p.effect = true)
  (hresolve : f.resolve declared = .ok e₀)

include hdeclared hchosen hresolve

/-- A rule that is resolved for the declared effects is resolved for effects that fit them. The
outcome fits the declared one, and what escapes through an unconverted path fits the outcome. -/
theorem resolve_of_fits :
    ∃ e, f.resolve chosen = .ok e ∧ e.fits e₀ = true ∧
      ∀ p ∈ f.params, p.effect.isRaising = true →
        escapes p.name f.paths = true → (effectOf chosen p).fits e = true := by
  cases htarget : f.target with
  | none =>
    have hmem (effects : Table Effect) {p : ForwardedParam} (hp : p ∈ f.params)
        (hraising : p.effect.isRaising = true) :
        effectOf effects p ∈ (f.raisingEffects effects).map Prod.snd :=
      List.mem_map.2 ⟨_, Table.mem_of_get? (get?_raisingEffects hsame effects hp hraising), rfl⟩
    refine ⟨.joinAll ((f.raisingEffects chosen).map Prod.snd), by rw [resolve, htarget], ?_, ?_⟩
    · rw [resolve, htarget, Except.ok.injEq] at hresolve
      rw [← hresolve, Effect.joinAll_fits_iff]
      intro d hd
      obtain ⟨entry, hentry, rfl⟩ := List.mem_map.1 hd
      obtain ⟨p, hp, hraising, -, he⟩ := exists_of_mem_raisingEffects hentry
      have hp' := Effect.fits_joinAll (hmem declared hp hraising)
      rw [hdeclared p hp] at hp'
      rw [he]
      exact Effect.fits_trans (hchosen p hp hraising) hp'
    · intro p hp hraising _
      exact Effect.fits_joinAll (hmem chosen hp hraising)
  | some target =>
    obtain ⟨rfl, hall⟩ := (resolve_eq_ok_iff hsame htarget).1 hresolve
    -- fitting the target is inherited from the declared effects
    have hfits : f.Keeps chosen target := by
      intro p hp hraising hescapes
      have hd := hall p hp hraising hescapes
      rw [hdeclared p hp] at hd
      exact Effect.fits_trans (hchosen p hp hraising) hd
    refine ⟨.raises target, (resolve_eq_ok_iff hsame htarget).2 ⟨rfl, hfits⟩, by simp, ?_⟩
    exact fun p hp hraising hescapes => hfits p hp hraising fun _ => hescapes

/-- **A call whose arguments fit the parameters that are declared to raise has an effect, which fits
that of the rule.** -/
theorem callSite_fits :
    ∃ e, f.callSite chosen = .ok e ∧ e.fits e₀ = true := by
  unfold callSite
  split
  · obtain ⟨e, he, hfits, -⟩ := resolve_of_fits hsame hdeclared hchosen hresolve
    exact ⟨e, he, hfits⟩
  · exact ⟨.nothrow, rfl, Effect.nothrow_fits _⟩

omit hchosen in
/-- **A call whose arguments fit the declared effects has an effect, and what escapes through an
unconverted path fits it.** -/
theorem callSite_of_fits (hall : ∀ p ∈ f.params, (effectOf chosen p).fits p.effect = true) :
    ∃ e, f.callSite chosen = .ok e ∧ ∀ p ∈ f.params, escapes p.name f.paths = true →
      (effectOf chosen p).fits e = true := by
  unfold callSite
  split
  · obtain ⟨e, he, -, hfits⟩ :=
      resolve_of_fits hsame hdeclared (fun p hp _ => hall p hp) hresolve
    refine ⟨e, he, fun p hp hescapes => ?_⟩
    cases hraising : p.effect.isRaising with
    | true => exact hfits p hp hraising hescapes
    | false =>
      have hp' := hall p hp
      rw [Effect.isRaising_eq_false.1 hraising, Effect.fits_nothrow] at hp'
      rw [hp', Effect.nothrow_fits]
  · rename_i hnone
    refine ⟨.nothrow, rfl, fun p hp _ => ?_⟩
    have hp' : (effectOf chosen p).isRaising = false := by
      simpa using (List.any_eq_false.1 (Bool.eq_false_iff.2 hnone)) p hp
    rw [Effect.isRaising_eq_false.1 hp', Effect.nothrow_fits]

end Resolve

/-- What the rule of a declaration is made from. -/
theorem ofFunction_eq_ok {g : FunDecl Span} {effects : Table Effect} {f : Forwarding}
    (h : ofFunction g effects = .ok f) :
    f.params = (g.forwards.map fun name =>
        ⟨name, g.params.findIdx (fun p => p.name = name), (effects.get? name).getD .nothrow⟩) ∧
      f.paths = g.body.raisePaths g.forwards := by
  unfold ofFunction make at h
  split at h
  · cases h
    exact ⟨rfl, rfl⟩
  · cases h

theorem ofFunction_eq_error {g : FunDecl Span} {effects : Table Effect} {v : Violation}
    (h : ofFunction g effects = .error v) :
    v = { cause := .forwardsNothing g.name, pos := some g.loc.start } := by
  unfold ofFunction make at h
  split at h <;> cases h
  rfl

section Rule

variable {g : FunDecl Span} {effects : Table Effect} {f : Forwarding}
  (h : ofFunction g effects = .ok f)

include h

theorem function_of_ofFunction : f.function = g.name := by
  unfold ofFunction make at h
  split at h <;> cases h
  rfl

theorem span_of_ofFunction : f.span = some g.loc := by
  unfold ofFunction make at h
  split at h <;> cases h
  rfl

theorem target_of_ofFunction : f.target = g.clause.bind fun c => c.types.head? := by
  unfold ofFunction make at h
  split at h <;> cases h
  rfl

/-- A parameter of a rule is determined by its name. -/
theorem param_eq_of_ofFunction {p q : ForwardedParam} (hp : p ∈ f.params) (hq : q ∈ f.params)
    (hname : p.name = q.name) : p = q := by
  rw [(ofFunction_eq_ok h).1] at hp hq
  obtain ⟨name, -, rfl⟩ := List.mem_map.1 hp
  obtain ⟨name', -, rfl⟩ := List.mem_map.1 hq
  obtain rfl : name = name' := hname
  rfl

/-- The effects that a rule is read with are those of its parameters. -/
theorem effectOf_of_ofFunction {p : ForwardedParam} (hp : p ∈ f.params) :
    effectOf effects p = p.effect := by
  rw [(ofFunction_eq_ok h).1] at hp
  obtain ⟨name, -, rfl⟩ := List.mem_map.1 hp
  unfold effectOf
  cases effects.get? name <;> rfl

end Rule

end Forwarding

end RaisingEffects
