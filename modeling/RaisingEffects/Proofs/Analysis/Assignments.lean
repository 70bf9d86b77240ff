import RaisingEffects.Proofs.Analysis.Paired
import RaisingEffects.Proofs.Analysis.Upward

/-!
# What assignments do to later calls

An assignment is compared with what its target means, and changes nothing if it fits. So a call of
the target later in the same block can only have the effect that the target had before, or that of
raising anything. `Tracks` says what follows from this for the calls after an assignment:

* If the target is a callable without a rule, the effect of the assigned value fits that of the
  call.
* If the target is no callable, a call has no effect, whatever was assigned.
* If the target is a collection with a fixed effect, the calls of the variable of a loop over it
  have at least that effect, whichever collection was assigned.

Names do not tell variables apart, so a call counts only if its name is found in the scope in which
the target was found (`Visit.Calls`).
-/

namespace RaisingEffects

open Analysis

/-- The node is a call of the name, which is found in the scope `level`, and gets the effect `e`. -/
def Visit.Calls (v : Visit) (name : String) (level : Option Nat) (e : Effect) : Prop :=
  v.state.env.level? name = level ∧ ∃ args s entries, v.Evaluates name args s e entries

/-! ## The scope of a variable -/

/-- A name is found in the same scope where the same scopes have it. -/
theorem Env.level?_congr {env env' : Env} {name : String} (hlength : env'.length = env.length)
    (h : ∀ level < env.length,
      (env'.meaning level name).isSome = (env.meaning level name).isSome) :
    env'.level? name = env.level? name := by
  induction env generalizing env' with
  | nil => rw [List.eq_nil_of_length_eq_zero hlength]
  | cons scope outer ih =>
    cases env' with
    | nil => cases hlength
    | cons scope' outer' =>
      have houter : outer'.length = outer.length := Nat.succ.inj hlength
      have hfirst := h outer.length (Nat.lt_succ_self _)
      rw [meaning, meaning, if_pos houter.symm, if_pos rfl] at hfirst
      have hrest : level? outer' name = level? outer name := by
        refine ih houter fun level hlevel => ?_
        have hlevel' := h level (Nat.lt_succ_of_lt hlevel)
        rwa [meaning, meaning, if_neg (by omega), if_neg (by omega)] at hlevel'
      rw [level?, level?, hfirst, houter, hrest]

namespace AnalysisState.Rises

variable {n m : Nat} {names : List String} {s t : AnalysisState}

/-- What is said of more scopes is said of fewer. -/
theorem outer (h : s.Rises m [] t) (hn : n ≤ m) : s.Rises n names t where
  meanings := fun level name hlevel _ => h.meanings level name (by omega) (by simp)
  aggregates := h.aggregates
  log := h.log

theorem level? (h : s.Rises s.env.length [] t) (hlength : t.env.length = s.env.length)
    (name : String) : t.env.level? name = s.env.level? name := by
  refine Env.level?_congr hlength fun level hlevel => ?_
  rcases eq_none_or_some_of_rel (h.meanings level name hlevel (by simp)) with
    ⟨hs, ht⟩ | ⟨b, b', hs, ht, -⟩
  · rw [hs, ht]
  · rw [hs, ht]
    rfl

end AnalysisState.Rises

/-! ## Calls of a variable -/

namespace Analysis

variable {c : Context} {names : List String} {s s' : AnalysisState} {vs : List Visit}
  {level d' : Nat} {name : String} {b : Binding} {v : Visit} {e : Effect}

/-- A visited state is one that the start of the run rises to. -/
theorem Run.rises_visit (h : Run c.policy names 0 s vs d' s') (hs : s.Linked)
    (hpos : 0 < s.env.length) (hv : v ∈ vs) :
    v.state.Linked ∧ s.env.length ≤ v.state.env.length ∧
      s.Rises s.env.length names v.state := by
  obtain ⟨-, -, hlength, hrises⟩ := h.rises (fun _ _ => hpos) hs (Nat.add_zero _).symm
  have hmem : v.state ∈ vs.map Visit.state ++ [s'] :=
    List.mem_append_left _ (List.mem_map_of_mem hv)
  exact ⟨(h.linked hs).2 v hv, hlength v hv, ((List.pairwise_cons.1 hrises).1 _ hmem).2⟩

/-- The end of a run is a state that its start rises to. -/
theorem Run.rises_end (h : Run c.policy names 0 s vs 0 s') (hs : s.Linked)
    (hpos : 0 < s.env.length) :
    s'.Linked ∧ s'.env.length = s.env.length ∧ s.Rises s.env.length names s' := by
  obtain ⟨hlinked, hlength, -, hrises⟩ := h.rises (fun _ _ => hpos) hs (Nat.add_zero _).symm
  have hmem : s' ∈ vs.map Visit.state ++ [s'] := List.mem_append_right _ (List.mem_singleton.2 rfl)
  exact ⟨hlinked, hlength, ((List.pairwise_cons.1 hrises).1 _ hmem).2⟩

section Calls

variable (h : Run c.policy names 0 s vs d' s') (hc : c.Collects) (hs : s.Linked)
  (hb : s.env.meaning level name = some b) (hname : level + 1 = s.env.length → name ∉ names)
  (hv : v ∈ vs) (hcontext : v.context = c) (hcalls : v.Calls name (some level) e)

include h hc hs hb hname hv hcontext hcalls

/-- Where a call of a variable is evaluated, the variable means what it meant when the run started,
but for changes upward. -/
theorem Run.called :
    ∃ t b' pos arguments, b.Raised name s t b' ∧ t.env.lookup name = some b' ∧
      (b'.called name pos arguments).1 = e := by
  have hlt := Env.lt_of_meaning hb
  obtain ⟨hlinked, hlength, hrises⟩ := h.rises_visit hs (by omega) hv
  obtain ⟨hlevel, args, t, entries, span, args₀, -, hargs, hcall⟩ := hcalls
  rw [hcontext] at hargs hcall
  have hreturns : (Part.exprs args₀).Returns c v.state (.exprs args) t := hargs
  have hcourse : Course c (fun _ => False) [] 0 v.state t (Expr.visitsAll c args₀ v.state)
      (Expr.walkAll args) := (hreturns.derives hc).course hc 0 (by simp)
  obtain ⟨-, hlength', hrises'⟩ := hcourse.run.rises_end hlinked (by omega)
  obtain ⟨b', hb', hraised⟩ := (hrises.trans (hrises'.outer hlength) hs).meaning hlt hname hb
  have hlookup : t.env.lookup name = some b' := by
    rw [Env.lookup_of_level? ((hrises'.level? hlength' name).trans hlevel), hb']
  rw [callEffect_eq hc.failFast, Env.called_of_some hlookup] at hcall
  exact ⟨t, b', span.start, _, hraised, hlookup, Except.ok.inj (Prod.mk.inj hcall).1⟩

/-- A call of a callable without a rule has at least the effect that the callable had when the run
started. -/
theorem Run.called_callable (hkind : b.kind = .callable) (hrule : b.forwarding = none) :
    b.effect.fits e = true := by
  obtain ⟨t, b', pos, arguments, hraised, hlookup, rfl⟩ :=
    h.called hc hs hb hname hv hcontext hcalls
  cases hraised with
  | same =>
    rw [Binding.called_direct hkind hrule]
    exact Effect.fits_refl _
  | reassigned =>
    rw [Binding.called_direct rfl rfl]
    exact Effect.fits_raisesAny _
  | fixed hid =>
    obtain ⟨hcollection, -⟩ := hs level name b hb _ hid
    rw [hkind] at hcollection
    cases hcollection

/-- A call of what is no callable has no effect. -/
theorem Run.called_other (hkind : b.kind ≠ .callable) : e = .nothrow := by
  obtain ⟨t, b', pos, arguments, hraised, -, rfl⟩ := h.called hc hs hb hname hv hcontext hcalls
  have hkind' : b'.kind ≠ .callable := by
    cases hraised with
    | same => exact hkind
    | reassigned hcallable => exact absurd hcallable hkind
    | fixed => exact hkind
  rw [Binding.called, if_neg hkind']

end Calls

/-! ## Assignments -/

/-- An assignment to a callable without a rule, or one that is reported, leaves a callable that the
assigned value fits. -/
theorem Assigns.callable {pos : Pos} {value : Expr Note} {o : Option Effect}
    (h : Assigns c name pos value s o s') (hlevel : s.env.level? name = some level)
    (hb : s.env.meaning level name = some b) (hkind : b.kind = .callable)
    (hrule : b.forwarding = none ∨ (s.env.effectOf value).fits b.effect = false) :
    ∃ b', s'.env.meaning level name = some b' ∧ b'.kind = .callable ∧ b'.forwarding = none ∧
      (s.env.effectOf value).fits b'.effect = true := by
  cases h with
  | fits hfits =>
    have hfits := hfits b ((Env.lookup_of_level? hlevel).trans hb) hkind
    exact ⟨b, hb, hkind, hrule.resolve_right (by simp [hfits]), hfits⟩
  | mismatch =>
    refine ⟨.callable .raisesAny, ?_, rfl, rfl, Effect.fits_raisesAny _⟩
    exact (Env.meaning_rebind ..).trans (if_pos ⟨hlevel, rfl⟩)

/-- An assignment to what is no callable does nothing. -/
theorem Assigns.other {pos : Pos} {value : Expr Note} {o : Option Effect}
    (h : Assigns c name pos value s o s') (hb : s.env.lookup name = some b)
    (hkind : b.kind ≠ .callable) : s' = s := by
  cases h with
  | fits => rfl
  | mismatch hb' hkind' =>
    cases hb.symm.trans hb'
    exact absurd hkind' hkind

/-- A loop over the name of a collection gives its variable the effect of the elements. -/
theorem enterLoop_name (target : String) (span : Span) {id : Nat}
    (hb : s.env.lookup name = some b) (hid : b.aggregate = some id) :
    (enterLoop target (.name span name)).final c s =
      { s with env := Env.define ([] :: s.env) target (loopBinding (s.elementEffect? id)) } := by
  have hread : iterableEffect (.name (.blank span) name) c s = (.ok (s.elementEffect? id), s) := by
    have hlookup : lookup name c s = (.ok (some b), s) := by rw [← hb]; rfl
    rw [iterableEffect, bind_eq_of_ok hlookup, Option.bind_some, hid]
    rfl
  have hname : (Expr.name span name).analyse c s = (.ok (.name (.blank span) name), s) := by
    rw [Expr.analyse]
    rfl
  rw [enterLoop, final_bind hname, final_bind hread]
  · rfl
  · simp

end Analysis

/-- What the visits after an assignment make of it, where a value of effect `e` is assigned to
`name` in the state `s`. -/
structure Tracks (s : AnalysisState) (name : String) (e : Effect) (visits : List Visit) :
    Prop where
  /-- A callable is left alone only if the value fits it. -/
  callable : ∀ b, s.env.lookup name = some b → b.kind = .callable →
    b.forwarding = none ∨ e.fits b.effect = false →
    ∀ v ∈ visits, ∀ f, v.Calls name (s.env.level? name) f → e.fits f = true
  /-- What is no callable stays what it is. -/
  other : ∀ b, s.env.lookup name = some b → b.kind ≠ .callable →
    ∀ v ∈ visits, ∀ f, v.Calls name (s.env.level? name) f → f = .nothrow
  /-- A collection keeps the effect of its elements. -/
  elements : ∀ b id d, s.env.lookup name = some b → b.aggregate = some id →
    s.elementEffect? id = some d →
    ∀ v ∈ visits, ∀ target span body, v.node = .stmt (.for_ target (.name span name) body) →
      v.state.env.level? name = s.env.level? name →
      ∀ w ∈ body.visits v.context ((enterLoop target (.name span name)).final v.context v.state),
        ∀ f, w.Calls target (some v.state.env.length) f → d.fits f = true

section Statement

variable {c : Context} {s : AnalysisState} {names : List String} {vs : List Visit}
  {s' : AnalysisState} {d' : Nat}

/-- The calls of the variable of a loop over a collection with a fixed effect. -/
theorem Analysis.Run.loops (h : Run c.policy names 0 s vs d' s') (hc : c.Collects) (hs : s.Linked)
    {name : String} {level : Nat} {b : Binding} {id : Nat} {d : Effect}
    (hb : s.env.meaning level name = some b) (hname : level + 1 = s.env.length → name ∉ names)
    (hid : b.aggregate = some id) (hd : s.elementEffect? id = some d) {v : Visit} (hv : v ∈ vs)
    (hlevel : v.state.env.level? name = some level) (target : String) (span : Span)
    (body : Block Span) :
    ∀ w ∈ body.visits c ((enterLoop target (.name span name)).final c v.state),
      ∀ f, w.Calls target (some v.state.env.length) f → d.fits f = true := by
  have hlt := Env.lt_of_meaning hb
  obtain ⟨hlinked, -, hrises⟩ := h.rises_visit hs (by omega) hv
  obtain ⟨hkind, a, ha, -⟩ := hs level name b hb id hid
  have hfixed : a.effect = some d := by
    rwa [AnalysisState.elementEffect?, ha] at hd
  -- The collection was fixed when the run started, so it is the same when the loop is entered.
  have hlookup : v.state.env.lookup name = some b := by
    obtain ⟨b', hb', hraised⟩ := hrises.meaning hlt hname hb
    rw [Env.lookup_of_level? hlevel, hb']
    cases hraised with
    | same => rfl
    | reassigned hcallable =>
      rw [hkind] at hcallable
      cases hcallable
    | fixed hid' ha' hopen =>
      cases hid.symm.trans hid'
      cases ha.symm.trans ha'
      rw [hfixed] at hopen
      cases hopen
  have helement : v.state.elementEffect? id = some d := by
    obtain ⟨a', ha', hsettles⟩ := hrises.aggregates id a ha
    rw [AnalysisState.elementEffect?, ha', hsettles.eq_of_fixed hfixed]
    exact hfixed
  rw [enterLoop_name target span hlookup hid, helement]
  have hentered : AnalysisState.Linked
      { v.state with env := Env.define ([] :: v.state.env) target (loopBinding (some d)) } := by
    have henter : Change c.policy [] 0 v.state 1 { v.state with env := [] :: v.state.env } :=
      .enter 0 v.state
    have hdefine : Change c.policy [] 1 { v.state with env := [] :: v.state.env } 1
        { v.state with env := Env.define ([] :: v.state.env) target (loopBinding (some d)) } :=
      .define (by simp) fun _ => .of_none rfl
    exact hdefine.linked (henter.linked hlinked)
  have hmeaning : Env.meaning (Env.define ([] :: v.state.env) target (loopBinding (some d)))
      v.state.env.length target = some (.callable d) := by
    rw [Env.meaning_define]
    exact if_pos ⟨rfl, rfl⟩
  intro w hw f hcalls
  obtain ⟨vs', b', t, h⟩ := (Part.block body).derives c
    { v.state with env := Env.define ([] :: v.state.env) target (loopBinding (some d)) }
  have hcourse : Course c (fun _ => False) [] 0 _ t vs' b'.walk := h.course hc 0 (by simp)
  obtain ⟨-, rfl⟩ := h.run_visits hc
  exact hcourse.run.called_callable hc hentered hmeaning (by simp) hw
    (hcourse.contexts w hw) hcalls rfl rfl

/-- An assignment among the statements of a block, where the statements after it declare no name
that the innermost scope has. -/
theorem Stmt.assign_tracks (hc : c.Collects) (hs : s.Linked) (hpos : 0 < s.env.length)
    {post : List (Stmt Span)}
    (hfresh : ∀ name ∈ post.filterMap Stmt.declares?, s.env.meaning (s.env.length - 1) name = none)
    (span : Span) (target : String) (value : Expr Span) :
    ∃ value' s₁, value.analyse c s = (.ok value', s₁) ∧
      Tracks s₁ target (s₁.env.effectOf value')
        (Stmt.visitsAll c post ((Stmt.assign span target value).analyse.final c s)) := by
  obtain ⟨vs, value', s₁, hderived⟩ := (Part.expr value).derives c s
  have hvalue := hderived.returns hc
  have hcourse : Course c (fun _ => False) [] 0 s s₁ vs value'.walk :=
    hderived.course hc 0 (by simp)
  obtain ⟨hs₁, hlength₁, hrises₁⟩ := hcourse.run.rises_end hs hpos
  obtain ⟨o, s₂, hassign⟩ := exists_assigns c target span.start value' s₁
  have hcourse' : Course c (fun _ => True) [] 0 s₁ s₂ [] [] := hassign.course fun _ _ _ _ => trivial
  obtain ⟨hs₂, hlength₂, -⟩ := hcourse'.run.rises_end hs₁ (by omega)
  have hfinal : (Stmt.assign span target value).analyse.final c s = s₂ := by
    rw [Stmt.analyse, final_bind hvalue, final_bind (hassign.run hc.failFast)]
    rfl
  obtain ⟨_, ts, s₃, hderived'⟩ := (Part.stmts post).derives c s₂
  obtain ⟨-, rfl⟩ := hderived'.run_visits hc
  have hpost : Course c (fun _ => False) (post.filterMap Stmt.declares?) 0 s₂ s₃
      (Stmt.visitsAll c post s₂) (Stmt.walkAll ts) :=
    hderived'.course hc 0 fun _ _ hname => hname
  have hother {level : Nat} {b : Binding} (hb : s₁.env.meaning level target = some b) :
      level + 1 = s₂.env.length → target ∉ post.filterMap Stmt.declares? := by
    intro hlast hdeclared
    have hnone := hfresh target hdeclared
    rcases eq_none_or_some_of_rel
        (hrises₁.meanings (s.env.length - 1) target (by omega) (by simp)) with
      ⟨-, hmeaning⟩ | ⟨_, _, hsome, -⟩
    · rw [show level = s.env.length - 1 by omega, hmeaning] at hb
      cases hb
    · rw [hnone] at hsome
      cases hsome
  refine ⟨value', s₁, hvalue, ?_⟩
  rw [hfinal]
  constructor
  · intro b hlookup hkind hrule v hv f hcalls
    obtain ⟨level, hlevel, hb⟩ := Env.exists_level_of_lookup hlookup
    rw [hlevel] at hcalls
    obtain ⟨b', hb', hkind', hrule', hfits⟩ := hassign.callable hlevel hb hkind hrule
    have hcall := hpost.run.called_callable hc hs₂ hb' (hother hb) hv
      (hpost.contexts v hv) hcalls hkind' hrule'
    exact Effect.fits_trans hfits hcall
  · intro b hlookup hkind v hv f hcalls
    obtain ⟨level, hlevel, hb⟩ := Env.exists_level_of_lookup hlookup
    rw [hlevel] at hcalls
    obtain rfl := hassign.other hlookup hkind
    exact hpost.run.called_other hc hs₂ hb (hother hb) hv (hpost.contexts v hv) hcalls hkind
  · intro b id d hlookup hid hd v hv x nspan body _ hsame
    obtain ⟨level, hlevel, hb⟩ := Env.exists_level_of_lookup hlookup
    obtain ⟨hkind, -⟩ := hs₁ level target b hb id hid
    obtain rfl := hassign.other hlookup (by simp [hkind])
    rw [hpost.contexts v hv]
    exact hpost.run.loops hc hs₂ hb (hother hb) hid hd hv (hsame.trans hlevel) x nspan body

end Statement

end RaisingEffects
