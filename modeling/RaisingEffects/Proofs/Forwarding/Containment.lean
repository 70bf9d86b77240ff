import RaisingEffects.Proofs.Analysis.Below
import RaisingEffects.Proofs.Analysis.Frame
import RaisingEffects.Proofs.Forwarding.Paths
import RaisingEffects.Proofs.Tree.Walk

/-!
# What is converted stays inside

If all raise paths of a parameter are converted, what the parameter raises does not reach the effect
of the body, as long as the calls are all that the body does with it. The scan for raise paths knows
names only, while the analysis follows values: a parameter that is bound to another name, passed on
or called by a closure escapes the scan, and so does a caught error under another name.

* `Node.handedOn` lists the callables that get out of sight at a node, `Node.aliased` the errors.
* `AnalysisState.Tainted p T k s u`: two analyses may differ in what the callable `p` means and the
  errors `T` that were caught from it, and if `k` is set, in what they have raised.
* `Analysed.agree` runs two analyses of a part side by side.
* `Analysis.bodyEffect_converted` is the statement about bodies.
-/

namespace RaisingEffects

open Analysis

variable {n : Node Span}

/-! ## Names that get out of sight -/

section Names

variable {α : Type}

/-- The names of callables that a node takes over or replaces by itself. -/
def Node.passed : Node α → List String
  | .expr (.call _ _ args) => args.filterMap Expr.name?
  | .expr (.collection _ _ elements) => elements.filterMap Expr.name?
  | .stmt (.let_ _ _ _ _ value) | .stmt (.insert _ _ _ value) => value.name?.toList
  | .stmt (.assign _ target value) => target :: value.name?.toList
  | _ => []

/-- The callable that a node calls. -/
def Node.called : Node α → List String
  | .expr (.call _ callee _) => [callee]
  | _ => []

/-- The names of callables that get out of sight at a node. In a closure they do when they are
called. -/
def Node.handedOn : Node α → List String
  | .expr (.closure _ _ _ body) => body.walk.flatMap fun n => n.called ++ n.passed
  | n => n.passed

/-- The error that a node binds to another name. As an argument, an element or an insertion it is a
value like others. -/
def Node.copied : Node α → List String
  | .stmt (.let_ _ _ _ _ value) => value.name?.toList
  | _ => []

/-- The error that a node raises. -/
def Node.raised : Node α → List String
  | .stmt (.raise _ value) => value.name?.toList
  | _ => []

/-- The names of errors that get out of sight at a node. In a closure they do when they are
raised. -/
def Node.aliased : Node α → List String
  | .expr (.closure _ _ _ body) => body.walk.flatMap fun n => n.raised ++ n.copied
  | n => n.copied

/-- The names that are read as values. -/
def Part.values : Part α → List String
  | expr e => e.name?.toList
  | exprs es => es.filterMap Expr.name?
  | _ => []

theorem Part.values_map {β : Type} (f : α → β) (t : Part α) : (t.map f).values = t.values := by
  cases t with
  | exprs es =>
    induction es with
    | nil => rfl
    | cons e es ih =>
      simp only [map, values, Expr.mapAll, List.filterMap_cons, Expr.name?_map] at ih ⊢
      rw [ih]
  | expr e => exact congrArg Option.toList (Expr.name?_map f e)
  | _ => rfl

end Names

/-! ## Meanings that differ -/

section MayDiffer

variable {p y : String} {W : List String} {o o' : Option Binding}

/-- What a name means in two analyses, where the callable `p` and the errors `W` may differ. -/
inductive MayDiffer (p : String) (W : List String) (y : String) :
    Option Binding → Option Binding → Prop
  | same (o : Option Binding) : MayDiffer p W y o o
  | callable {b b' : Binding} (hy : y = p) (hb : b.kind = .callable ∧ b.aggregate = none)
      (hb' : b'.kind = .callable ∧ b'.aggregate = none) : MayDiffer p W y (some b) (some b')
  | error {b b' : Binding} (hy : y ∈ W) (hb : b.kind = .error ∧ b.aggregate = none)
      (hb' : b'.kind = .error ∧ b'.aggregate = none) : MayDiffer p W y (some b) (some b')

namespace MayDiffer

variable (h : MayDiffer p W y o o')

include h

theorem eq (hy : y ≠ p ∧ y ∉ W) : o = o' := by
  cases h with
  | same => rfl
  | callable hp => exact absurd hp hy.1
  | error hW => exact absurd hW hy.2

theorem aggregate : o.bind Binding.aggregate = o'.bind Binding.aggregate := by
  cases h with
  | same => rfl
  | callable _ hb hb' | error _ hb hb' => exact hb.2.trans hb'.2.symm

/-- Other names than `p` are callables in both analyses, or in none. -/
theorem eq_some_iff (hy : y ≠ p) {b : Binding} (hkind : b.kind = .callable) :
    o = some b ↔ o' = some b := by
  cases h with
  | same => rfl
  | callable hp => exact absurd hp hy
  | error _ hb hb' =>
    refine iff_of_false ?_ ?_
    all_goals
      rintro ⟨⟩
      simp_all

theorem kind : o.map Binding.kind = o'.map Binding.kind := by
  cases h with
  | same => rfl
  | callable _ hb hb' | error _ hb hb' => exact congrArg some (hb.1.trans hb'.1.symm)

theorem mono {W' : List String} (hW : W ⊆ W') : MayDiffer p W' y o o' := by
  cases h with
  | same => exact .same _
  | callable hy hb hb' => exact .callable hy hb hb'
  | error hy hb hb' => exact .error (hW hy) hb hb'

/-- The effects that are kept with collections do not matter. -/
theorem follow (id : Nat) (e : Effect) :
    MayDiffer p W y (o.map fun b => if b.aggregate = some id then { b with effect := e } else b)
      (o'.map fun b => if b.aggregate = some id then { b with effect := e } else b) := by
  cases h with
  | same => exact .same _
  | callable hy hb hb' =>
    simp only [Option.map_some, hb.2, hb'.2, reduceCtorEq, if_false]
    exact .callable hy hb hb'
  | error hy hb hb' =>
    simp only [Option.map_some, hb.2, hb'.2, reduceCtorEq, if_false]
    exact .error hy hb hb'

end MayDiffer

end MayDiffer

/-- The scopes have the same names. From the scope at depth `i` on, the meanings of names may differ
for the callable `p` and the errors `T i`. -/
structure Env.Tainted (p : String) (T : Nat → List String) (env env' : Env) : Prop where
  names : Env.Rel (fun _ _ => True) env env'
  differ : ∀ i y, MayDiffer p (T i) y (Env.lookup (env.drop i) y) (Env.lookup (env'.drop i) y)

/-- The errors that may differ in a new scope, and around it. -/
def taintsIn (xs : List String) (T : Nat → List String) : Nat → List String
  | 0 => xs ++ T 0
  | i + 1 => T i

namespace Env.Tainted

variable {p : String} {T : Nat → List String} {env env' : Env}

theorem pop {xs : List String} (h : Env.Tainted p (taintsIn xs T) env env') :
    Env.Tainted p T (env.drop 1) (env'.drop 1) where
  names := h.names.pop
  differ := by
    intro i y
    rw [List.drop_drop, List.drop_drop, Nat.add_comm]
    exact h.differ (i + 1) y

/-- A name is rebound in the same scope: where one of its meanings is replaced, so is the other. -/
theorem mayDiffer_rebind {R : Binding → Binding → Prop} (h : Env.Rel R env env') {W : List String}
    {name : String} (b : Binding) (i : Nat)
    (hi : MayDiffer p W name (Env.lookup (env.drop i) name) (Env.lookup (env'.drop i) name)) :
    MayDiffer p W name (Env.lookup ((env.rebind name b).drop i) name)
      (Env.lookup ((env'.rebind name b).drop i) name) := by
  induction h generalizing i with
  | nil => exact hi
  | @cons scope scope' _ _ hscope _ ih =>
    unfold Env.rebind
    obtain ⟨hs, hs'⟩ | ⟨_, _, hs, hs', -⟩ := eq_none_or_some_of_rel (hscope.get? name)
    · rw [hs, hs', if_neg (by simp), if_neg (by simp)]
      cases i with
      | zero =>
        rw [List.drop_zero, List.drop_zero, Env.lookup_cons, Env.lookup_cons, hs, hs'] at hi ⊢
        exact ih 0 hi
      | succ i => exact ih i hi
    · rw [hs, hs', if_pos Option.isSome_some, if_pos Option.isSome_some]
      cases i with
      | zero =>
        rw [List.drop_zero, List.drop_zero, Env.lookup_cons, Env.lookup_cons, Table.get?_set,
          Table.get?_set, if_pos rfl, if_pos rfl]
        exact .same _
      | succ i => exact hi

variable (h : Env.Tainted p T env env')

include h

theorem lookup (y : String) : MayDiffer p (T 0) y (env.lookup y) (env'.lookup y) := h.differ 0 y

theorem push (xs : List String) : Env.Tainted p (taintsIn xs T) ([] :: env) ([] :: env') where
  names := h.names.push
  differ := by
    intro i y
    cases i with
    | zero => exact (h.lookup y).mono (List.subset_append_right ..)
    | succ i => exact h.differ i y

theorem define (name : String) {b b' : Binding} (hb : MayDiffer p (T 0) name (some b) (some b')) :
    Env.Tainted p T (env.define name b) (env'.define name b') where
  names := h.names.define name trivial
  differ := by
    have houter (env : Env) (b : Binding) (i : Nat) :
        (env.define name b).drop (i + 1) = env.drop (i + 1) := by
      cases env <;> simp [Env.define]
    intro i y
    cases i with
    | succ i =>
      rw [houter, houter]
      exact h.differ (i + 1) y
    | zero =>
      rw [List.drop_zero, List.drop_zero]
      by_cases hy : name = y
      · subst hy
        rw [Env.lookup_define_self, Env.lookup_define_self]
        exact hb
      · rw [Env.lookup_define hy, Env.lookup_define hy]
        exact h.lookup y

theorem defineAll (entries : List (String × Binding)) :
    Env.Tainted p T (env.defineAll entries) (env'.defineAll entries) := by
  induction entries generalizing env env' with
  | nil => exact h
  | cons entry entries ih => exact ih (h.define entry.1 (.same _))

theorem follow (id : Nat) (e : Effect) : Env.Tainted p T (env.follow id e) (env'.follow id e) where
  names := (h.names.follow_left (fun _ _ _ _ _ _ => trivial) id e).follow_right
    (fun _ _ _ _ _ _ => trivial) id e
  differ := by
    intro i y
    have hdrop (env : Env) : (env.follow id e).drop i = Env.follow (env.drop i) id e :=
      List.map_drop.symm
    rw [hdrop, hdrop, Env.lookup_follow, Env.lookup_follow]
    exact (h.differ i y).follow id e

theorem rebind (name : String) (b : Binding) :
    Env.Tainted p T (env.rebind name b) (env'.rebind name b) where
  names := h.names.rebind name trivial
  differ := by
    intro i y
    by_cases hy : name = y
    · subst hy
      exact mayDiffer_rebind h.names b i (h.differ i name)
    · rw [Env.lookup_drop_rebind hy, Env.lookup_drop_rebind hy]
      exact h.differ i y

/-! ## What comes to the same -/

variable {x x' : Expr Note} {xs xs' : List (Expr Note)} {isError : String → Bool}

section Value

variable (hx : x.Rel (· = ·) x') (hp : p ∉ x.name?.toList)

include hx hp

/-- An error is not a callable, so it raises nothing when it is called. -/
theorem effectOf : env.effectOf x = env'.effectOf x' := by
  cases hx with
  | name n n' id =>
    rw [Env.effectOf, Env.effectOf]
    have hid := h.lookup id
    generalize env.lookup id = o, env'.lookup id = o' at hid ⊢
    cases hid with
    | same => rfl
    | callable hy => exact absurd (List.mem_singleton.2 hy.symm) hp
    | error _ hb hb' => simp [hb.1, hb'.1]
  | closure hn hn' he => rw [Env.effectOf, Env.effectOf, hn, hn', he]
  | _ => rfl

variable (hT : ∀ y ∈ T 0, y ∉ x.name?.toList)

include hT

theorem bindingOf (type : Option (TypeExpr Span)) :
    env.bindingOf isError type x = env'.bindingOf isError type x' := by
  cases hx with
  | name n n' id =>
    have hid : id ∈ (Expr.name n id).name?.toList := List.mem_singleton.2 rfl
    rw [Env.bindingOf, Env.bindingOf,
      (h.lookup id).eq ⟨fun heq => hp (heq ▸ hid), fun hmem => hT id hmem hid⟩]
  | closure hn hn' he => rw [Env.bindingOf, Env.bindingOf, hn, hn', he]
  | _ => rfl

theorem bound (name : String) (pos : Pos) (type : Option (TypeExpr Span))
    (declared : Option Effect) :
    env.bound isError name pos type x declared = env'.bound isError name pos type x' declared := by
  cases declared with
  | none => rw [Env.bound, Env.bound, h.bindingOf hx hp hT]
  | some d => rw [Env.bound, Env.bound, h.effectOf hx hp]

end Value

theorem map_effectOf (hxs : List.Forall₂ (Expr.Rel (· = ·)) xs xs')
    (hp : p ∉ xs.filterMap Expr.name?) : xs.map env.effectOf = xs'.map env'.effectOf := by
  induction hxs with
  | nil => rfl
  | @cons x x' xs xs' hx _ ih =>
    have hnames : (x :: xs).filterMap Expr.name? =
        x.name?.toList ++ xs.filterMap Expr.name? := by
      cases hn : x.name? <;> simp [hn]
    rw [hnames, List.mem_append, not_or] at hp
    rw [List.map_cons, List.map_cons, h.effectOf hx hp.1, ih hp.2]

/-- What is called under another name than `p` comes to the same. -/
theorem called (hxs : List.Forall₂ (Expr.Rel (· = ·)) xs xs')
    (hnames : p ∉ xs.filterMap Expr.name?) {callee : String} (hp : callee ≠ p) (pos : Pos) :
    env.called callee pos xs = env'.called callee pos xs' := by
  rw [Env.called, Env.called, h.map_effectOf hxs hnames]
  have hcallee := h.lookup callee
  generalize env.lookup callee = o, env'.lookup callee = o' at hcallee ⊢
  cases hcallee with
  | same => rfl
  | callable hy => exact absurd hy hp
  | error _ hb hb' => simp [Binding.called, hb.1, hb'.1]

/-- What is raised comes to the same, unless it is one of the errors. -/
theorem raised (hx : x.Rel (· = ·) x') (hnames : ∀ y ∈ x.name?.toList, y ∉ T 0) :
    (env.raised isError x).1 = (env'.raised isError x').1 := by
  have htype (name : String) (pos pos' : Pos) :
      (typeRaised isError name pos).1 = (typeRaised isError name pos').1 := by
    unfold typeRaised
    split <;> rfl
  cases hx with
  | name n n' id =>
    rw [Env.raised, Env.raised]
    have hid := h.lookup id
    generalize env.lookup id = o, env'.lookup id = o' at hid ⊢
    cases hid with
    | same =>
      cases o with
      | none => rfl
      | some b =>
        simp only [Option.map_some, Option.getD_some, Binding.raised]
        split
        · rfl
        · exact htype ..
        · rfl
    | callable _ hb hb' => simp [Binding.raised, hb.1, hb'.1]
    | error hy => exact absurd hy (hnames id (List.mem_singleton.2 rfl))
  | call n n' callee =>
    rw [Env.raised, Env.raised, (h.lookup callee).kind]
    split
    · exact htype ..
    · rfl
  | _ => rfl

end Env.Tainted

/-- Two states agree but for the callable `p` and the errors `T`, and unless `k` is set they have
the same candidates. -/
structure AnalysisState.Tainted (p : String) (T : Nat → List String) (k : Bool)
    (s u : AnalysisState) : Prop where
  env : Env.Tainted p T s.env u.env
  aggregates : s.aggregates = u.aggregates
  candidates : k = false → s.candidates = u.candidates

/-! ## Parts that keep the difference inside -/

/-- A node calls the callable, or raises one of the errors. -/
def Node.Leaks (p : String) (W : List String) : Node Span → Prop
  | .expr (.call _ callee _) => callee = p
  | .stmt (.raise _ value) => ∃ y ∈ value.name?, y ∈ W
  | _ => False

/-- A part keeps the difference inside, where `k` tells whether what it raises is converted around
it. The first way is that of closures. -/
inductive Sealed (p : String) (W : List String) (k : Bool) (t : Part Span) : Prop
  | unused (hk : k = false) (h : ∀ n ∈ t.walk,
      p ∉ n.called ++ n.passed ∧ ∀ y ∈ W, y ∉ n.raised ++ n.copied)
  | contained (hnames : ∀ x ∈ t.flagged k, p ∉ x.2.handedOn ∧ ∀ y ∈ W, y ∉ x.2.aliased)
      (hleaks : ∀ x ∈ t.flagged k, x.1 = false → ¬x.2.Leaks p W)
      (hhandlers : ∀ x ∈ t.flagged k, ∀ loc body y handler,
        x.2 = .stmt (.try_ loc body (some y) handler) →
          ∀ n, (Node.block handler).Runs n → y ∉ n.aliased)

theorem Node.leaks_append {p : String} {xs W : List String} (h : n.Leaks p (xs ++ W)) :
    n.Leaks p W ∨ ∃ y ∈ xs, n.raises y = true := by
  unfold Node.Leaks at h
  split at h
  · exact .inl h
  · obtain ⟨y, hy, hmem⟩ := h
    refine (List.mem_append.1 hmem).symm.imp (fun hW => ⟨y, hy, hW⟩) fun hxs => ⟨y, hxs, ?_⟩
    exact decide_eq_true hy
  · cases h

theorem Node.mem_handedOn {α : Type} {n : Node α} {y : String} (h : y ∈ n.passed) :
    y ∈ n.handedOn := by
  unfold Node.handedOn
  split
  · cases h
  · exact h

theorem Node.mem_aliased {α : Type} {n : Node α} {y : String} (h : y ∈ n.copied) :
    y ∈ n.aliased := by
  unfold Node.aliased
  split
  · cases h
  · exact h

namespace Sealed

variable {p : String} {W : List String} {k : Bool} {t u : Part Span} {n : Node Span}

/-- What lies directly in a part, and neither in a closure nor in a `try`. -/
theorem sub (h : Sealed p W k t)
    (hwalk : ∀ n ∈ u.walk, n ∈ t.walk := by
      intro n hn
      simp only [Part.walk, Expr.walk, Expr.walkAll, Body.walk, Block.walk, Stmt.walk, Stmt.walkAll,
        Else.walk, List.mem_cons, List.mem_append] at hn ⊢
      simp [hn])
    (hflagged : ∀ x ∈ u.flagged k, x ∈ t.flagged k := by
      intro x hx
      simp only [Part.flagged, Expr.flagged, Expr.flaggedAll, Block.flagged, Stmt.flagged,
        Stmt.flaggedAll, Else.flagged, List.mem_cons, List.mem_append] at hx ⊢
      simp [hx]) : Sealed p W k u := by
  cases h with
  | unused hk h => exact .unused hk fun n hn => h n (hwalk n hn)
  | contained hnames hleaks hhandlers =>
    exact .contained (fun x hx => hnames x (hflagged x hx)) (fun x hx => hleaks x (hflagged x hx))
      fun x hx => hhandlers x (hflagged x hx)

theorem mem_flagged (hn : n ∈ t.tops) : (k, n) ∈ t.flagged k :=
  (Part.mem_flagged_iff k t).2 ⟨n, hn, .refl⟩

/-- A node does not take over the callable, and binds none of the errors to another name. -/
theorem passed (h : Sealed p W k t) (htops : t.tops = [n]) :
    p ∉ n.passed ∧ ∀ y ∈ W, y ∉ n.copied := by
  have hn : n ∈ t.tops := by simp [htops]
  cases h with
  | unused _ h =>
    obtain ⟨hp, hW⟩ := h n (t.tops_subset_walk hn)
    exact ⟨fun hmem => hp (List.mem_append_right _ hmem),
      fun y hy hmem => hW y hy (List.mem_append_right _ hmem)⟩
  | contained hnames =>
    obtain ⟨hp, hW⟩ := hnames _ (mem_flagged hn)
    exact ⟨fun hmem => hp (Node.mem_handedOn hmem),
      fun y hy hmem => hW y hy (Node.mem_aliased hmem)⟩

theorem not_leaks (h : Sealed p W k t) (htops : t.tops = [n]) (hk : k = false) :
    ¬n.Leaks p W := by
  have hn : n ∈ t.tops := by simp [htops]
  cases h with
  | unused _ h =>
    obtain ⟨hp, hW⟩ := h n (t.tops_subset_walk hn)
    intro hleaks
    unfold Node.Leaks at hleaks
    split at hleaks
    · exact hp (List.mem_append_left _ (List.mem_singleton.2 hleaks.symm))
    · obtain ⟨y, hy, hmem⟩ := hleaks
      exact hW y hmem (List.mem_append_left _ (Option.mem_toList.2 hy))
    · exact hleaks
  | contained _ hleaks => exact hleaks _ (mem_flagged hn) hk

theorem closure {loc : Span} {params : List (Param Span)} {clause : Option (Clause Span)}
    {body : Body Span} (h : Sealed p W k (.expr (.closure loc params clause body))) :
    Sealed p W false (.body body) := by
  cases h with
  | unused _ h =>
    exact .unused rfl fun n hn => h n (by simp only [Part.walk, Expr.walk] at hn ⊢; simp [hn])
  | contained hnames =>
    obtain ⟨hp, hW⟩ := hnames _ (mem_flagged (List.mem_singleton.2 rfl))
    exact .unused rfl fun n hn => ⟨fun hmem => hp (List.mem_flatMap.2 ⟨n, hn, hmem⟩),
      fun y hy hmem => hW y hy (List.mem_flatMap.2 ⟨n, hn, hmem⟩)⟩

/-- In a `try`, either what the body raises comes to the same and the handler needs no attention, or
the caught error is one more that may differ. -/
theorem tried {loc : Span} {body handler : Block Span} {binding : Option String}
    (h : Sealed p W k (.stmt (.try_ loc body binding handler))) :
    ∃ k', Sealed p W k' (.block body) ∧ (k' = false → Sealed p W k (.block handler)) ∧
      (k' = true → Sealed p (binding.toList ++ W) k (.block handler)) := by
  cases h with
  | unused hk h =>
    refine ⟨false, .unused rfl fun n hn => h n ?_, fun _ => .unused hk fun n hn => h n ?_, by simp⟩
    all_goals
      simp only [Part.walk, Stmt.walk] at hn ⊢
      simp [hn]
  | contained hnames hleaks hhandlers =>
    have hbody : (Part.block body).flagged (k || !rethrows binding handler) ⊆
        (Part.stmt (.try_ loc body binding handler)).flagged k := by
      simp [Part.flagged, Stmt.flagged]
    have hhandler : (Part.block handler).flagged k ⊆
        (Part.stmt (.try_ loc body binding handler)).flagged k := by
      simp [Part.flagged, Stmt.flagged]
    refine ⟨k || !rethrows binding handler, ?_, fun _ => ?_, fun hk' => ?_⟩
    · exact .contained (fun x hx => hnames x (hbody hx)) (fun x hx => hleaks x (hbody hx))
        fun x hx => hhandlers x (hbody hx)
    · exact .contained (fun x hx => hnames x (hhandler hx)) (fun x hx => hleaks x (hhandler hx))
        fun x hx => hhandlers x (hhandler hx)
    · refine .contained (fun x hx => ?_) (fun x hx hflag hleak => ?_)
        fun x hx => hhandlers x (hhandler hx)
      · obtain ⟨hp, hW⟩ := hnames x (hhandler hx)
        refine ⟨hp, fun y hy => (List.mem_append.1 hy).elim (fun hbinding => ?_) (hW y)⟩
        obtain rfl : binding = some y := Option.mem_toList.1 hbinding
        exact hhandlers _ (mem_flagged (List.mem_singleton.2 rfl)) _ _ _ _ rfl x.2
          (Block.mem_flagged_iff.1 hx).runs
      · rcases Node.leaks_append hleak with hleak | ⟨y, hy, hraises⟩
        · exact hleaks x (hhandler hx) hflag hleak
        · obtain rfl : binding = some y := Option.mem_toList.1 hy
          have hagain : rethrows (some y) handler = true :=
            (Part.flagged_any_raises y k (.block handler)).symm.trans
              (List.any_eq_true.2 ⟨x, hx, hraises⟩)
          rw [hagain, Bool.not_true, Bool.or_false] at hk'
          rw [(Block.mem_flagged_iff.1 hx).kept hk'] at hflag
          cases hflag

end Sealed

/-! ## Two analyses side by side -/

/-- What is returned for an expression is the same in both analyses, as far as it is read as a
value. -/
def Part.Same : Part Note → Part Note → Prop
  | expr x, expr y => x.Rel (· = ·) y
  | exprs xs, exprs ys => List.Forall₂ (Expr.Rel (· = ·)) xs ys
  | _, _ => True

namespace AnalysisState.Tainted

variable {c : Context} {p : String} {T : Nat → List String} {k : Bool} {s u s' u' : AnalysisState}
  {x y : Expr Note} {o o' : Option Effect} {target : String} {pos : Pos}

theorem closed {xs : List String} (h : s.Tainted p (taintsIn xs T) k u) :
    s.closed.Tainted p T k u.closed :=
  ⟨h.env.pop, h.aggregates, h.candidates⟩

variable (h : s.Tainted p T k u)

include h

/-- The candidates may be set aside. -/
theorem aside (k' : Bool) :
    AnalysisState.Tainted p T k' { s with candidates := [] } { u with candidates := [] } :=
  ⟨h.env, h.aggregates, fun _ => rfl⟩

theorem opened (entries : List (String × Binding)) :
    (s.opened entries).Tainted p (taintsIn [] T) k (u.opened entries) :=
  ⟨(h.env.push []).defineAll entries, h.aggregates, h.candidates⟩

/-- In a handler, what was caught may differ. -/
theorem handling (binding : Option String) (d e : Effect) :
    (s.opened (binding.toList.map fun name => (name, caughtBinding d))).Tainted p
      (taintsIn binding.toList T) k
      (u.opened (binding.toList.map fun name => (name, caughtBinding e))) where
  env := by
    cases binding with
    | none => exact h.env.push []
    | some name =>
      exact (h.env.push [name]).define name (.error (List.mem_cons_self ..) ⟨rfl, rfl⟩ ⟨rfl, rfl⟩)
  aggregates := h.aggregates
  candidates := h.candidates

/-- Parameters mean the same in both states. -/
theorem inClosure (c : Context) (ps : List (Param Span)) :
    (s.inClosure c ps).Tainted p (taintsIn [] T) false (u.inClosure c ps) where
  env := by
    rw [AnalysisState.inClosure, AnalysisState.inClosure, h.aggregates]
    exact (h.env.push []).defineAll _
  aggregates := congrArg (· ++ _) h.aggregates
  candidates := fun _ => rfl

/-- A value is assigned in both analyses, or in none. -/
theorem assign (hx : x.Rel (· = ·) y) (htarget : target ≠ p) (hp : p ∉ x.name?.toList)
    (hs : Assigns c target pos x s o s') (hu : Assigns c target pos y u o' u') :
    s'.Tainted p T k u' := by
  have hlookup {b : Binding} := (h.env.lookup target).eq_some_iff htarget (b := b)
  have heffect := h.env.effectOf hx hp
  cases hs with
  | fits hfits =>
    cases hu with
    | fits => exact h
    | mismatch hb' hkind' hfits' =>
      rw [← heffect, hfits _ ((hlookup hkind').2 hb') hkind'] at hfits'
      cases hfits'
  | mismatch hb hkind hfits =>
    cases hu with
    | fits hfits' =>
      rw [heffect, hfits' _ ((hlookup hkind).1 hb) hkind] at hfits
      cases hfits
    | mismatch => exact ⟨h.env.rebind target _, h.aggregates, h.candidates⟩

/-- A value is inserted in both analyses, or in none. -/
theorem insert (hx : x.Rel (· = ·) y) (hp : p ∉ x.name?.toList)
    (hs : Inserts c target pos x s o s') (hu : Inserts c target pos y u o' u') :
    s'.Tainted p T k u' := by
  have hid := (h.env.lookup target).aggregate
  have hsame : ((s.env.lookup target).bind Binding.aggregate).bind (s.aggregates[·]?) =
      ((u.env.lookup target).bind Binding.aggregate).bind (u.aggregates[·]?) := by
    rw [hid, h.aggregates]
  have heffect := h.env.effectOf hx hp
  cases hs with
  | nowhere hnone =>
    cases hu with
    | nowhere => exact h
    | accepted hid' ha' | refused hid' ha' =>
      rw [hnone, hid', Option.bind_some, ha'] at hsame
      cases hsame
  | accepted hid₁ ha hinsert | refused hid₁ ha hinsert =>
    rw [hid₁, Option.bind_some, ha] at hsame
    cases hu with
    | nowhere hnone =>
      rw [hnone] at hsame
      cases hsame
    | accepted hid' ha' hinsert' | refused hid' ha' hinsert' =>
      obtain rfl := Option.some.inj (hid₁.symm.trans (hid.trans hid'))
      rw [hid', Option.bind_some, ha', Option.some.injEq] at hsame
      subst hsame
      rw [← heffect] at hinsert'
      cases hinsert.symm.trans hinsert' <;> first
        | exact ⟨h.env.follow _ _, congrArg (List.set · _ _) h.aggregates, h.candidates⟩
        | exact ⟨h.env, h.aggregates, h.candidates⟩

end AnalysisState.Tainted

theorem Analysed.values {c : Context} {s s' : AnalysisState} {t : Part Span} {x : Part Note}
    {vs : List Visit} (h : Analysed c s t vs x s') : x.values = t.values := by
  rw [← (h.traced).1, Part.values_map]

/-- What is returned for the values that a node takes over does not name the callable. -/
theorem Sealed.values {c : Context} {s s' : AnalysisState} {p : String} {W : List String} {k : Bool}
    {t t₁ : Part Span} {x : Part Note} {vs : List Visit} (hsealed : Sealed p W k t)
    (htops : t.tops = [n]) (h : Analysed c s t₁ vs x s') (hsub : t₁.values ⊆ n.passed) :
    p ∉ x.values := by
  rw [h.values]
  exact fun hp => (hsealed.passed htops).1 (hsub hp)

/-- **Two analyses of a part that keeps the difference inside agree again at its end.** -/
theorem Analysed.agree {c : Context} {p : String} {T : Nat → List String} {k : Bool}
    {s s' u u' : AnalysisState} {t : Part Span} {x y : Part Note} {vs ws : List Visit}
    (h : Analysed c s t vs x s') (h' : Analysed c u t ws y u')
    (hsealed : Sealed p (T 0) k t) (hs : s.Tainted p T k u) : s'.Tainted p T k u' ∧ x.Same y := by
  induction h generalizing T k u ws y u' with
  | name => cases h'; exact ⟨hs, .name ..⟩
  | literal => cases h'; exact ⟨hs, .literal ..⟩
  | exprsNil => cases h'; exact ⟨hs, .nil⟩
  | returnNone | stmtsNil | restNone => cases h'; exact ⟨hs, trivial⟩
  | call h ih =>
    cases h' with | call h₁ =>
    obtain ⟨hs₁, hxs⟩ := ih h₁ hsealed.sub hs
    refine ⟨⟨hs₁.env, hs₁.aggregates, fun hk => ?_⟩, .call ..⟩
    have hnames := hsealed.values rfl h (List.Subset.refl _)
    have hcallee := hsealed.not_leaks rfl hk
    dsimp only
    rw [hs₁.candidates hk, hs₁.env.called hxs hnames hcallee]
  | closure _ ih =>
    cases h' with | closure h₁ =>
    obtain ⟨hs₁, -⟩ := ih (T := taintsIn [] T) h₁ hsealed.closure (hs.inClosure c _)
    refine ⟨⟨hs₁.env.pop, hs₁.aggregates, hs.candidates⟩, .closure rfl rfl ?_ ..⟩
    rw [hs₁.candidates rfl]
  | collection h ih =>
    cases h' with | collection h₁ =>
    obtain ⟨hs₁, hxs⟩ := ih h₁ hsealed.sub hs
    have hnames := hsealed.values rfl h (List.Subset.refl _)
    refine ⟨⟨hs₁.env, ?_, hs₁.candidates⟩, .collection ..⟩
    dsimp only
    rw [hs₁.aggregates, hs₁.env.map_effectOf hxs hnames]
  | unary _ ih =>
    cases h' with | unary h₁ =>
    exact ⟨(ih h₁ hsealed.sub hs).1, .unary ..⟩
  | bodyBlock _ ih | bodyExpr _ ih | stmtExpr _ ih | restBlock _ ih | returnSome _ ih =>
    cases h'
    exact ⟨(ih ‹_› hsealed.sub hs).1, trivial⟩
  | binary _ _ ih₁ ih₂ =>
    cases h' with | binary h₁ h₂ =>
    obtain ⟨hs₁, -⟩ := ih₁ h₁ hsealed.sub hs
    exact ⟨(ih₂ h₂ hsealed.sub hs₁).1, .binary ..⟩
  | exprsCons _ _ ih₁ ih₂ =>
    cases h' with | exprsCons h₁ h₂ =>
    obtain ⟨hs₁, hx⟩ := ih₁ h₁ hsealed.sub hs
    obtain ⟨hs₂, hxs⟩ := ih₂ h₂ hsealed.sub hs₁
    exact ⟨hs₂, .cons hx hxs⟩
  | while_ _ _ ih₁ ih₂ | stmtsCons _ _ ih₁ ih₂ =>
    cases h'
    rename_i h₁ h₂
    obtain ⟨hs₁, -⟩ := ih₁ h₁ hsealed.sub hs
    exact ⟨(ih₂ h₂ hsealed.sub hs₁).1, trivial⟩
  | if_ _ _ _ ih₁ ih₂ ih₃ | elif _ _ _ ih₁ ih₂ ih₃ =>
    cases h'
    rename_i h₁ h₂ h₃
    obtain ⟨hs₁, -⟩ := ih₁ h₁ hsealed.sub hs
    obtain ⟨hs₂, -⟩ := ih₂ h₂ hsealed.sub hs₁
    exact ⟨(ih₃ h₃ hsealed.sub hs₂).1, trivial⟩
  | block _ ih =>
    cases h' with | block h₁ =>
    obtain ⟨hs₁, -⟩ := ih (T := taintsIn [] T) h₁ hsealed.sub (hs.opened [])
    exact ⟨hs₁.closed, trivial⟩
  | @letCollection _ _ _ _ _ _ cspan kind elements _ _ h ih =>
    cases h' with
    | letValue hvalue => exact absurd rfl (hvalue _ _ _)
    | letCollection h₁ =>
      have hvalue : Sealed p (T 0) k (.expr (.collection cspan kind elements)) := hsealed.sub
      obtain ⟨hs₁, hxs⟩ := ih h₁ hvalue.sub ⟨hs.env, hs.aggregates, hs.candidates⟩
      have hnames := hvalue.values rfl h (List.Subset.refl _)
      rw [hs₁.aggregates, hs₁.env.map_effectOf hxs hnames]
      exact ⟨⟨hs₁.env.define _ (.same _), rfl, hs₁.candidates⟩, trivial⟩
  | letValue hvalue h ih =>
    cases h' with
    | letCollection => exact absurd rfl (hvalue _ _ _)
    | letValue _ h₁ =>
      obtain ⟨hs₁, hx⟩ := ih h₁ hsealed.sub ⟨hs.env, hs.aggregates, hs.candidates⟩
      have hnames := hsealed.values rfl h (List.Subset.refl _)
      rw [AnalysisState.bound, AnalysisState.bound, hs₁.env.bound hx hnames fun y hy hmem =>
        (hsealed.passed rfl).2 y hy ((congrArg (y ∈ ·) h.values).mp hmem)]
      exact ⟨⟨hs₁.env.define _ (.same _), hs₁.aggregates, hs₁.candidates⟩, trivial⟩
  | assign h he ih =>
    cases h' with | assign h₁ he' =>
    obtain ⟨hs₁, hx⟩ := ih h₁ hsealed.sub hs
    have htarget := (List.ne_of_not_mem_cons (hsealed.passed rfl).1).symm
    have hnames := hsealed.values rfl h (List.subset_cons_self ..)
    exact ⟨hs₁.assign hx htarget hnames he he', trivial⟩
  | insert h he ih =>
    cases h' with | insert h₁ he' =>
    obtain ⟨hs₁, hx⟩ := ih h₁ hsealed.sub hs
    have hnames := hsealed.values rfl h (List.Subset.refl _)
    exact ⟨hs₁.insert hx hnames he he', trivial⟩
  | raise h ih =>
    cases h' with | raise h₁ =>
    obtain ⟨hs₁, hx⟩ := ih h₁ hsealed.sub hs
    refine ⟨⟨hs₁.env, hs₁.aggregates, fun hk => ?_⟩, trivial⟩
    dsimp only
    rw [hs₁.candidates hk, hs₁.env.raised hx]
    intro y hy hW
    have hvalue := (congrArg (y ∈ ·) (h.values)).mp hy
    exact hsealed.not_leaks rfl hk ⟨y, Option.mem_toList.1 hvalue, hW⟩
  | @try_ s s₁ _ _ _ binding _ _ _ _ _ _ _ ih₁ ih₂ =>
    cases h' with | @try_ _ u₁ _ _ _ _ _ _ _ _ _ h₁ h₂ =>
    obtain ⟨k', hbody, hequal, hdiffer⟩ := hsealed.tried
    obtain ⟨hs₁, -⟩ := ih₁ h₁ hbody (hs.aside k')
    have hafter : AnalysisState.Tainted p T k { s₁ with candidates := s.candidates }
        { u₁ with candidates := u.candidates } := ⟨hs₁.env, hs₁.aggregates, hs.candidates⟩
    cases k' with
    | false =>
      rw [← hs₁.candidates rfl] at h₂
      exact ⟨(ih₂ (T := taintsIn [] T) h₂ (hequal rfl) (hafter.opened _)).1.closed, trivial⟩
    | true =>
      refine ⟨(ih₂ (T := taintsIn _ T) h₂ (hdiffer rfl) (hafter.handling ..)).1.closed, trivial⟩
  | @for_ _ s₁ _ _ _ _ x _ _ _ h _ ih₁ ih₂ =>
    cases h' with | @for_ _ u₁ _ _ _ _ y _ _ _ h₁ h₂ =>
    obtain ⟨hs₁, -⟩ := ih₁ h₁ hsealed.sub hs
    have heq : s₁.iterated x = u₁.iterated y := by
      have hsame (o : Option Effect) : Option.Rel (· = ·) o o := by
        cases o <;> constructor
        rfl
      have hiterated := h.iterated_rel (R := (· = ·)) (S := (· = ·)) h₁
        (fun id => (hs₁.env.lookup id).aggregate) (List.forall₂_eq_eq_eq ▸ hs₁.aggregates)
        fun _ _ ha => ha ▸ hsame _
      obtain ⟨hnone, hnone'⟩ | ⟨_, _, he, he', rfl⟩ := eq_none_or_some_of_rel hiterated
      · exact hnone.trans hnone'.symm
      · exact he.trans he'.symm
    rw [← heq] at h₂
    exact ⟨(ih₂ (T := taintsIn [] T) h₂ hsealed.sub (hs₁.opened _)).1.closed, trivial⟩

/-! ## Bodies -/

/-- A node outside closures is listed, with some flag. -/
theorem Block.runs_iff {b : Block Span} :
    (Node.block b).Runs n ↔ ∃ x ∈ b.flagged false, x.2 = n := by
  constructor
  · intro h
    obtain ⟨k, hk⟩ := Node.exists_reaches h false
    exact ⟨_, Block.mem_flagged_iff.2 hk, rfl⟩
  · rintro ⟨x, hx, rfl⟩
    exact (Block.mem_flagged_iff.1 hx).runs

/-- **A converted path converts.** If all raise paths of a forwarded parameter are converted, and
neither the parameter nor what a handler caught gets out of sight, then the effect of the body is
the same for all callables that may be bound to the parameter. What was caught may be an argument,
an element or an insertion, and assigned. -/
theorem Analysis.bodyEffect_converted {c : Context} (hc : c.Collects) {g : FunDecl Span}
    {p : String} (hp : p ∈ g.forwards)
    (hpaths : ∀ path ∈ g.body.raisePaths g.forwards, path.parameter = p → path.converted = true)
    (hcalled : ∀ n, (Node.block g.body).Runs n → p ∉ n.handedOn)
    (hcaught : ∀ loc body y handler,
      (Node.block g.body).Runs (.stmt (.try_ loc body (some y) handler)) →
        ∀ n, (Node.block handler).Runs n → y ∉ n.aliased)
    (s : AnalysisState) {b b' : Binding} (hb : b.kind = .callable ∧ b.aggregate = none)
    (hb' : b'.kind = .callable ∧ b'.aggregate = none) :
    ∃ r t r' t', bodyEffect g.body c { s with env := s.env.define p b } = (.ok r, t) ∧
      bodyEffect g.body c { s with env := s.env.define p b' } = (.ok r', t') ∧ r.2 = r'.2 := by
  obtain ⟨r, t, hrun, s₁, hr, -, h⟩ := bodyEffect_derives hc g.body
    { s with env := s.env.define p b }
  obtain ⟨r', t', hrun', u₁, hr', -, h'⟩ := bodyEffect_derives hc g.body
    { s with env := s.env.define p b' }
  refine ⟨r, t, r', t', hrun, hrun', ?_⟩
  have hruns {x} (hx : x ∈ (Part.block g.body).flagged false) : (Node.block g.body).Runs x.2 :=
    Block.runs_iff.2 ⟨x, hx, rfl⟩
  have hsealed : Sealed p [] false (.block g.body) := by
    refine .contained (fun x hx => ⟨hcalled x.2 (hruns hx), by simp⟩)
      (fun x hx hflag hleak => ?_) fun x hx loc body y handler heq =>
        hcaught loc body y handler (heq ▸ hruns hx)
    obtain ⟨k, n⟩ := x
    obtain rfl : k = false := hflag
    unfold Node.Leaks at hleak
    split at hleak
    · rename_i span callee args heq
      obtain rfl : n = _ := heq
      have hpath : ⟨callee, false, some span⟩ ∈ g.body.raisePaths g.forwards := by
        rw [show g.body.raisePaths g.forwards = _ from (Part.block g.body).raisePaths_eq _ false]
        exact List.mem_filterMap.2 ⟨_, hx, if_pos (hleak ▸ hp)⟩
      cases hpaths _ hpath hleak
    · obtain ⟨_, _, hmem⟩ := hleak
      cases hmem
    · exact hleak
  have htainted (env : Env) : Env.Tainted p (fun _ => []) env env :=
    ⟨List.forall₂_same.2 fun _ _ => List.forall₂_same.2 fun _ _ => ⟨rfl, trivial⟩,
      fun _ _ => .same _⟩
  have hagree := (h.agree h' hsealed
    ⟨(htainted s.env).define p (.callable rfl hb hb'), rfl, fun _ => rfl⟩).1
  rw [hr, hr', hagree.candidates rfl]

/-- A function that calls its parameter where what it raises is caught twice, and shown and raised
again between. -/
def caughtTwice : FunDecl Span where
  loc := default
  name := "f"
  params := []
  forwards := ["g"]
  clause := none
  result := none
  body := .mk default
    [.try_ default
      (.mk default
        [.try_ default (.mk default [.expr (.call default "g" [])]) (some "e")
          (.mk default [.expr (.call default "print" [.name default "e"]),
            .raise default (.name default "e")])])
      none (.mk default [])]

theorem Analysis.bodyEffect_converted_twice :
    ∃ r t r' t', bodyEffect caughtTwice.body { policy := .precise, isError := (· = "E") }
        { env := [[("g", .callable (.raises "E"))]] } = (.ok r, t) ∧
      bodyEffect caughtTwice.body { policy := .precise, isError := (· = "E") }
        { env := [[("g", .callable .raisesAny)]] } = (.ok r', t') ∧ r.2 = r'.2 := by
  refine Analysis.bodyEffect_converted (p := "g") (s := { env := [[]] })
    ⟨rfl, fun _ => rfl⟩ (by decide) (by decide) ?_ ?_ ⟨rfl, rfl⟩ ⟨rfl, rfl⟩
  · intro n hn
    obtain ⟨x, hx, rfl⟩ := Block.runs_iff.1 hn
    clear hn
    revert x
    decide
  · intro loc body y handler hn n hruns
    obtain ⟨x, hx, heq⟩ := Block.runs_iff.1 hn
    obtain ⟨z, hz, rfl⟩ := Block.runs_iff.1 hruns
    simp only [caughtTwice, Block.flagged, Stmt.flagged, Stmt.flaggedAll, Expr.flagged,
      Expr.flaggedAll, List.append_nil, List.cons_append, List.nil_append, List.mem_cons,
      List.not_mem_nil, or_false] at hx
    rcases hx with
      rfl | rfl | rfl | rfl | rfl | rfl | rfl | rfl | rfl | rfl | rfl | rfl | rfl <;> cases heq
    clear hruns
    revert z
    decide

/-- A function that binds its parameter to another name and calls that. -/
def aliasedSource : String :=
  "error E; error X;
fn f(g: fn() raises(E)) forwards(g) raises(X) \x7b
  try \x7b g(); \x7d catch \x7b \x7d
  let h = g; h(); \x7d"

/-- The raise paths of each function, and the effects of its body for two errors of `g`. -/
def convertedView (r : Reading) : List (List (String × Bool) × Option Effect × Option Effect) :=
  r.program.functions.map fun f =>
    let effect (e : Effect) :=
      (bodyEffect f.body { policy := .precise, isError := r.program.declaresError }
        { env := [[("E", { kind := .typeName }), ("X", { kind := .typeName }),
          ("g", .callable e)]] }).1.toOption.map Prod.snd
    ((f.body.raisePaths f.forwards).map fun path => (path.parameter, path.converted),
      effect (.raises "E"), effect (.raises "X"))

set_option maxRecDepth 8192 in
/-- All paths of the parameter are converted, and its error reaches the effect of the body. -/
theorem Program.parse_converted_aliased :
    (Program.parse aliasedSource).toOption.map convertedView =
      some [([("g", true)], some (.raises "E"), some (.raises "X"))] := by
  rw [Program.parse_eq_ofChars aliasedSource rfl]
  decide +kernel

end RaisingEffects
