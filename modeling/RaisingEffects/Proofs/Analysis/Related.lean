import RaisingEffects.Proofs.Analysis.Derivation

/-!
# Related scopes

Two analyses of the same body bind the same names in the same order, and differ in what they take
the names to mean. `Env.Rel R` says that the meanings are related by `R`. Looking names up, binding
and rebinding them keeps it. `Expr.Rel S` relates what the analyses make of an expression that is
read as a value, and `Both` is about the outcomes of two analyses in the same context.
-/

namespace RaisingEffects

variable {R : Binding → Binding → Prop}

/-- The scopes have the same names, in the same order, and related meanings. -/
def Env.Rel (R : Binding → Binding → Prop) (env env' : Env) : Prop :=
  List.Forall₂ (Table.Rel R) env env'

/-- Rebinding a name to what it means. -/
theorem Env.rebind_of_lookup {env : Env} {name : String} {b : Binding}
    (h : env.lookup name = some b) : env.rebind name b = env := by
  induction env with
  | nil => rfl
  | cons scope outer ih =>
    unfold Env.lookup at h ih
    rw [List.findSome?_cons] at h
    unfold Env.rebind
    cases hscope : scope.get? name with
    | none =>
      rw [hscope] at h
      rw [if_neg (by simp), ih h]
    | some d =>
      rw [hscope] at h
      cases h
      rw [if_pos Option.isSome_some, Table.set_of_get? hscope]

namespace Env.Rel

variable {R : Binding → Binding → Prop} {env env' : Env} {b b' : Binding} (h : Env.Rel R env env')

include h

theorem push : Env.Rel R ([] :: env) ([] :: env') := .cons .nil h

theorem pop : Env.Rel R (env.drop 1) (env'.drop 1) := by
  cases h with
  | nil => exact .nil
  | cons _ h => exact h

theorem lookup (name : String) : Option.Rel R (env.lookup name) (env'.lookup name) := by
  induction h with
  | nil => exact .none
  | cons hscope _ ih =>
    unfold Env.lookup at ih ⊢
    rw [List.findSome?_cons, List.findSome?_cons]
    obtain ⟨hs, ht⟩ | ⟨b, b', hs, ht, hb⟩ := eq_none_or_some_of_rel (hscope.get? name)
    · rw [hs, ht]
      exact ih
    · rw [hs, ht]
      exact .some hb

/-- A name denotes the same collection, if related meanings do. -/
theorem lookup_aggregate (hR : ∀ b b', R b b' → b.aggregate = b'.aggregate) (name : String) :
    (env.lookup name).bind Binding.aggregate = (env'.lookup name).bind Binding.aggregate := by
  obtain ⟨hb, hb'⟩ | ⟨b, b', hb, hb', hbb⟩ := eq_none_or_some_of_rel (h.lookup name)
  · rw [hb, hb']
  · rw [hb, hb']
    exact hR b b' hbb

theorem define (name : String) (hb : R b b') :
    Env.Rel R (env.define name b) (env'.define name b') := by
  cases h with
  | nil => exact .cons (.cons ⟨rfl, hb⟩ .nil) .nil
  | cons hscope h => exact .cons (hscope.set name hb) h

theorem defineAll {entries others : List (String × Binding)}
    (hentries : Table.Rel R entries others) :
    Env.Rel R (env.defineAll entries) (env'.defineAll others) := by
  induction hentries generalizing env env' with
  | nil => exact h
  | @cons x y _ _ hxy _ ih =>
    obtain ⟨name, b⟩ := x
    obtain ⟨name', b'⟩ := y
    obtain ⟨rfl, hb⟩ := hxy
    exact ih (h.define name hb)

theorem rebind (name : String) (hb : R b b') :
    Env.Rel R (env.rebind name b) (env'.rebind name b') := by
  induction h with
  | nil => exact .nil
  | cons hscope h ih =>
    unfold Env.rebind
    obtain ⟨hs, ht⟩ | ⟨_, _, hs, ht, -⟩ := eq_none_or_some_of_rel (hscope.get? name)
    · rw [hs, ht, if_neg (by simp)]
      exact .cons hscope ih
    · rw [hs, ht, if_pos Option.isSome_some]
      exact .cons (hscope.set name hb) h

/-- A name may be rebound in the first scopes to what is related to its meaning in the second. -/
theorem rebind_left {name : String} (hlookup : env'.lookup name = some b') (hb : R b b') :
    Env.Rel R (env.rebind name b) env' := by
  have hrebind := h.rebind name hb
  rwa [Env.rebind_of_lookup hlookup] at hrebind

/-- A name may be rebound in the second scopes to what its meaning in the first is related to. -/
theorem rebind_right {name : String} (hlookup : env.lookup name = some b) (hb : R b b') :
    Env.Rel R env (env'.rebind name b') := by
  have hrebind := h.rebind name hb
  rwa [Env.rebind_of_lookup hlookup] at hrebind

section Follow

variable (hR : ∀ b b', R b b' → b.aggregate ≠ none ∨ b'.aggregate ≠ none →
  ∀ d e, R { b with effect := d } { b' with effect := e })

include hR

/-- The effects that are kept with collections may change, if they do not matter. -/
theorem follow_left (id : Nat) (e : Effect) : Env.Rel R (env.follow id e) env' := by
  have hfollow (b b' : Binding) (hb : R b b') :
      R (if b.aggregate = some id then { b with effect := e } else b) b' := by
    split
    · rename_i hid
      exact hR b b' hb (.inl (by simp [hid])) e b'.effect
    · exact hb
  rw [Env.Rel, Env.follow, List.forall₂_map_left_iff]
  exact h.imp fun _ _ hscope => hscope.map_left hfollow

theorem follow_right (id : Nat) (e : Effect) : Env.Rel R env (env'.follow id e) := by
  have hfollow (b b' : Binding) (hb : R b b') :
      R b (if b'.aggregate = some id then { b' with effect := e } else b') := by
    split
    · rename_i hid
      exact hR b b' hb (.inr (by simp [hid])) b.effect e
    · exact hb
  rw [Env.Rel, Env.follow, List.forall₂_map_right_iff]
  exact h.imp fun _ _ hscope => hscope.map_right hfollow

end Follow

end Env.Rel

/-! ## Related values -/

/-- The expressions are the same, with related effects, as far as they are read as values. -/
inductive Expr.Rel (S : Effect → Effect → Prop) : Expr Note → Expr Note → Prop
  | name (n n' : Note) (id : String) : Rel S (.name n id) (.name n' id)
  | literal (n n' : Note) (l : Literal) : Rel S (.literal n l) (.literal n' l)
  | call (n n' : Note) (callee : String) (args args' : List (Expr Note)) :
    Rel S (.call n callee args) (.call n' callee args')
  | closure {n n' : Note} {d e : Effect} (hn : n.effect = some d) (hn' : n'.effect = some e)
      (h : S d e) (ps : List (Param Note)) (clause : Option (Clause Note))
      (body body' : Body Note) : Rel S (.closure n ps clause body) (.closure n' ps clause body')
  | collection (n n' : Note) (kind : CollectionKind) (es es' : List (Expr Note)) :
    Rel S (.collection n kind es) (.collection n' kind es')
  | binary (op : BinaryOp) (l l' r r' : Expr Note) : Rel S (.binary op l r) (.binary op l' r')
  | unary (op : UnaryOp) (e e' : Expr Note) : Rel S (.unary op e) (.unary op e')

/-- Related meanings differ in their effects only, as far as effects are read off them. -/
structure Relates (R : Binding → Binding → Prop) (S : Effect → Effect → Prop) : Prop where
  refl : ∀ e, S e e
  plain : ∀ b : Binding, b.aggregate = none → R b b
  callable : ∀ d e, S d e → R (.callable d) (.callable e)
  kind : ∀ b b', R b b' → b.kind = b'.kind
  effect : ∀ b b', R b b' → b'.kind ≠ .collection → S b.effect b'.effect

namespace Relates

variable {R : Binding → Binding → Prop} {S : Effect → Effect → Prop} {env env' : Env}
  {e e' : Expr Note} (hR : Relates R S)

include hR

theorem annotated (isError : String → Bool) (type : Option (TypeExpr Span)) :
    R (annotated isError type) (annotated isError type) := by
  refine hR.plain _ ?_
  unfold RaisingEffects.annotated
  split <;> rfl

theorem loopBinding {d e : Option Effect} (h : Option.Rel S d e) :
    R (Analysis.loopBinding d) (Analysis.loopBinding e) := by
  cases h with
  | none => exact hR.plain _ rfl
  | some hde => exact hR.callable _ _ hde

variable (h : Env.Rel R env env')

include h

/-- Related values have related effects. -/
theorem effectOf (he : Expr.Rel S e e') : S (env.effectOf e) (env'.effectOf e') := by
  cases he with
  | name n n' id =>
    rw [Env.effectOf, Env.effectOf]
    obtain ⟨hb, hb'⟩ | ⟨b, b', hb, hb', hbb⟩ := eq_none_or_some_of_rel (h.lookup id)
    · rw [hb, hb']
      exact hR.refl _
    · rw [hb, hb']
      dsimp only
      rw [hR.kind b b' hbb]
      split
      · rename_i hcallable
        exact hR.effect b b' hbb (by simp [hcallable])
      · exact hR.refl _
  | closure hn hn' hde =>
    rw [Env.effectOf, Env.effectOf, hn, hn']
    exact hde
  | _ => exact hR.refl _

theorem map_effectOf {es es' : List (Expr Note)} (hes : List.Forall₂ (Expr.Rel S) es es') :
    List.Forall₂ S (es.map env.effectOf) (es'.map env'.effectOf) := by
  rw [List.forall₂_map_left_iff, List.forall₂_map_right_iff]
  exact hes.imp fun _ _ he => hR.effectOf h he

/-- Raising related values comes to related effects, and is reported for both or for none. -/
theorem raised (isError : String → Bool) (he : Expr.Rel S e e') :
    S (env.raised isError e).1 (env'.raised isError e').1 ∧
      ((env'.raised isError e').2 = [] → (env.raised isError e).2 = []) := by
  have htype (name : String) (pos pos' : Pos) :
      S (typeRaised isError name pos).1 (typeRaised isError name pos').1 ∧
        ((typeRaised isError name pos').2 = [] → (typeRaised isError name pos).2 = []) := by
    unfold typeRaised
    split
    · exact ⟨hR.refl _, fun _ => rfl⟩
    · exact ⟨hR.refl _, by simp⟩
  cases he with
  | name n n' id =>
    rw [Env.raised, Env.raised]
    obtain ⟨hb, hb'⟩ | ⟨b, b', hb, hb', hbb⟩ := eq_none_or_some_of_rel (h.lookup id)
    · rw [hb, hb']
      exact ⟨hR.refl _, fun _ => rfl⟩
    · rw [hb, hb', Option.map_some, Option.map_some, Option.getD_some, Option.getD_some,
        Binding.raised, Binding.raised, hR.kind b b' hbb]
      cases hkind : b'.kind with
      | error => exact ⟨hR.effect b b' hbb (by simp [hkind]), fun _ => rfl⟩
      | typeName => exact htype id _ _
      | _ => exact ⟨hR.refl _, fun _ => rfl⟩
  | call n n' callee args args' =>
    have hkind : (env.lookup callee).map Binding.kind = (env'.lookup callee).map Binding.kind := by
      obtain ⟨hb, hb'⟩ | ⟨b, b', hb, hb', hbb⟩ := eq_none_or_some_of_rel (h.lookup callee)
      · rw [hb, hb']
      · rw [hb, hb', Option.map_some, hR.kind b b' hbb, Option.map_some]
    rw [Env.raised, Env.raised, hkind]
    split
    · exact htype callee _ _
    · exact ⟨hR.refl _, fun _ => rfl⟩
  | _ => exact ⟨hR.refl _, fun _ => rfl⟩

/-- Names that are bound to related values have related meanings. -/
theorem bindingOf (isError : String → Bool) (type : Option (TypeExpr Span))
    (he : Expr.Rel S e e') : R (env.bindingOf isError type e) (env'.bindingOf isError type e') := by
  cases he with
  | name n n' id =>
    rw [Env.bindingOf, Env.bindingOf]
    obtain ⟨hb, hb'⟩ | ⟨b, b', hb, hb', hbb⟩ := eq_none_or_some_of_rel (h.lookup id)
    · rw [hb, hb']
      exact hR.annotated isError type
    · rw [hb, hb', Analysis.effectful?, Analysis.effectful?, Option.filter_some, Option.filter_some,
        hR.kind b b' hbb]
      split
      · exact hbb
      · exact hR.annotated isError type
  | call n n' callee args args' =>
    rw [Env.bindingOf, Env.bindingOf]
    split
    · exact hR.plain _ rfl
    · exact hR.annotated isError type
  | closure hn hn' hde =>
    rw [Env.bindingOf, Env.bindingOf, hn, hn']
    exact hR.callable _ _ hde
  | _ => exact hR.annotated isError type

end Relates

theorem Param.bindings_rel {isError : String → Bool}
    (hR : ∀ id p, R (Param.binding isError id p) (Param.binding isError id p)) (id : Nat)
    (ps : List (Param Span)) : ∀ b ∈ Param.bindings isError id ps, R b b := by
  induction ps generalizing id with
  | nil => simp [Param.bindings]
  | cons p ps ih =>
    rw [Param.bindings]
    exact List.forall_mem_cons.2 ⟨hR id p, ih _⟩

/-- Names are related to themselves as their meanings are. -/
theorem Env.rel_zip_self (names : List String) {bs : List Binding} (h : ∀ b ∈ bs, R b b) :
    Table.Rel R (names.zip bs) (names.zip bs) :=
  List.forall₂_same.2 fun entry hentry => ⟨rfl, h entry.2 (List.of_mem_zip hentry).2⟩

/-- Parameters mean the same in related scopes. -/
theorem Env.Rel.inClosure {s t : AnalysisState} (h : Env.Rel R s.env t.env)
    (hlength : s.aggregates.length = t.aggregates.length) {c : Context}
    (hR : ∀ id p, R (Param.binding c.isError id p) (Param.binding c.isError id p))
    (ps : List (Param Span)) : Env.Rel R (s.inClosure c ps).env (t.inClosure c ps).env := by
  rw [AnalysisState.inClosure, hlength]
  exact h.push.defineAll (Env.rel_zip_self _ (Param.bindings_rel hR _ ps))

/-- Related arguments give the forwarded parameters related effects. -/
theorem Analysis.forwardedEffects_rel {R : Effect → Effect → Prop} (hR : ∀ e, R e e)
    (f : Forwarding) {ds es : List Effect} (h : List.Forall₂ R ds es) :
    Table.Rel R (forwardedEffects f ds) (forwardedEffects f es) := by
  refine Table.Rel.ofEntries ?_
  rw [Table.Rel, List.forall₂_map_left_iff, List.forall₂_map_right_iff, List.forall₂_same]
  intro p _
  refine ⟨rfl, ?_⟩
  obtain ⟨hd, he⟩ | ⟨d, e, hd, he, hde⟩ :=
    eq_none_or_some_of_rel (rel_getElem?_of_forall₂ h p.position)
  · rw [hd, he]
    exact hR _
  · rw [hd, he]
    exact hde

/-- Lesser arguments fit where the others fit. -/
theorem argumentFaults_eq_nil {callee : String} {pos : Pos} {ds es : List Effect} {position : Nat}
    {params : List (Option Effect)} (h : List.Forall₂ Effect.Below ds es)
    (hnil : argumentFaults callee pos es position params = []) :
    argumentFaults callee pos ds position params = [] := by
  induction params generalizing position with
  | nil => rfl
  | cons expected rest ih =>
    obtain ⟨hfirst, hrest⟩ := List.append_eq_nil_iff.1 hnil
    refine List.append_eq_nil_iff.2 ⟨?_, ih hrest⟩
    cases expected with
    | none => rfl
    | some expected =>
      obtain ⟨hd, -⟩ | ⟨d, e, hd, he, hde⟩ :=
        eq_none_or_some_of_rel (rel_getElem?_of_forall₂ h position)
      · rw [hd]
        rfl
      · rw [he] at hfirst
        rw [hd]
        by_cases hfits : e.fits expected = true
        · simp [argumentFault?, Effect.fits_trans hde hfits]
        · simp [argumentFault?, hfits] at hfirst

/-! ## Two runs -/

/-- Iterables that two walks return for the same expression have related effects. -/
theorem Analysed.iterated_rel {R : Aggregate → Aggregate → Prop} {S : Effect → Effect → Prop}
    {c c' : Context} {s s' t t' : AnalysisState} {e : Expr Span} {x y : Expr Note}
    {vs ws : List Visit} (h : Analysed c s (.expr e) vs (.expr x) s')
    (h' : Analysed c' t (.expr e) ws (.expr y) t')
    (hlookup : ∀ id, (s'.env.lookup id).bind Binding.aggregate =
      (t'.env.lookup id).bind Binding.aggregate)
    (haggregates : List.Forall₂ R s'.aggregates t'.aggregates)
    (hR : ∀ a a', R a a' → Option.Rel S a.effect a'.effect) :
    Option.Rel S (s'.iterated x) (t'.iterated y) := by
  have hrel (id : Nat) : Option.Rel S (s'.aggregates[id]?.bind Aggregate.effect)
      (t'.aggregates[id]?.bind Aggregate.effect) := by
    obtain ⟨ha, ha'⟩ | ⟨a, a', ha, ha', haa⟩ :=
      eq_none_or_some_of_rel (rel_getElem?_of_forall₂ haggregates id)
    · rw [ha, ha']
      exact .none
    · rw [ha, ha']
      exact hR a a' haa
  cases h with
  | name s span id =>
    cases h'
    rw [AnalysisState.iterated_name, AnalysisState.iterated_name, hlookup]
    cases (t.env.lookup id).bind Binding.aggregate with
    | none => exact .none
    | some id => exact hrel id
  | @collection _ s₁ =>
    cases h'
    have hlength := haggregates.length_eq
    simp only [List.length_append, List.length_singleton, Nat.add_right_cancel_iff] at hlength
    have hlast := hrel s₁.aggregates.length
    nth_rewrite 2 [hlength] at hlast
    exact hlast
  | _ =>
    cases h'
    exact .none

namespace Analysis

variable {α : Type} {c : Context} {s t : AnalysisState} {m m' : Analysis α}

/-- Both runs end, and `Q` holds of what they return and of the states they end in. -/
def Both (c : Context) (s t : AnalysisState) (m m' : Analysis α)
    (Q : α → AnalysisState → α → AnalysisState → Prop) : Prop :=
  ∃ a s' b t', m c s = (.ok a, s') ∧ m' c t = (.ok b, t') ∧ Q a s' b t'

namespace Both

variable {Q : α → AnalysisState → α → AnalysisState → Prop}

/-- A run has one outcome, so what is known of each run holds of the pair. -/
theorem yields {F G : α → AnalysisState → Prop} (h : Both c s t m m' Q) (hm : Yields c s m F)
    (hm' : Yields c t m' G) :
    Both c s t m m' fun a s' b t' => F a s' ∧ G b t' ∧ Q a s' b t' := by
  obtain ⟨a, s', b, t', hrun, hrun', hQ⟩ := h
  obtain ⟨x, u, hx, hF⟩ := hm
  obtain ⟨y, v, hy, hG⟩ := hm'
  obtain ⟨hax, rfl⟩ := Prod.mk.inj (hrun.symm.trans hx)
  obtain ⟨hby, rfl⟩ := Prod.mk.inj (hrun'.symm.trans hy)
  obtain rfl := Except.ok.inj hax
  obtain rfl := Except.ok.inj hby
  exact ⟨a, s', b, t', hrun, hrun', hF, hG, hQ⟩

end Both

end Analysis

end RaisingEffects
