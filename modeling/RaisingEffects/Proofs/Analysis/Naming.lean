import RaisingEffects.Proofs.Analysis.Frame
import RaisingEffects.Proofs.Analysis.Invariant
import RaisingEffects.Proofs.Verdict.Run

/-!
# Naming a raised value

A value is raised directly, by `raise v;`, or under a name, by `let x = v; raise x;`, at the same
point of a body. What is recorded for the direct raise fits what is recorded for the named one, with
one exception (`Analysis.bodyEffect_naming`): a call of a type of errors whose name means something
else at this point raises anything if it is raised directly, and an error of that type under a name.

* `Part.Point C`: the function `C` puts statements at one point of a part.
* `Part.Point.meets`: the walk comes to the point in the same state, whatever is put there.
-/

namespace RaisingEffects

open Analysis

/-! ## Points -/

/-- The function puts statements at a point of a part, in front of those that stand there. -/
inductive Part.Point : (List (Stmt Span) → Part Span) → Prop
  | here (post) : Point fun ts => stmts (ts ++ post)
  | call (loc f) {C} : Point (exprs ∘ C) → Point (expr ∘ .call loc f ∘ C)
  | closure (loc ps clause) {C} : Point (body ∘ C) → Point (expr ∘ .closure loc ps clause ∘ C)
  | collection (loc kind) {C} : Point (exprs ∘ C) → Point (expr ∘ .collection loc kind ∘ C)
  | binaryLeft (op right) {C} : Point (expr ∘ C) → Point (expr ∘ (.binary op · right) ∘ C)
  | binaryRight (op left) {C} : Point (expr ∘ C) → Point (expr ∘ .binary op left ∘ C)
  | unary (op) {C} : Point (expr ∘ C) → Point (expr ∘ .unary op ∘ C)
  | exprsHead (es) {C} : Point (expr ∘ C) → Point (exprs ∘ (· :: es) ∘ C)
  | exprsTail (e) {C} : Point (exprs ∘ C) → Point (exprs ∘ (e :: ·) ∘ C)
  | bodyBlock {C} : Point (block ∘ C) → Point (body ∘ .block ∘ C)
  | bodyExpr {C} : Point (expr ∘ C) → Point (body ∘ .expr ∘ C)
  | block_ (loc) {C} : Point (stmts ∘ C) → Point (block ∘ .mk loc ∘ C)
  | let_ (loc x m type) {C} : Point (expr ∘ C) → Point (stmt ∘ .let_ loc x m type ∘ C)
  | assign (loc x) {C} : Point (expr ∘ C) → Point (stmt ∘ .assign loc x ∘ C)
  | return_ (loc) {C} : Point (expr ∘ C) → Point (stmt ∘ .return_ loc ∘ some ∘ C)
  | raise (loc) {C} : Point (expr ∘ C) → Point (stmt ∘ .raise loc ∘ C)
  | tryBody (loc x handler) {C} : Point (block ∘ C) → Point (stmt ∘ (.try_ loc · x handler) ∘ C)
  | tryHandler (loc b x) {C} : Point (block ∘ C) → Point (stmt ∘ .try_ loc b x ∘ C)
  | insert (loc x how) {C} : Point (expr ∘ C) → Point (stmt ∘ .insert loc x how ∘ C)
  | forIterable (x b) {C} : Point (expr ∘ C) → Point (stmt ∘ (.for_ x · b) ∘ C)
  | forBody (x e) {C} : Point (block ∘ C) → Point (stmt ∘ .for_ x e ∘ C)
  | whileTest (b) {C} : Point (expr ∘ C) → Point (stmt ∘ (.while_ · b) ∘ C)
  | whileBody (e) {C} : Point (block ∘ C) → Point (stmt ∘ .while_ e ∘ C)
  | ifTest (b r) {C} : Point (expr ∘ C) → Point (stmt ∘ (.if_ · b r) ∘ C)
  | ifBody (e r) {C} : Point (block ∘ C) → Point (stmt ∘ (.if_ e · r) ∘ C)
  | ifRest (e b) {C} : Point (rest ∘ C) → Point (stmt ∘ .if_ e b ∘ C)
  | stmtExpr {C} : Point (expr ∘ C) → Point (stmt ∘ .expr ∘ C)
  | stmtsHead (us) {C} : Point (stmt ∘ C) → Point (stmts ∘ (· :: us) ∘ C)
  | stmtsTail (t) {C} : Point (stmts ∘ C) → Point (stmts ∘ (t :: ·) ∘ C)
  | restBlock {C} : Point (block ∘ C) → Point (rest ∘ .block ∘ C)
  | elifTest (b r) {C} : Point (expr ∘ C) → Point (rest ∘ (.elif · b r) ∘ C)
  | elifBody (e r) {C} : Point (block ∘ C) → Point (rest ∘ (.elif e · r) ∘ C)
  | elifRest (e b) {C} : Point (rest ∘ C) → Point (rest ∘ .elif e b ∘ C)

/-! ## The state at a point -/

section Meets

variable {c : Context} {s s' s'' : AnalysisState} {ts us : List (Stmt Span)} {vs ws : List Visit}
  {t t' u u' : Part Note} {type : Option (TypeExpr Span)}

theorem Analysed.unique {t : Part Span} (hc : c.Collects) (h : Analysed c s t vs t' s')
    (h' : Analysed c s t ws u' s'') : t' = u' ∧ s' = s'' :=
  (h.returns hc).unique (h'.returns hc)

/-- The value of a `let` is analysed like any other. -/
theorem Analysed.of_let {loc : Span} {x : String} {m : Bool} {e : Expr Span}
    (h : Analysed c s (.stmt (.let_ loc x m type e)) vs t s') :
    ∃ vs' e' s₁, Analysed c (s.declaring c type) (.expr e) vs' (.expr e') s₁ ∧ vs' ⊆ vs ∧
      e'.walk ⊆ t.walk := by
  cases h with
  | letCollection helements =>
    exact ⟨_, _, _, .collection helements, by simp, by simp [Part.walk, Stmt.walk]⟩
  | letValue _ h => exact ⟨_, _, _, h, by simp, by simp [Part.walk, Stmt.walk]⟩

/-- Two walks come to the statements in the same state, and return them among the nodes. -/
def Meets (c : Context) (ts us : List (Stmt Span)) (vs : List Visit) (t u : Part Note) : Prop :=
  ∃ s vs' ts' s₁ ws' us' s₂, Analysed c s (.stmts ts) vs' (.stmts ts') s₁ ∧
    Analysed c s (.stmts us) ws' (.stmts us') s₂ ∧
    vs' ⊆ vs ∧ Stmt.walkAll ts' ⊆ t.walk ∧ Stmt.walkAll us' ⊆ u.walk

theorem Meets.mono (h : Meets c ts us vs t u) (hvs : vs ⊆ ws) (ht : t.walk ⊆ t'.walk)
    (hu : u.walk ⊆ u'.walk) : Meets c ts us ws t' u' := by
  obtain ⟨s, vs', ts', s₁, ws', us', s₂, h₁, h₂, hv, h₃, h₄⟩ := h
  exact ⟨s, vs', ts', s₁, ws', us', s₂, h₁, h₂, List.Subset.trans hv hvs, List.Subset.trans h₃ ht,
    List.Subset.trans h₄ hu⟩

/-- The walk over statements starts with that over the first of them. -/
theorem Analysed.of_append {post : List (Stmt Span)}
    (h : Analysed c s (.stmts (ts ++ post)) vs t s') :
    ∃ vs' ts' s₁, Analysed c s (.stmts ts) vs' (.stmts ts') s₁ ∧ vs' ⊆ vs ∧
      Stmt.walkAll ts' ⊆ t.walk := by
  induction ts generalizing s vs t with
  | nil => exact ⟨[], [], s, .stmtsNil s, by simp, by simp [Stmt.walkAll]⟩
  | cons first ts ih =>
    cases h with
    | stmtsCons hfirst hrest =>
      obtain ⟨vs', ts', s₁, h, hvs, hwalk⟩ := ih hrest
      refine ⟨_, _, s₁, .stmtsCons hfirst h, ?_, ?_⟩
      · exact List.append_subset.2
          ⟨List.subset_append_left .., List.subset_append_of_subset_right _ hvs⟩
      · exact List.append_subset.2
          ⟨List.subset_append_left .., List.subset_append_of_subset_right _ hwalk⟩

/-- **Whatever is put at a point, the walk comes there in the same state.** -/
theorem Part.Point.meets {C : List (Stmt Span) → Part Span} (hC : Part.Point C) (hc : c.Collects)
    (h : Analysed c s (C ts) vs t s') (h' : Analysed c s (C us) ws u s'') :
    Meets c ts us vs t u := by
  induction hC generalizing s vs t s' ws u s'' with
  | here post =>
    obtain ⟨vs', ts', s₁, h, hvs, ht⟩ := h.of_append
    obtain ⟨ws', us', s₂, h', -, hu⟩ := h'.of_append
    exact ⟨s, vs', ts', s₁, ws', us', s₂, h, h', hvs, ht, hu⟩
  | let_ _ _ _ _ _ ih =>
    obtain ⟨_, _, _, h, hvs, ht⟩ := h.of_let
    obtain ⟨_, _, _, h', -, hu⟩ := h'.of_let
    exact (ih h h').mono hvs ht hu
  | call _ _ _ ih | closure _ _ _ _ ih | collection _ _ _ ih | binaryLeft _ _ _ ih | unary _ _ ih
  | exprsHead _ _ ih | bodyBlock _ ih | bodyExpr _ ih | block_ _ _ ih | assign _ _ _ ih
  | return_ _ _ ih | raise _ _ ih | tryBody _ _ _ _ ih | insert _ _ _ _ ih | forIterable _ _ _ ih
  | whileTest _ _ ih | ifTest _ _ _ ih | stmtExpr _ ih | stmtsHead _ _ ih | restBlock _ ih
  | elifTest _ _ _ ih =>
    cases h
    cases h'
    refine (ih ‹_› ‹_›).mono ?_ ?_ ?_ <;>
      simp [Part.walk, Expr.walk, Expr.walkAll, Body.walk, Block.walk, Stmt.walk, Stmt.walkAll,
        Else.walk]
  -- what is walked first does not hold the point, so both walks leave it in the same state
  | binaryRight _ _ _ ih | exprsTail _ _ ih | whileBody _ _ ih | stmtsTail _ _ ih =>
    cases h
    cases h'
    rename_i h₁ h₂ _ _ _ _ _ h₁' h₂'
    obtain ⟨-, rfl⟩ := h₁.unique hc h₁'
    refine (ih h₂ h₂').mono ?_ ?_ ?_ <;>
      simp [Part.walk, Expr.walk, Expr.walkAll, Stmt.walk, Stmt.walkAll]
  | tryHandler _ _ _ _ ih | forBody _ _ _ ih =>
    cases h
    cases h'
    rename_i h₁ h₂ _ _ _ _ _ _ h₁' h₂'
    obtain ⟨heq, rfl⟩ := h₁.unique hc h₁'
    cases heq
    refine (ih h₂ h₂').mono ?_ ?_ ?_ <;> simp [Part.walk, Stmt.walk]
  | ifBody _ _ _ ih | elifBody _ _ _ ih =>
    cases h
    cases h'
    rename_i h₁ h₂ _ _ _ _ _ _ _ _ _ h₁' h₂' _
    obtain ⟨-, rfl⟩ := h₁.unique hc h₁'
    refine (ih h₂ h₂').mono ?_ ?_ ?_ <;> intro x hx <;>
      simp_all [Part.walk, Stmt.walk, Else.walk]
  | ifRest _ _ _ ih | elifRest _ _ _ ih =>
    cases h
    cases h'
    rename_i h₁ h₂ h₃ _ _ _ _ _ _ _ _ h₁' h₂' h₃'
    obtain ⟨-, rfl⟩ := h₁.unique hc h₁'
    obtain ⟨-, rfl⟩ := h₂.unique hc h₂'
    refine (ih h₃ h₃').mono ?_ ?_ ?_ <;> intro x hx <;>
      simp_all [Part.walk, Stmt.walk, Else.walk]

end Meets

/-! ## What is raised -/

/-- **Raising a name never comes to less than raising the value it is bound to**, but for a call of
a type of errors where its name means something else. -/
theorem Env.raised_fits_bindingOf (env : Env) (isError : String → Bool) (v : Expr Note) (x : String)
    (pos : Pos) : (env.raised isError v).1.fits
        ((env.bindingOf isError none v).raised isError x pos).1 = false ↔
      ∃ loc callee args, v = .call loc callee args ∧ isError callee = true ∧
        (env.lookup callee).map Binding.kind ≠ some .typeName := by
  have hvalue : (annotated isError none).raised isError x pos = (.raisesAny, []) := rfl
  cases v with
  | call loc callee args =>
    rw [Env.raised, Env.bindingOf]
    by_cases herror : isError callee = true
    · by_cases hkind : (env.lookup callee).map Binding.kind = some .typeName
      · simp [herror, hkind, typeRaised, Binding.raised, Binding.error, -Option.map_eq_some_iff]
      · simp [herror, hkind, Binding.raised, Binding.error, Effect.fits, -Option.map_eq_some_iff]
    · simp [herror, hvalue]
  | name loc id =>
    rw [Env.raised, Env.bindingOf]
    cases env.lookup id with
    | none => simp [effectful?, hvalue]
    | some b =>
      cases hkind : b.kind <;>
        simp [effectful?, Option.filter, Binding.raised, annotated, errorType?, Binding.value,
          hkind]
  | closure => simp [Env.raised, Env.bindingOf, Binding.raised, Binding.callable]
  | literal | collection | binary | unary => simp [Env.raised, Env.bindingOf, hvalue]

section Naming

variable {c : Context} {s s' : AnalysisState} {ℓ ℓ₁ ℓ₂ ℓ₃ : Span} {x : String} {m : Bool}
  {v : Expr Span} {vs ws : List Visit}

/-- What a name is bound to raises as the meaning of its value does. -/
theorem Analysed.named {t : Part Note} (h : Analysed c s (.stmt (.let_ ℓ₁ x m none v)) vs t s') :
    ∃ vs' v' s₁ b, Analysed c s (.expr v) vs' (.expr v') s₁ ∧ s'.env.lookup x = some b ∧
      ∀ pos, b.raised c.isError x pos =
        (s₁.env.bindingOf c.isError none v').raised c.isError x pos := by
  have hs : s.declaring c none = s :=
    (AnalysisState.logged_nil _ c.function).trans (AnalysisState.logged_nil s c.function)
  cases h with
  | letCollection helements =>
    rw [hs] at helements
    exact ⟨_, _, _, _, .collection helements, Env.lookup_define_self .., fun _ => rfl⟩
  | letValue _ h =>
    rw [hs] at h
    exact ⟨_, _, _, _, h, Env.lookup_define_self .., fun _ => rfl⟩

/-- At one point, what is raised under a name is at least what is raised directly, but for a call of
a type of errors where its name means something else. -/
theorem Analysed.naming {ts us : List (Stmt Note)} {s₁ s₂ : AnalysisState} (hc : c.Collects)
    (h : Analysed c s (.stmts [.raise ℓ v]) vs (.stmts ts) s₁)
    (h' : Analysed c s (.stmts [.let_ ℓ₁ x m none v, .raise ℓ₂ (.name ℓ₃ x)]) ws (.stmts us) s₂) :
    ∃ v' s' e₁ e₂, ⟨c, s, .stmt (.raise ℓ v)⟩ ∈ vs ∧ v.analyse c s = (.ok v', s') ∧
      .stmt (.raise { span := ℓ, effect := some e₁ } v') ∈ Stmt.walkAll ts ∧
      .stmt (.raise { span := ℓ₂, effect := some e₂ } (.name (.blank ℓ₃) x)) ∈ Stmt.walkAll us ∧
      (e₁.fits e₂ = false ↔ ∃ loc callee args, v = .call loc callee args ∧
        c.isError callee = true ∧ (s'.env.lookup callee).map Binding.kind ≠ some .typeName) := by
  cases h with | stmtsCons hraise hnil
  cases hnil
  cases hraise with | @raise _ s₁ _ _ v' _ hv
  cases h' with | stmtsCons hlet hrest
  obtain ⟨_, _, _, b, hv', hb, hraised⟩ := hlet.named
  obtain ⟨heq, rfl⟩ := hv.unique hc hv'
  cases heq
  cases hrest with | stmtsCons hraise hnil
  cases hnil
  cases hraise with | raise hname
  cases hname
  refine ⟨_, _, _, _, List.mem_append_left _ (List.mem_cons_self ..), hv.returns hc,
    List.mem_append_left _ (List.mem_cons_self ..),
    List.mem_append_right _ (List.mem_append_left _ (List.mem_cons_self ..)), ?_⟩
  rw [Env.raised.eq_2, hb, Option.map_some, Option.getD_some, hraised, Env.raised_fits_bindingOf]
  obtain rfl := Part.expr.inj hv.traced.1
  cases v' <;> simp [Expr.map]

/-- **Naming a raised value hides an error in one case only.** Both bodies are analysed to their
end. At the point where they differ, what is raised directly does not fit what is raised under a
name exactly if it is a call of a type of errors whose name means something else there. -/
theorem Analysis.bodyEffect_naming (hc : c.Collects) {C : List (Stmt Span) → Block Span}
    (hC : Part.Point (Part.block ∘ C)) (s : AnalysisState) (v : Expr Span) (x : String) (m : Bool)
    (ℓ ℓ₁ ℓ₂ ℓ₃ : Span) :
    ∃ r₁ s₁ r₂ s₂, bodyEffect (C [.raise ℓ v]) c s = (.ok r₁, s₁) ∧
      bodyEffect (C [.let_ ℓ₁ x m none v, .raise ℓ₂ (.name ℓ₃ x)]) c s = (.ok r₂, s₂) ∧
      ∃ s₀ v' s' e₁ e₂,
        ⟨c, s₀, .stmt (.raise ℓ v)⟩ ∈ (C [.raise ℓ v]).visits c { s with candidates := [] } ∧
        v.analyse c s₀ = (.ok v', s') ∧
        .stmt (.raise { span := ℓ, effect := some e₁ } v') ∈ r₁.1.walk ∧
        .stmt (.raise { span := ℓ₂, effect := some e₂ } (.name (.blank ℓ₃) x)) ∈ r₂.1.walk ∧
        (e₁.fits e₂ = false ↔ ∃ loc callee args, v = .call loc callee args ∧
          c.isError callee = true ∧
          (s'.env.lookup callee).map Binding.kind ≠ some .typeName) := by
  obtain ⟨r₁, s₁, hr₁, _, -, -, h₁⟩ := bodyEffect_derives hc (C [.raise ℓ v]) s
  obtain ⟨r₂, s₂, hr₂, _, -, -, h₂⟩ :=
    bodyEffect_derives hc (C [.let_ ℓ₁ x m none v, .raise ℓ₂ (.name ℓ₃ x)]) s
  obtain ⟨s₀, vs, ts, _, ws, us, _, h, h', hvs, hts, hus⟩ := hC.meets hc h₁ h₂
  obtain ⟨v', s', e₁, e₂, hvisit, hv, hraise, hnamed, hfits⟩ := h.naming hc h'
  exact ⟨r₁, s₁, r₂, s₂, hr₁, hr₂, s₀, v', s', e₁, e₂, hvs hvisit, hv, hts hraise, hus hnamed,
    hfits⟩

end Naming

/-- What is put in the handler of an error of type `E`, in front of a call. -/
def rethrowing (ts : List (Stmt Span)) : Block Span :=
  .mk default [.try_ default (.mk default [.raise default (.call default "E" [])]) (some "e")
    (.mk default (ts ++ [.expr (.call default "print" [])]))]

theorem Analysis.bodyEffect_naming_rethrown :
    ∃ r₁ s₁ r₂ s₂ v' e₁ e₂,
      bodyEffect (rethrowing [.raise default (.name default "e")])
        { policy := .precise, isError := (· = "E") } {} = (.ok r₁, s₁) ∧
      bodyEffect (rethrowing [.let_ default "x" false none (.name default "e"),
        .raise default (.name default "x")])
        { policy := .precise, isError := (· = "E") } {} = (.ok r₂, s₂) ∧
      .stmt (.raise { span := default, effect := some e₁ } v') ∈ r₁.1.walk ∧
      .stmt (.raise { span := default, effect := some e₂ } (.name (.blank default) "x")) ∈
        r₂.1.walk ∧ e₁.fits e₂ = true := by
  have hpoint : Part.Point (Part.block ∘ rethrowing) :=
    .block_ _ (.stmtsHead _ (.tryHandler _ _ _ (.block_ _ (.here _))))
  obtain ⟨r₁, s₁, r₂, s₂, h₁, h₂, _, v', _, e₁, e₂, -, -, hraise, hnamed, hfits⟩ :=
    Analysis.bodyEffect_naming (c := { policy := .precise, isError := (· = "E") })
      ⟨rfl, fun _ => rfl⟩ hpoint {} (.name default "e") "x" false default default default default
  refine ⟨r₁, s₁, r₂, s₂, v', e₁, e₂, h₁, h₂, hraise, hnamed, ?_⟩
  refine eq_true_of_ne_false fun h => ?_
  obtain ⟨_, _, _, hcall, -⟩ := hfits.1 h
  cases hcall

/-- Two functions that raise the outcome of a call of `E`, an error whose name means a closure. The
second one gives it a name first. -/
def shadowedErrorSource : String :=
  "error E; fn f() \x7b let E = || 1; raise E(); \x7d
fn g() \x7b let E = || 1; let x = E(); raise x; \x7d"

/-- The effects that are noted at the raises of each function. -/
def raiseNotes (_ : Reading) (v : Verdict) : List (String × List (Option Effect)) :=
  v.program.functions.map fun g => (g.name, (g.body.walk.filter Node.isRaise).map Node.effect?)

/-- Something about a source that was read and the verdict on it, where the errors are those that
the source declares. -/
def verdictView {β : Type} (settings : Settings) (view : Reading → Verdict → β)
    (reading : Except ParseFailure Reading) : Option β := do
  let r ← reading.toOption
  let v ← (r.program.check settings r.program.declaresError r.skipped).toOption
  return view r v

set_option maxRecDepth 8192 in
/-- The error is hidden by its name. -/
theorem Program.check_naming_shadowed :
    verdictView {} raiseNotes (Program.parse shadowedErrorSource) =
        some [("f", [some .raisesAny]), ("g", [some (.raises "E")])] ∧
      Effect.raisesAny.fits (.raises "E") = false := by
  refine ⟨?_, rfl⟩
  rw [Program.parse_eq_ofChars shadowedErrorSource rfl]
  decide +kernel

end RaisingEffects
