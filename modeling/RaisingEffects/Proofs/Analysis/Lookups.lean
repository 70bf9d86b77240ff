import RaisingEffects.Proofs.Analysis.Bodies

/-!
# Names that the analysis looks up

Where a well-formed body mentions a name, the analysis has a meaning for it, if it had one for every
name that was known before the body.

* `Node.mention?` is the name that a node mentions by itself, and `Visit.scopes` are the scopes in
  which it is looked up: those of a call, an assignment or an insertion are the ones after the
  arguments or the value.
* `Env.Grows` says that names stay bound, seen from any depth.
* `Analysed.resolved` is the statement about the analysis of a part of a body.

Some of the known names may be without a meaning from the start. They are the names `free` below.
-/

namespace RaisingEffects

/-! ## Mentioned names -/

/-- The name that a node mentions by itself: a name, the callee of a call, and the target of an
assignment or insertion. -/
def Node.mention? {α : Type} : Node α → Option String
  | .expr (.name _ id) => some id
  | .expr (.call _ callee _) => some callee
  | .stmt (.assign _ target _) => some target
  | .stmt (.insert _ target _ _) => some target
  | _ => none

/-- The scopes in which the name that a node mentions is looked up. -/
def Visit.scopes (v : Visit) : Env :=
  match v.node with
  | .expr (.call _ _ args) => ((Expr.analyseAll args).final v.context v.state).env
  | .stmt (.assign _ _ value) => (value.analyse.final v.context v.state).env
  | .stmt (.insert _ _ _ value) => (value.analyse.final v.context v.state).env
  | _ => v.state.env

/-- The name that the visited node mentions has a meaning where it is looked up, or is one of the
names `free`. -/
def Visit.Resolves (free : List String) (v : Visit) : Prop :=
  ∀ name ∈ v.node.mention?, name ∈ free ∨ (v.scopes.lookup name).isSome

theorem Visit.Resolves.of_scopes {free : List String} {v : Visit} {name : String} {env : Env}
    (hname : v.node.mention? = some name) (hscopes : v.scopes = env)
    (h : name ∈ free ∨ (env.lookup name).isSome) : v.Resolves free := by
  intro n hn
  rw [hname] at hn
  cases hn
  rwa [hscopes]

/-! ## Scopes that grow -/

namespace Env

variable {env env' env'' : Env} {free known names : List String}

/-- Names that are bound in the first scopes, seen from any depth, are bound in the second. -/
def Grows (env env' : Env) : Prop :=
  ∀ i name, (lookup (env.drop i) name).isSome → (lookup (env'.drop i) name).isSome

/-- All known names are bound but for the names `free`. -/
def Binds (free known : List String) (env : Env) : Prop :=
  ∀ name ∈ known, name ∈ free ∨ (env.lookup name).isSome

theorem isSome_lookup_cons {scope : Table Binding} {name : String} :
    (lookup (scope :: env) name).isSome ↔
      (scope.get? name).isSome ∨ (env.lookup name).isSome := by
  rw [lookup_cons]
  cases scope.get? name <;> simp

theorem isSome_get?_set {scope : Table Binding} {x name : String} (b : Binding)
    (h : (scope.get? name).isSome) : ((scope.set x b).get? name).isSome := by
  rw [Table.get?_set]
  split
  · rfl
  · exact h

theorem isSome_define_self (env : Env) (name : String) (b : Binding) :
    ((env.define name b).lookup name).isSome := by
  cases env with
  | nil => simp [define, lookup_cons, Table.get?]
  | cons scope outer => simp [define, lookup_cons, Table.get?_set]

namespace Grows

theorem refl (env : Env) : Grows env env := fun _ _ h => h

theorem trans (h : Grows env env') (h' : Grows env' env'') : Grows env env'' :=
  fun i name hi => h' i name (h i name hi)

theorem define (env : Env) (x : String) (b : Binding) : Grows env (env.define x b) := by
  intro i name h
  cases env with
  | nil => simp [Env.lookup] at h
  | cons scope outer =>
    cases i with
    | zero => exact isSome_lookup_cons.2 ((isSome_lookup_cons.1 h).imp_left (isSome_get?_set b))
    | succ i => exact h

theorem rebind (env : Env) (x : String) (b : Binding) : Grows env (env.rebind x b) := by
  induction env with
  | nil => exact refl _
  | cons scope outer ih =>
    intro i name h
    unfold Env.rebind
    split
    · exact define (scope :: outer) x b i name h
    · cases i with
      | zero => exact isSome_lookup_cons.2 ((isSome_lookup_cons.1 h).imp_right (ih 0 name))
      | succ i => exact ih i name h

theorem follow (env : Env) (id : Nat) (e : Effect) : Grows env (env.follow id e) := by
  intro i name h
  have hdrop : (env.follow id e).drop i = Env.follow (env.drop i) id e := List.map_drop.symm
  rwa [hdrop, lookup_follow, Option.isSome_map]

theorem defineAll (env : Env) (entries : List (String × Binding)) :
    Grows env (env.defineAll entries) := by
  induction entries generalizing env with
  | nil => exact refl env
  | cons entry entries ih => exact (define env entry.1 entry.2).trans (ih _)

/-- What happens in a scope of its own leaves the others grown. -/
theorem pop (h : Grows ([] :: env) env') : Grows env (env'.drop 1) := by
  intro i name hi
  rw [List.drop_drop, Nat.add_comm]
  exact h (i + 1) name hi

end Grows

namespace Binds

theorem mono (h : Binds free known env) (hgrows : Grows env env') : Binds free known env' :=
  fun name hname => (h name hname).imp_right (hgrows 0 name)

theorem enter (h : Binds free known env) : Binds free known ([] :: env) :=
  fun name hname => (h name hname).imp_right fun hn => isSome_lookup_cons.2 (.inr hn)

theorem append (h : ∀ name ∈ names, (env.lookup name).isSome) (h' : Binds free known env) :
    Binds free (names ++ known) env :=
  fun name hname => (List.mem_append.1 hname).elim (fun hn => .inr (h name hn)) (h' name)

theorem define (h : Binds free known env) (name : String) (b : Binding) :
    Binds free (name :: known) (env.define name b) := by
  rintro n hn
  rcases List.mem_cons.1 hn with rfl | hn
  · exact .inr (isSome_define_self env n b)
  · exact h.mono (Grows.define env name b) n hn

end Binds

theorem isSome_defineAll (env : Env) {entries : List (String × Binding)} {name : String}
    (h : name ∈ entries.map Prod.fst) : ((env.defineAll entries).lookup name).isSome := by
  induction entries generalizing env with
  | nil => cases h
  | cons entry entries ih =>
    rcases List.mem_cons.1 h with rfl | h
    · exact Grows.defineAll _ entries 0 entry.1 (isSome_define_self env entry.1 entry.2)
    · exact ih _ h

/-- Names that get a meaning each are bound. -/
theorem Binds.defineAll (h : Binds free known env) {bs : List Binding}
    (hlength : bs.length = names.length) :
    Binds free (names ++ known) (env.defineAll (names.zip bs)) := by
  refine append (fun name hname => isSome_defineAll env ?_) (h.mono (Grows.defineAll env _))
  rwa [List.map_fst_zip (Nat.le_of_eq hlength.symm)]

end Env

/-! ## Runs that resolve names -/

/-- Between the states names stay bound, and the visits resolve the names that they mention. -/
structure Resolved (free : List String) (s s' : AnalysisState) (visits : List Visit) : Prop where
  grows : s.env.Grows s'.env
  found : ∀ v ∈ visits, v.Resolves free

namespace Resolved

variable {free : List String} {s s' s'' : AnalysisState} {vs ws : List Visit} {c : Context}

theorem quiet (h : s.env.Grows s'.env) : Resolved free s s' [] := ⟨h, by simp⟩

theorem refl (s : AnalysisState) : Resolved free s s [] := quiet (.refl _)

theorem trans (h : Resolved free s s' vs) (h' : Resolved free s' s'' ws) :
    Resolved free s s'' (vs ++ ws) where
  grows := h.grows.trans h'.grows
  found := fun v hv => (List.mem_append.1 hv).elim (h.found v) (h'.found v)

theorem then_quiet (h : Resolved free s s' vs) (h' : s'.env.Grows s''.env) :
    Resolved free s s'' vs := ⟨h.grows.trans h', h.found⟩

theorem after_quiet (h : Resolved free s' s'' vs) (h' : s.env.Grows s'.env) :
    Resolved free s s'' vs := ⟨h'.trans h.grows, h.found⟩

theorem visit {v : Visit} (h : Resolved free s s' vs) (hv : v.Resolves free) :
    Resolved free s s' (v :: vs) :=
  ⟨h.grows, List.forall_mem_cons.2 ⟨hv, h.found⟩⟩

/-- A node that mentions no name by itself. -/
theorem silent (h : Resolved free s s' vs) {t : AnalysisState} {n : Node Span}
    (hn : n.mention? = none) : Resolved free s s' (⟨c, t, n⟩ :: vs) := by
  refine h.visit fun name hname => ?_
  rw [hn] at hname
  cases hname

end Resolved

open Analysis

/-! ## The induction -/

section Walk

variable {c : Context} {free known : List String} {s s' : AnalysisState} {vs : List Visit}
  {t : Part Span} {t' : Part Note}

theorem Param.length_bindings (isError : String → Bool) (id : Nat) (ps : List (Param Span)) :
    (Param.bindings isError id ps).length = ps.length := by
  simpa using congrArg List.length (map_expectedEffect_bindings isError id ps)

/-- A statement binds the name that it declares. -/
theorem Analysed.isSome_declared {t : Stmt Span} {t' : Stmt Note}
    (h : Analysed c s (.stmt t) vs (.stmt t') s') :
    ∀ x ∈ t.declares?.toList, (s'.env.lookup x).isSome := by
  cases h with
  | letCollection | letValue => simp [Stmt.declares?, Env.isSome_define_self]
  | _ => simp [Stmt.declares?]

/-- **A well-formed part finds the names that it mentions.** -/
theorem Analysed.resolved (hc : c.Collects) (h : Analysed c s t vs t' s') (ht : t.WellFormed known)
    (hs : s.env.Binds free known) : Resolved free s s' vs := by
  induction h generalizing known with
  | exprsNil | stmtsNil | restNone => exact .refl _
  | name s span id => exact (Resolved.refl s).visit (.of_scopes rfl rfl (hs id ht))
  | literal | returnNone => exact (Resolved.refl _).silent rfl
  | call hargs ih =>
    have h₁ := ih ht.2 hs
    have hscopes := congrArg AnalysisState.env (final_eq (hargs.returns hc))
    exact .visit (h₁.then_quiet (.refl _)) (.of_scopes rfl hscopes (hs.mono h₁.grows _ ht.1))
  | @closure s _ _ params _ _ _ _ _ ih =>
    have hparams : (s.inClosure c params).env.Binds free (params.map Param.name ++ known) :=
      hs.enter.defineAll (by simpa using Param.length_bindings _ _ params)
    have h₁ := (ih ht.2.2 hparams).after_quiet (s := s.opened []) (.defineAll _ _)
    exact .silent ⟨h₁.grows.pop, h₁.found⟩ rfl
  | collection _ ih | raise _ ih => exact ((ih ht hs).silent rfl).then_quiet (.refl _)
  | unary _ ih | returnSome _ ih => exact (ih ht hs).silent rfl
  | bodyBlock _ ih | bodyExpr _ ih | stmtExpr _ ih | restBlock _ ih => exact ih ht hs
  | binary _ _ ih₁ ih₂ | while_ _ _ ih₁ ih₂ =>
    have h₁ := ih₁ ht.1 hs
    exact (h₁.trans (ih₂ ht.2 (hs.mono h₁.grows))).silent rfl
  | exprsCons _ _ ih₁ ih₂ =>
    have h₁ := ih₁ ht.1 hs
    exact h₁.trans (ih₂ ht.2 (hs.mono h₁.grows))
  | stmtsCons hstmt _ ih₁ ih₂ =>
    have h₁ := ih₁ ht.1 hs
    exact h₁.trans (ih₂ ht.2 (.append hstmt.isSome_declared (hs.mono h₁.grows)))
  | block _ ih =>
    have h₁ := ih ht.2 hs.enter
    exact .silent ⟨h₁.grows.pop, h₁.found⟩ rfl
  | letCollection _ ih =>
    refine .silent (.silent ?_ rfl) rfl
    exact .then_quiet (.after_quiet (ih ht hs) (.refl _)) (.define _ _ _)
  | letValue _ _ ih =>
    refine .silent ?_ rfl
    exact .then_quiet (.after_quiet (ih ht hs) (.refl _)) (.define _ _ _)
  | assign h he ih =>
    have h₁ := ih ht.2 hs
    have hscopes := congrArg AnalysisState.env (final_eq (h.returns hc))
    refine .visit ?_ (.of_scopes rfl hscopes (hs.mono h₁.grows _ ht.1))
    cases he with
    | fits => exact h₁
    | mismatch => exact h₁.then_quiet (.rebind _ _ _)
  | insert h he ih =>
    have h₁ := ih ht.2 hs
    have hscopes := congrArg AnalysisState.env (final_eq (h.returns hc))
    refine .visit ?_ (.of_scopes rfl hscopes (hs.mono h₁.grows _ ht.1))
    cases he with
    | accepted => exact h₁.then_quiet (.follow _ _ _)
    | nowhere | refused => exact h₁.then_quiet (.refl _)
  | @try_ s s₁ s₂ _ _ binding _ _ _ _ _ _ _ ih₁ ih₂ =>
    have h₁ := ih₁ ht.1 hs
    have hbound : Env.Binds free (binding.toList ++ known) (Env.defineAll ([] :: s₁.env)
        (binding.toList.map fun x => (x, caughtBinding (.joinAll s₁.candidates)))) := by
      cases binding with
      | none => exact (hs.mono h₁.grows).enter
      | some x => exact (hs.mono h₁.grows).enter.define x _
    have h₂ := (ih₂ ht.2 hbound).after_quiet
      (s := AnalysisState.opened { s₁ with candidates := s.candidates } []) (.defineAll _ _)
    have h₃ : Resolved free s₁ s₂.closed _ := ⟨h₂.grows.pop, h₂.found⟩
    exact ((h₁.after_quiet (.refl s.env)).trans h₃).silent rfl
  | @for_ _ s₁ s₂ target _ _ _ _ _ _ _ _ ih₁ ih₂ =>
    have h₁ := ih₁ ht.1 hs
    have h₂ := (ih₂ ht.2 ((hs.mono h₁.grows).enter.define target _)).after_quiet
      (s := s₁.opened []) (.define _ _ _)
    have h₃ : Resolved free s₁ s₂.closed _ := ⟨h₂.grows.pop, h₂.found⟩
    exact (h₁.trans h₃).silent rfl
  | if_ _ _ _ ih₁ ih₂ ih₃ =>
    have h₁ := ih₁ ht.1 hs
    have h₂ := h₁.trans (ih₂ ht.2.1 (hs.mono h₁.grows))
    exact (h₂.trans (ih₃ ht.2.2 (hs.mono h₂.grows))).silent rfl
  | elif _ _ _ ih₁ ih₂ ih₃ =>
    have h₁ := ih₁ ht.1 hs
    have h₂ := h₁.trans (ih₂ ht.2.1 (hs.mono h₁.grows))
    exact h₂.trans (ih₃ ht.2.2 (hs.mono h₂.grows))

end Walk

/-! ## Nodes that are visited -/

theorem Visit.Returns.map_span {v : Visit} (hc : v.context.Collects) {n : Node Note}
    (h : v.Returns n) : n.map Note.span = v.node := by
  cases n with
  | expr e' =>
    obtain ⟨e, s', hnode, hrun⟩ := h
    have hreturns : (Part.expr e).Returns v.context v.state (.expr e') s' := hrun
    cases (hreturns.derives hc).traced.1
    exact hnode.symm
  | stmt t' =>
    obtain ⟨t, s', hnode, hrun⟩ := h
    have hreturns : (Part.stmt t).Returns v.context v.state (.stmt t') s' := hrun
    cases (hreturns.derives hc).traced.1
    exact hnode.symm
  | block b' =>
    obtain ⟨b, s', hnode, hrun⟩ := h
    have hreturns : (Part.block b).Returns v.context v.state (.block b') s' := hrun
    cases (hreturns.derives hc).traced.1
    exact hnode.symm
  | _ => exact h.elim

/-- Every part of a block is visited, types and clauses apart. -/
theorem Block.visited {c : Context} (hc : c.Collects) {b : Block Span} {n : Node Span}
    (hn : n ∈ b.walk) (hsig : n.ofSignature = false) (s : AnalysisState) :
    ∃ v ∈ b.visits c s, v.context = c ∧ v.node = n := by
  obtain ⟨vs, b', s', h⟩ := (Part.block b).derives c s
  have hcourse : Course c _ [] 0 s s' vs b'.walk := h.course hc 0 (by simp)
  have hmap : b'.map Note.span = b := Part.block.inj h.traced.1
  obtain ⟨-, rfl⟩ := h.run_visits hc
  rw [← hmap, Block.walk_map] at hn
  obtain ⟨n', hn', rfl⟩ := List.mem_map.1 hn
  obtain ⟨v, hv, hreturns⟩ := hcourse.returned n' hn' (by cases n' <;> exact hsig)
  have hcontext := hcourse.contexts v hv
  exact ⟨v, hv, hcontext, (hreturns.map_span (hcontext ▸ hc)).symm⟩

end RaisingEffects
