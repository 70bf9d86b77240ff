import RaisingEffects.Proofs.Analysis.Trace

/-!
# Names that a body leaves alone

A body that nowhere binds or assigns a name does not change what the name means, and its calls of
the name have the effect that the name had before.

* `Block.binds` tells whether a block binds or assigns a name, and so do its relatives.
* `Env.Keeps` says that a name that means a callable keeps its meaning, seen from any depth.
* `Analysed.kept` is the statement about the analysis of a part of a body.
-/

namespace RaisingEffects

/-! ## Binding and assigning -/

section Binds

variable {α : Type} (x : String)

mutual

/-- Whether an expression binds or assigns the name. -/
def Expr.binds : Expr α → Bool
  | .name .. | .literal .. => false
  | .call _ _ args => Expr.anyBinds args
  | .closure _ params _ body => params.any (fun p => p.name = x) || Body.binds body
  | .collection _ _ elements => Expr.anyBinds elements
  | .binary _ left right => Expr.binds left || Expr.binds right
  | .unary _ operand => Expr.binds operand

def Expr.anyBinds : List (Expr α) → Bool
  | [] => false
  | e :: es => Expr.binds e || Expr.anyBinds es

def Body.binds : Body α → Bool
  | .block b => Block.binds b
  | .expr e => Expr.binds e

def Block.binds : Block α → Bool
  | .mk _ ss => Stmt.anyBinds ss

def Stmt.binds : Stmt α → Bool
  | .let_ _ name _ _ value => name = x || Expr.binds value
  | .assign _ target value => target = x || Expr.binds value
  | .return_ _ none => false
  | .return_ _ (some value) | .raise _ value | .insert _ _ _ value | .expr value =>
    Expr.binds value
  | .try_ _ body binding handler => Block.binds body || binding = some x || Block.binds handler
  | .for_ target iterable body => target = x || Expr.binds iterable || Block.binds body
  | .while_ condition body => Expr.binds condition || Block.binds body
  | .if_ test body rest => Expr.binds test || Block.binds body || Else.binds rest

def Stmt.anyBinds : List (Stmt α) → Bool
  | [] => false
  | s :: ss => Stmt.binds s || Stmt.anyBinds ss

def Else.binds : Else α → Bool
  | .none => false
  | .block b => Block.binds b
  | .elif test body rest => Expr.binds test || Block.binds body || Else.binds rest

end

end Binds

/-! ## Scopes that keep a name -/

/-- Where the name means a callable, seen from any depth, it means the same in the second scopes. -/
def Env.Keeps (x : String) (env env' : Env) : Prop :=
  ∀ i e, Env.lookup (env.drop i) x = some (.callable e) →
    Env.lookup (env'.drop i) x = some (.callable e)

namespace Env

variable {x y : String} {env env' env'' : Env}

theorem lookup_cons (scope : Table Binding) (env : Env) :
    lookup (scope :: env) x = (scope.get? x).or (env.lookup x) := by
  rw [lookup, List.findSome?_cons]
  cases scope.get? x <;> rfl

theorem lookup_define (hy : y ≠ x) (env : Env) (b : Binding) :
    (env.define y b).lookup x = env.lookup x := by
  cases env with
  | nil => rw [define, lookup_cons, Table.get?, if_neg hy]; rfl
  | cons scope outer => rw [define, lookup_cons, lookup_cons, Table.get?_set, if_neg hy]

theorem lookup_define_self (env : Env) (x : String) (b : Binding) :
    (env.define x b).lookup x = some b := by
  cases env with
  | nil => rw [define, lookup_cons, Table.get?, if_pos rfl]; rfl
  | cons scope outer => rw [define, lookup_cons, Table.get?_set, if_pos rfl]; rfl

theorem lookup_drop_rebind (hy : y ≠ x) (env : Env) (b : Binding) (i : Nat) :
    lookup ((env.rebind y b).drop i) x = lookup (env.drop i) x := by
  induction env generalizing i with
  | nil => rfl
  | cons scope outer ih =>
    unfold rebind
    split
    · cases i with
      | zero => rw [List.drop_zero, List.drop_zero, lookup_cons, lookup_cons, Table.get?_set,
          if_neg hy]
      | succ i => rfl
    · cases i with
      | zero =>
        have houter : lookup (rebind outer y b) x = lookup outer x := ih 0
        rw [List.drop_zero, List.drop_zero, lookup_cons, lookup_cons, houter]
      | succ i => exact ih i

theorem follow_cons (scope : Table Binding) (outer : Env) (id : Nat) (e : Effect) :
    follow (scope :: outer) id e = (scope.map fun entry => (entry.1,
      if entry.2.aggregate = some id then { entry.2 with effect := e } else entry.2)) ::
        follow outer id e := rfl

theorem lookup_follow (env : Env) (id : Nat) (e : Effect) :
    (env.follow id e).lookup x =
      (env.lookup x).map fun b => if b.aggregate = some id then { b with effect := e } else b := by
  induction env with
  | nil => rfl
  | cons scope outer ih =>
    rw [follow_cons, lookup_cons, lookup_cons, Table.get?_map fun b : Binding =>
      if b.aggregate = some id then { b with effect := e } else b, ih]
    cases scope.get? x <;> rfl

namespace Keeps

theorem refl (env : Env) : Keeps x env env := fun _ _ h => h

theorem trans (h : Keeps x env env') (h' : Keeps x env' env'') : Keeps x env env'' :=
  fun i e hi => h' i e (h i e hi)

theorem define (hy : y ≠ x) (env : Env) (b : Binding) : Keeps x env (env.define y b) := by
  intro i e h
  cases i with
  | zero => rwa [List.drop_zero, lookup_define hy]
  | succ i =>
    cases env with
    | nil => rw [List.drop_nil] at h; cases h
    | cons scope outer => exact h

theorem rebind (hy : y ≠ x) (env : Env) (b : Binding) : Keeps x env (env.rebind y b) := by
  intro i e h
  rwa [lookup_drop_rebind hy]

theorem follow (env : Env) (id : Nat) (e : Effect) : Keeps x env (env.follow id e) := by
  intro i d h
  have hdrop : (env.follow id e).drop i = Env.follow (env.drop i) id e := List.map_drop.symm
  rw [hdrop, lookup_follow, h]
  rfl

theorem defineAll {entries : List (String × Binding)} (hx : ∀ entry ∈ entries, entry.1 ≠ x)
    (env : Env) : Keeps x env (env.defineAll entries) := by
  induction entries generalizing env with
  | nil => exact refl env
  | cons entry entries ih =>
    obtain ⟨hentry, hrest⟩ := List.forall_mem_cons.1 hx
    exact (define hentry env entry.2).trans (ih hrest _)

/-- What happens in a scope of its own is gone with it. -/
theorem pop (h : Keeps x ([] :: env) env') : Keeps x env (env'.drop 1) := by
  intro i e hi
  rw [List.drop_drop, Nat.add_comm]
  exact h (i + 1) e hi

theorem lookup (h : Keeps x env env') {e : Effect} (he : env.lookup x = some (.callable e)) :
    env'.lookup x = some (.callable e) := h 0 e he

end Keeps

end Env

/-! ## Runs that keep a name -/

/-- Between the states the name keeps its meaning, and the given calls of it have its effect. -/
structure Kept (x : String) (s s' : AnalysisState) (uncaught : List (Node Note)) : Prop where
  keeps : s.env.Keeps x s'.env
  calls : ∀ e, s.env.lookup x = some (.callable e) →
    ∀ n ∈ uncaught, n.callee? = some x → n.effect? = some e

namespace Kept

variable {x : String} {s s' s'' : AnalysisState} {us vs : List (Node Note)}

theorem quiet (h : s.env.Keeps x s'.env) : Kept x s s' [] := ⟨h, by simp⟩

theorem refl (s : AnalysisState) : Kept x s s [] := quiet (.refl _)

theorem trans (h : Kept x s s' us) (h' : Kept x s' s'' vs) : Kept x s s'' (us ++ vs) where
  keeps := h.keeps.trans h'.keeps
  calls := by
    intro e he n hn hcallee
    rcases List.mem_append.1 hn with hn | hn
    · exact h.calls e he n hn hcallee
    · exact h'.calls e (h.keeps.lookup he) n hn hcallee

theorem then_quiet (h : Kept x s s' us) (h' : s'.env.Keeps x s''.env) : Kept x s s'' us where
  keeps := h.keeps.trans h'
  calls := h.calls

theorem after_quiet (h : Kept x s' s'' us) (h' : s.env.Keeps x s'.env) : Kept x s s'' us where
  keeps := h'.trans h.keeps
  calls := fun e he => h.calls e (h'.lookup he)

/-- What happens in a scope of its own, in which other names have meanings. -/
theorem inScope {entries : List (String × Binding)} (hx : ∀ entry ∈ entries, entry.1 ≠ x)
    (h : Kept x (s.opened entries) s' us) : Kept x s s'.closed us := by
  have hentries : Env.Keeps x ([] :: s.env) (s.opened entries).env := .defineAll hx _
  exact ⟨(hentries.trans h.keeps).pop, fun e he => h.calls e (hentries.lookup he)⟩

/-- A node that calls another name needs no attention. -/
theorem singleton (n : Node Note)
    (hn : ∀ e, s.env.lookup x = some (.callable e) → n.callee? = some x → n.effect? = some e)
    (h : s.env.Keeps x s'.env) : Kept x s s' [n] where
  keeps := h
  calls := by
    intro e he m hm
    rw [List.mem_singleton.1 hm]
    exact hn e he

end Kept

open Analysis

/-! ## The induction -/

section Walk

variable {c : Context} {x : String}

theorem ne_of_binds {name : String} {b : Bool} (h : (decide (name = x) || b) = false) :
    name ≠ x ∧ b = false := by
  simpa using h

def Part.binds {α : Type} (x : String) : Part α → Bool
  | expr e => e.binds x
  | exprs es => Expr.anyBinds x es
  | body b => b.binds x
  | block b => b.binds x
  | stmt t => t.binds x
  | stmts ts => Stmt.anyBinds x ts
  | rest r => r.binds x

/-- **A part that does not bind the name leaves it alone.** -/
theorem Analysed.kept {s s' : AnalysisState} {t : Part Span} {vs : List Visit} {t' : Part Note}
    (h : Analysed c s t vs t' s') (hx : t.binds x = false) :
    Kept x s s' t'.uncaught := by
  induction h with
  | name | literal | returnNone | exprsNil | stmtsNil | restNone => exact .refl _
  | call _ ih =>
    refine (ih hx).trans (.singleton _ (fun d hd hcallee => ?_) (.refl _))
    rw [Node.callee?, Option.some.injEq] at hcallee
    subst hcallee
    rw [Node.effect?, Env.called_of_some hd, Binding.called_direct rfl rfl]
    rfl
  | closure _ ih =>
    simp only [Part.binds, Expr.binds, Bool.or_eq_false_iff, List.any_eq_false] at hx
    refine .quiet (.pop (.trans (.defineAll (fun entry hentry => ?_) _) (ih hx.2).keeps))
    obtain ⟨p, hp, hname⟩ := List.mem_map.1 (List.of_mem_zip hentry).1
    rw [← hname]
    simpa using hx.1 p hp
  | collection _ ih => exact (ih hx).then_quiet (.refl _)
  | unary _ ih | returnSome _ ih | bodyBlock _ ih | bodyExpr _ ih | stmtExpr _ ih
  | restBlock _ ih => exact ih hx
  | binary _ _ ih₁ ih₂ | while_ _ _ ih₁ ih₂ | exprsCons _ _ ih₁ ih₂ | stmtsCons _ _ ih₁ ih₂ =>
    obtain ⟨h₁, h₂⟩ := Bool.or_eq_false_iff.1 hx
    exact (ih₁ h₁).trans (ih₂ h₂)
  | block _ ih => exact .inScope (by simp) (ih hx)
  | letCollection _ ih | letValue _ _ ih =>
    obtain ⟨hname, hvalue⟩ := ne_of_binds hx
    exact Kept.then_quiet ((ih hvalue).after_quiet (.refl _)) (.define hname _ _)
  | assign _ he ih =>
    obtain ⟨htarget, hvalue⟩ := ne_of_binds hx
    cases he with
    | fits => exact ih hvalue
    | mismatch => exact (ih hvalue).then_quiet (.rebind htarget _ _)
  | raise _ ih =>
    refine (ih hx).trans (.singleton _ (fun d _ hcallee => ?_) (.refl _))
    cases hcallee
  | try_ _ _ ih₁ ih₂ =>
    simp only [Part.binds, Stmt.binds, Bool.or_eq_false_iff, decide_eq_false_iff_not] at hx
    have hnames : ∀ name, _ = some name → name ≠ x := fun name hname hn => hx.1.2 (hn ▸ hname)
    have hhandler := Kept.inScope (by simpa using hnames) (ih₂ hx.2)
    exact hhandler.after_quiet (ih₁ hx.1.1).keeps
  | insert _ he ih =>
    cases he with
    | accepted => exact (ih hx).then_quiet (.follow _ _ _)
    | nowhere | refused => exact (ih hx).then_quiet (.refl _)
  | for_ _ _ ih₁ ih₂ =>
    simp only [Part.binds, Stmt.binds, Bool.or_eq_false_iff, decide_eq_false_iff_not] at hx
    exact (ih₁ hx.1.2).trans (.inScope (by simpa using hx.1.1) (ih₂ hx.2))
  | if_ _ _ _ ih₁ ih₂ ih₃ | elif _ _ _ ih₁ ih₂ ih₃ =>
    simp only [Part.binds, Stmt.binds, Else.binds, Bool.or_eq_false_iff] at hx
    exact ((ih₁ hx.1.1).trans (ih₂ hx.1.2)).trans (ih₃ hx.2)

theorem Analysis.bodyEffect_kept (hc : c.Collects) {body : Block Span} (h : body.binds x = false)
    (s : AnalysisState) :
    Yields c s (bodyEffect body) fun r s' => Kept x s s' r.1.uncaught := by
  refine (bodyEffect_derives hc body s).mono fun r s' hr => ?_
  obtain ⟨s₁, -, rfl, hrun⟩ := hr
  exact ⟨(hrun.kept h).keeps, (hrun.kept h).calls⟩

end Walk

end RaisingEffects
