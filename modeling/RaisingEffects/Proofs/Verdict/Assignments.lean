import RaisingEffects.Proofs.Analysis.Assignments
import RaisingEffects.Proofs.Verdict.Course

/-!
# Assignments in programs

A program that is read declares no name twice in one block, so no name of a block is bound again
after an assignment to it (`Program.visits_declareOnce`). Hence every assignment in it is
tracked as `Tracks` says: `Program.check_assignments`.

An assignment to what is no callable is not tracked, and neither is one to a name with a forwarding
rule, or one of a collection. `assignments_lost` has a source for each of these where the effect of
what is assigned is lost, and nothing is reported.
-/

namespace RaisingEffects

open Analysis

/-! ## Blocks declare a name once -/

/-- The node is no block, or one that declares no name twice. -/
def Node.DeclaresOnce : Node Span → Prop
  | .block (.mk _ ss) => (ss.filterMap Stmt.declares?).Nodup
  | _ => True

section Visits

variable {c : Context}

/-- A well-formed part declares no name twice in any block that is visited. -/
theorem Analysed.declareOnce {s s' : AnalysisState} {t : Part Span} {vs : List Visit}
    {t' : Part Note} {known : List String} (h : Analysed c s t vs t' s') (ht : t.WellFormed known) :
    ∀ w ∈ vs, w.node.DeclaresOnce := by
  induction h generalizing known with
  | exprsNil | stmtsNil | restNone => simp
  | name | literal | returnNone => simp [Node.DeclaresOnce]
  | bodyBlock _ ih | bodyExpr _ ih | stmtExpr _ ih | restBlock _ ih => exact ih ht
  | block _ ih => exact List.forall_mem_cons.2 ⟨ht.1, ih ht.2⟩
  | collection _ ih | unary _ ih | returnSome _ ih | raise _ ih | letValue _ _ ih =>
    exact List.forall_mem_cons.2 ⟨trivial, ih ht⟩
  | letCollection _ ih =>
    exact List.forall_mem_cons.2 ⟨trivial, List.forall_mem_cons.2 ⟨trivial, ih ht⟩⟩
  | closure _ ih => exact List.forall_mem_cons.2 ⟨trivial, ih ht.2.2⟩
  | call _ ih | assign _ _ ih | insert _ _ ih =>
    exact List.forall_mem_cons.2 ⟨trivial, ih ht.2⟩
  | exprsCons _ _ ih₁ ih₂ | stmtsCons _ _ ih₁ ih₂ =>
    exact List.forall_mem_append.2 ⟨ih₁ ht.1, ih₂ ht.2⟩
  | binary _ _ ih₁ ih₂ | while_ _ _ ih₁ ih₂ | try_ _ _ ih₁ ih₂ | for_ _ _ ih₁ ih₂ =>
    exact List.forall_mem_cons.2 ⟨trivial, List.forall_mem_append.2 ⟨ih₁ ht.1, ih₂ ht.2⟩⟩
  | elif _ _ _ ih₁ ih₂ ih₃ =>
    exact List.forall_mem_append.2
      ⟨List.forall_mem_append.2 ⟨ih₁ ht.1, ih₂ ht.2.1⟩, ih₃ ht.2.2⟩
  | if_ _ _ _ ih₁ ih₂ ih₃ =>
    exact List.forall_mem_cons.2 ⟨trivial, List.forall_mem_append.2
      ⟨List.forall_mem_append.2 ⟨ih₁ ht.1, ih₂ ht.2.1⟩, ih₃ ht.2.2⟩⟩

theorem FunDecl.AnalysedAll.declareOnce {checkBodies : Bool} {s s' : AnalysisState}
    {pairs : List (FunDecl Span × Signature)} {vs : List Visit} {gs : List (FunDecl Note)}
    {known : List String} (h : AnalysedAll c checkBodies s pairs vs gs s')
    (hpairs : ∀ pair ∈ pairs, pair.1.WellFormed known) : ∀ w ∈ vs, w.node.DeclaresOnce := by
  induction h with
  | nil => simp
  | cons hbody _ ih =>
    obtain ⟨hg, hrest⟩ := List.forall_mem_cons.1 hpairs
    exact List.forall_mem_append.2 ⟨hbody.declareOnce hg.body, ih hrest⟩

end Visits

theorem Program.visits_declareOnce {p : Program Span} (hp : p.WellFormed)
    (isError : String → Bool) (settings : Settings) (skipped : List Ambiguity) :
    ∀ w ∈ p.visits isError settings skipped, w.node.DeclaresOnce := by
  obtain ⟨gs, s, -, h⟩ := p.derives settings isError skipped
  exact h.declareOnce fun pair hpair => hp.functions pair.1 (of_mem_signed hpair).1

/-! ## The statements of a block -/

def Visit.after (w : Visit) (pre : List (Stmt Span)) : AnalysisState :=
  (Stmt.analyseAll pre).final w.context (enter.final w.context w.state)

theorem Stmt.final_analyseAll_concat {c : Context} (hc : c.Collects) (pre : List (Stmt Span))
    (t : Stmt Span) (s : AnalysisState) :
    (Stmt.analyseAll (pre ++ [t])).final c s =
      t.analyse.final c ((Stmt.analyseAll pre).final c s) := by
  induction pre generalizing s with
  | nil =>
    obtain ⟨_, t', s', h⟩ := (Part.stmt t).derives _ s
    have ht := h.returns hc
    have hnil : (Stmt.analyseAll []).final c s = s := by
      rw [Stmt.analyseAll]
      rfl
    rw [List.nil_append, hnil, final_eq ht, Stmt.analyseAll, final_bind ht, Stmt.analyseAll]
    rfl
  | cons u pre ih =>
    obtain ⟨_, u', s₁, h⟩ := (Part.stmt u).derives _ s
    obtain ⟨_, _, s₂, h'⟩ := (Part.stmts pre).derives _ s₁
    obtain ⟨_, _, s₃, h''⟩ := (Part.stmts (pre ++ [t])).derives _ s₁
    have hu := h.returns hc
    have hpre := h'.returns hc
    have hall := h''.returns hc
    have hstep := ih s₁
    rw [final_eq hall, final_eq hpre] at hstep
    rw [List.cons_append, Stmt.analyseAll, Stmt.analyseAll, final_bind hu, final_bind hu,
      final_bind hall, final_bind hpre]
    exact hstep

/-- In the scope of a block are the names that its statements declared so far. -/
theorem Visit.after_linked {w : Visit} (hc : w.context.Collects) (hs : w.state.Linked)
    (pre : List (Stmt Span)) :
    (w.after pre).Linked ∧ (w.after pre).env.length = w.state.env.length + 1 ∧
      ∀ name ∉ pre.filterMap Stmt.declares?,
        (w.after pre).env.meaning w.state.env.length name = none := by
  have henter : Change w.context.policy [] 0 w.state 1
      { w.state with env := [] :: w.state.env } := .enter 0 w.state
  obtain ⟨_, _, t, h⟩ := (Part.stmts pre).derives _ { w.state with env := [] :: w.state.env }
  have hcourse : Course w.context _ (pre.filterMap Stmt.declares?) 0 _ t _ _ :=
    h.course hc 0 fun _ _ hname => hname
  have hafter : w.after pre = t := final_eq (h.returns hc)
  obtain ⟨hlinked, hlength, hrises⟩ :=
    hcourse.run.rises_end (henter.linked hs) (Nat.succ_pos _)
  rw [hafter]
  refine ⟨hlinked, hlength, fun name hname => ?_⟩
  have hnone : Env.meaning ([] :: w.state.env) w.state.env.length name = none := by
    rw [Env.meaning_enter]
    exact Env.meaning_of_length_le (Nat.le_refl _)
  rcases eq_none_or_some_of_rel
      (hrises.meanings w.state.env.length name (Nat.lt_succ_self _) fun _ => hname) with
    ⟨-, ht⟩ | ⟨b, _, hb, -⟩
  · exact ht
  · rw [hnone] at hb
    cases hb

/-! ## Programs -/

/-- **Assignments are tracked as far as callables go.** In a program that is read, consider any
assignment in any block and what the check comes to after it in the same block. -/
theorem Program.check_assignments {source : String} {r : Reading}
    (h : Program.parse source = .ok r) (settings : Settings) (isError : String → Bool) :
    ∃ v, r.program.check settings isError r.skipped = .ok v ∧
      ∀ w ∈ r.program.visits isError settings r.skipped, ∀ span pre aspan target value post,
        w.node = .block (.mk span (pre ++ .assign aspan target value :: post)) →
        ∃ value' s, value.analyse w.context (w.after pre) = (.ok value', s) ∧
          Tracks s target (s.env.effectOf value')
            (Stmt.visitsAll w.context post (w.after (pre ++ [.assign aspan target value]))) := by
  obtain ⟨v, s', hv, -, -, hchecks⟩ := r.program.check_course settings isError r.skipped
  refine ⟨v, hv, fun w hw span pre aspan target value post hnode => ?_⟩
  have hc : w.context.Collects := by
    rw [hchecks.contexts w hw]
    exact ⟨rfl, fun _ => rfl⟩
  have hs := (hchecks.run.linked (r.program.seeded_linked r.skipped)).2 w hw
  obtain ⟨hlinked, hlength, hbefore⟩ := Visit.after_linked hc hs pre
  obtain ⟨tokens, hlex, hread⟩ := Program.exists_tokens h
  have hwellFormed := Program.ofTokens_wellFormed hlex hread
  have honce := visits_declareOnce hwellFormed isError settings r.skipped w hw
  rw [hnode] at honce
  have hnodup : (pre.filterMap Stmt.declares? ++ post.filterMap Stmt.declares?).Nodup := by
    have hdeclared : (pre ++ .assign aspan target value :: post).filterMap Stmt.declares? =
        pre.filterMap Stmt.declares? ++ post.filterMap Stmt.declares? := by
      rw [List.filterMap_append, List.filterMap_cons_none rfl]
    rw [← hdeclared]
    exact honce
  have hfresh : ∀ name ∈ post.filterMap Stmt.declares?,
      (w.after pre).env.meaning ((w.after pre).env.length - 1) name = none := by
    intro name hname
    rw [hlength]
    exact hbefore name fun hmem => (List.nodup_append.1 hnodup).2.2 name hmem name hname rfl
  have hafter : w.after (pre ++ [.assign aspan target value]) =
      (Stmt.assign aspan target value).analyse.final w.context (w.after pre) :=
    Stmt.final_analyseAll_concat hc pre _ _
  rw [hafter]
  exact Stmt.assign_tracks hc hlinked (by omega) hfresh aspan target value

/-! ## Sources -/

/-- The closures that are assigned: the name, and the effect noted at the closure. -/
def Verdict.assigned (v : Verdict) : List (String × Option Effect) :=
  v.program.bodies.filterMap fun
    | .stmt (.assign _ target (.closure loc ..)) => some (target, loc.effect)
    | _ => none

def Verdict.called (v : Verdict) : List (String × Option Effect) :=
  v.program.bodies.filterMap fun
    | .expr (.call loc callee _) => some (callee, loc.effect)
    | _ => none

/-- The names that the statements of a block assign to. -/
def Node.targets : Node Span → List String
  | .block (.mk _ ss) => ss.filterMap fun
    | .assign _ target _ => some target
    | _ => none
  | _ => []

theorem Node.exists_assign_of_mem_targets {n : Node Span} {target : String}
    (h : target ∈ n.targets) : ∃ span pre aspan value post,
      n = .block (.mk span (pre ++ .assign aspan target value :: post)) := by
  unfold Node.targets at h
  split at h
  · rename_i span ss
    obtain ⟨t, ht, htarget⟩ := List.mem_filterMap.1 h
    obtain ⟨pre, post, rfl⟩ := List.append_of_mem ht
    split at htarget
    · cases htarget
      exact ⟨span, pre, _, _, post, rfl⟩
    · cases htarget
  · cases h

/-- A source with an assignment that fits in a block of its own, and one that does not fit. -/
def trackedSource : String := "error E;
fn f(x: fn() raises) raises \x7b
  if true \x7b x = || \x7b raise E(); \x7d; x(); \x7d
  let mut y = || 1; y = || \x7b raise E(); \x7d; y();
\x7d"

set_option maxRecDepth 8192 in
theorem Program.check_assignments_fitting :
    ∃ r v w span pre aspan value post, Program.parse trackedSource = .ok r ∧
      r.program.check {} r.program.declaresError r.skipped = .ok v ∧
      ("x", some .raisesAny) ∈ v.assigned ∧ ("x", some .raisesAny) ∈ v.called ∧
      w ∈ r.program.visits r.program.declaresError {} r.skipped ∧
      w.node = .block (.mk span (pre ++ .assign aspan "x" value :: post)) ∧
      ∃ value' s, value.analyse w.context (w.after pre) = (.ok value', s) ∧
        Tracks s "x" (s.env.effectOf value')
          (Stmt.visitsAll w.context post (w.after (pre ++ [.assign aspan "x" value]))) := by
  obtain ⟨r, v, hr, hv, hassigned, hcalled, w, hw, htarget⟩ :=
    Program.exists_verdict trackedSource {} (fun r v =>
      ("x", some .raisesAny) ∈ v.assigned ∧ ("x", some .raisesAny) ∈ v.called ∧
      ∃ w ∈ r.program.visits r.program.declaresError {} r.skipped, "x" ∈ w.node.targets) rfl
        (by decide +kernel)
  obtain ⟨span, pre, aspan, value, post, hnode⟩ := Node.exists_assign_of_mem_targets htarget
  obtain ⟨-, -, htracks⟩ := Program.check_assignments hr {} r.program.declaresError
  exact ⟨r, v, w, span, pre, aspan, value, post, hr, hv, hassigned, hcalled, hw, hnode,
    htracks w hw span pre aspan "x" value post hnode⟩

/-- A closure that raises is assigned to a name for plain data, and called. -/
def assignedValueSource : String :=
  "error E; fn f() \x7b let mut x = 1; x = || \x7b raise E(); \x7d; x(); \x7d"

/-- A closure that raises is assigned to another name of a forwarding function, and called. -/
def assignedRuleSource : String := "error E; fn fw(g: fn() raises(E)) forwards(g) \x7b g(); \x7d
fn f() \x7b let mut x = fw; x = || raises(E) \x7b raise E(); \x7d; x(|| 1); \x7d"

/-- A collection of closures that raise is assigned to the name of another, and looped over. -/
def assignedCollectionSource : String := "error E; fn f() \x7b let mut x = [|| 1];
x = [|| \x7b raise E(); \x7d]; for h in x \x7b h(); \x7d \x7d"

set_option maxRecDepth 8192 in
/-- What is assigned raises, the calls after it are taken to raise nothing, and nothing is
reported. -/
theorem assignments_lost :
    (∃ r v, Program.parse assignedValueSource = .ok r ∧
      r.program.check {} r.program.declaresError r.skipped = .ok v ∧
      v.assigned = [("x", some .raisesAny)] ∧ ("x", some .nothrow) ∈ v.called ∧
      v.diagnostics = []) ∧
    (∃ r v, Program.parse assignedRuleSource = .ok r ∧
      r.program.check {} r.program.declaresError r.skipped = .ok v ∧
      v.assigned = [("x", some (.raises "E"))] ∧ ("x", some .nothrow) ∈ v.called ∧
      v.diagnostics = []) ∧
    ∃ r v, Program.parse assignedCollectionSource = .ok r ∧
      r.program.check {} r.program.declaresError r.skipped = .ok v ∧
      v.aggregates.map Aggregate.effect = [some .nothrow, some .raisesAny] ∧
      ("h", some .nothrow) ∈ v.called ∧ v.diagnostics = [] := by
  refine ⟨Program.exists_verdict assignedValueSource {} _ rfl ?_,
    Program.exists_verdict assignedRuleSource {} _ rfl ?_,
    Program.exists_verdict assignedCollectionSource {} _ rfl ?_⟩ <;> decide +kernel

end RaisingEffects
