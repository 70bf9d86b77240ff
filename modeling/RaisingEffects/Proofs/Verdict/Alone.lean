import RaisingEffects.Proofs.Analysis.Alike
import RaisingEffects.Proofs.Analysis.Scopes
import RaisingEffects.Proofs.Verdict.Bodies

/-!
# Functions checked alone

`FunDecl.alone` checks one function in a scope with the declarations, as if there were no other
bodies. In the check of a program the body is analysed after others, which leave aggregates behind
and may have changed the scope. As long as the scope is as it was, the function is checked as it is
alone, up to the numbers of aggregates, with the same entries in the log
(`AnalysisState.Awaits.checkFunction`), and so are all functions one after the other if each of them
leaves the scope as it was (`Analysis.checkFunctions_alone`).
-/

namespace RaisingEffects

open Analysis

/-- The note without the number of its aggregate. -/
def Note.unnumbered (n : Note) : Note := { n with aggregate := none }

theorem FunDecl.map_unnumbered_relabel {ρ : Relabelling} (hplace : ρ.place = fun pos => pos)
    (g : FunDecl Note) : (g.map (Note.relabel ρ)).map Note.unnumbered = g.map Note.unnumbered := by
  have hnote : ∀ n : Note, (n.relabel ρ).unnumbered = n.unnumbered := by
    intro n
    rw [Note.unnumbered, Note.relabel, hplace, funext Forwarding.move_id, Option.map_id']
    rfl
  rw [FunDecl.map_map, funext hnote]

/-- The signature with its numbers and its places changed. -/
def Signature.relabel (ρ : Relabelling) (sig : Signature) : Signature :=
  ⟨sig.params.map (Binding.relabel ρ), sig.binding.relabel ρ⟩

namespace Analysis

variable {c : Context} {ρ : Relabelling}

theorem notedFunction_relabel (g : FunDecl Span) (sig : Signature) (body : Block Note)
    (b e : Effect) :
    (notedFunction g sig body b e).map (Note.relabel ρ) =
      notedFunction (g.map (Span.move ρ.place)) (sig.relabel ρ)
        (body.map (Note.relabel ρ)) b e := by
  simp only [notedFunction, FunDecl.map, Param.list_relabel_blank, Clause.option_relabel_blank,
    TypeExpr.option_relabel_blank]
  rfl

theorem judgement_move (place : Pos → Pos) (checkBodies : Bool) (g : FunDecl Span)
    (declared b : Effect) :
    (g.map (Span.move place)).judgement checkBodies declared b =
      (g.judgement checkBodies declared b).map (LogEntry.move place) := by
  unfold FunDecl.judgement
  split <;> rfl

/-- The check of a function depends on neither numbers nor places. -/
theorem checkFunction_alike (hc : c.Collects) (checkBodies : Bool) (g : FunDecl Span)
    (sig : Signature) :
    Alike c ρ (checkFunction checkBodies g sig)
      (checkFunction checkBodies (g.map (Span.move ρ.place)) (sig.relabel ρ))
      (FunDecl.map (Note.relabel ρ)) := by
  intro s t hst
  obtain ⟨⟨body, b⟩, s₁, t₁, hs, ht, h₁⟩ := Alike.inScope
    (((defineAll_mirrors (g.params.map Param.name) sig.params).alike hc.failFast).bind fun _ =>
      bodyEffect_alike hc g.body) s t hst
  rw [← Param.names_map (Span.move ρ.place)] at ht
  have hmoved : checkFunction checkBodies (g.map (Span.move ρ.place)) (sig.relabel ρ) c t = _ :=
    checkFunction_eq ht checkBodies
  refine ⟨_, _, _, checkFunction_eq hs checkBodies, hmoved.trans ?_, h₁.logged ..⟩
  rw [judgement_move, notedFunction_relabel]
  rfl

/-- The check of a function adds no candidates and takes no aggregate away. -/
theorem checkFunction_frame (hc : c.Collects) (checkBodies : Bool) (g : FunDecl Span)
    (sig : Signature) (s : AnalysisState) :
    Yields c s (checkFunction checkBodies g sig) fun _ s' =>
      s'.candidates = s.candidates ∧ s.aggregates.length ≤ s'.aggregates.length := by
  obtain ⟨⟨body, b⟩, _, hrun, s₁, -, rfl, h⟩ :=
    functionBody_derives hc ((g.params.map Param.name).zip sig.params) g.body s
  exact ⟨_, _, checkFunction_eq hrun checkBodies, rfl, h.traced.2.aggregates_le⟩

end Analysis

/-! ## The numbers of a function's aggregates -/

section Numbers

variable {isError : String → Bool} {ρ : Relabelling}

theorem Param.binding_relabel {p : Param Span} {id id' : Nat}
    (h : 0 < (p.aggregates isError).length → ρ.number id = id') :
    (p.binding isError id).relabel ρ = p.binding isError id' := by
  obtain ⟨name, _ | ⟨loc, type, args⟩ | ⟨loc, params, clause, result⟩⟩ := p
  · rfl
  · dsimp only [Param.binding, Param.aggregates] at h ⊢
    cases hclause : Option.bind (some (TypeExpr.named loc type args)) elementClause? with
    | some clause =>
      obtain rfl : ρ.number id = id' := h (by rw [hclause]; exact Nat.one_pos)
      rfl
    | none =>
      dsimp only
      cases errorType? isError (some (TypeExpr.named loc type args)) <;> rfl
  · rfl

theorem Param.bindings_relabel {ps : List (Param Span)} {id id' : Nat}
    (h : ∀ i < (ps.flatMap (Param.aggregates isError)).length, ρ.number (id + i) = id' + i) :
    (Param.bindings isError id ps).map (Binding.relabel ρ) = Param.bindings isError id' ps := by
  induction ps generalizing id id' with
  | nil => rfl
  | cons p ps ih =>
    rw [List.flatMap_cons, List.length_append] at h
    rw [Param.bindings, Param.bindings, List.map_cons]
    refine congrArg₂ List.cons (Param.binding_relabel fun hp => h 0 (by omega)) (ih fun i hi => ?_)
    have hnumber := h ((p.aggregates isError).length + i) (by omega)
    rw [Nat.add_assoc, hnumber, Nat.add_assoc]

end Numbers

/-- The numbers that the aggregates of a function checked alone have in the state `t`, where those
of its parameters start at `id`. The places stay as they are. -/
def FunDecl.relabelling (isError : String → Bool) (g : FunDecl Span) (id : Nat) (t : AnalysisState)
    (h : id + (g.aggregates isError).length ≤ t.aggregates.length) : Relabelling where
  number i :=
    if i < (g.aggregates isError).length then id + i
    else t.aggregates.length + (i - (g.aggregates isError).length)
  place := fun pos => pos
  injective := by
    intro i j hij
    dsimp only at hij
    split at hij <;> split at hij <;> omega
  log := []
  log' := t.log
  before := t.aggregates

theorem FunDecl.signature_relabel (isError : String → Bool) (g : FunDecl Span) {id : Nat}
    {t : AnalysisState} (h : id + (g.aggregates isError).length ≤ t.aggregates.length) :
    (g.signature isError 0).relabel (g.relabelling isError id t h) = g.signature isError id := by
  refine congrArg₂ Signature.mk (Param.bindings_relabel fun i hi => ?_)
    (Binding.relabel_of_aggregate _ rfl (g.binding_aggregate isError))
  rw [Nat.zero_add]
  exact if_pos hi

/-! ## One function -/

/-- Checks a function in a scope with the declarations, before any other body is analysed. -/
def FunDecl.alone (c : Context) (checkBodies : Bool) (scope : Table Binding) (g : FunDecl Span) :
    Except Violation (FunDecl Note) × AnalysisState :=
  within g.name (checkFunction checkBodies g (g.signature c.isError 0)) c
    { env := [scope], aggregates := g.aggregates c.isError }

/-- What is logged about the body of a function checked alone. -/
def FunDecl.aloneLog (c : Context) (checkBodies : Bool) (scope : Table Binding)
    (g : FunDecl Span) : List (Option String × LogEntry) :=
  (g.alone c checkBodies scope).2.log

/-- The function checked alone leaves the scope as it was: it assigns nothing that does not fit to a
name that it has not bound itself. -/
def FunDecl.LeavesScope (c : Context) (checkBodies : Bool) (scope : Table Binding)
    (g : FunDecl Span) : Prop :=
  (g.alone c checkBodies scope).2.env = [scope]

instance (c : Context) (checkBodies : Bool) (scope : Table Binding) (g : FunDecl Span) :
    Decidable (g.LeavesScope c checkBodies scope) :=
  inferInstanceAs (Decidable (_ = _))

/-- The function checked alone, without the numbers of aggregates. -/
def FunDecl.outcome? (c : Context) (checkBodies : Bool) (scope : Table Binding)
    (g : FunDecl Span) : Option (FunDecl Note) :=
  (g.alone c checkBodies scope).1.toOption.map (·.map Note.unnumbered)

theorem Table.Declares.map_relabel {scope : Table Binding} {names : List String}
    (h : scope.Declares names) {ρ : Relabelling} (hplace : ρ.place = fun pos => pos)
    (name : String) : (scope.get? name).map (Binding.relabel ρ) = scope.get? name := by
  cases hb : scope.get? name with
  | none => rfl
  | some b =>
    rw [Option.map_some, b.relabel_of_aggregate ρ hplace (h.plain _ (Table.mem_of_get? hb))]

/-- A function checked alone leaves the scope as it was, or reports an assignment to a callable of
it. -/
theorem FunDecl.reassigned_or_leavesScope {c : Context} {scope : Table Binding}
    {names : List String} (hc : c.Collects) (checkBodies : Bool) (hscope : scope.Declares names)
    (g : FunDecl Span) : Reassigned names (g.aloneLog c checkBodies scope) (some g.name) ∨
      g.LeavesScope c checkBodies scope := by
  have hc' := hc.within g.name
  obtain ⟨⟨body, b⟩, _, hrun, s₁, -, rfl, hbody⟩ := functionBody_derives hc' _ g.body
    { env := [scope], aggregates := g.aggregates c.isError }
  have hcourse : Course _ (fun _ => False) [] 1 _ s₁ _ _ := hbody.course hc' 1 (by simp)
  obtain ⟨hs₁, -⟩ := hcourse.run.invariant
    (fun h => h.scopes hscope) (.inr (Env.Inside.defineAll ⟨[[]], rfl, rfl⟩ _))
  have halone : g.alone c checkBodies scope = _ := checkFunction_eq hrun checkBodies
  rw [aloneLog, LeavesScope, halone]
  rcases hs₁.imp_right Env.Inside.pop with ⟨f, w, hw, hname⟩ | ⟨locals, hlocals, henv⟩
  · obtain ⟨new, hnew, hreported⟩ := hcourse.reported
    obtain rfl : s₁.log = new := hnew
    obtain ⟨v, hv, rfl, -⟩ := (hreported f w hw).resolve_left And.right
    rw [hcourse.contexts v hv] at hw
    exact .inl ⟨w, List.mem_append_left _ hw, hname⟩
  · rw [List.length_eq_zero_iff.1 hlocals] at henv
    exact .inr henv

/-- The check of functions has come to `gs`: names have the meanings in `scope`, and the aggregates
of the parameters, which start at `id`, are as the signatures left them. -/
structure AnalysisState.Awaits (isError : String → Bool) (scope : Table Binding) (id : Nat)
    (gs : List (FunDecl Span)) (t : AnalysisState) : Prop where
  env : ∃ table : Table Binding, t.env = [table] ∧ ∀ name, table.get? name = scope.get? name
  candidates : t.candidates = []
  bound : id + (gs.flatMap (FunDecl.aggregates isError)).length ≤ t.aggregates.length
  aggregates : ∀ i < (gs.flatMap (FunDecl.aggregates isError)).length,
    t.aggregates[id + i]? = (gs.flatMap (FunDecl.aggregates isError))[i]?

namespace AnalysisState.Awaits

variable {c : Context} {scope : Table Binding} {names : List String} {id : Nat} {g : FunDecl Span}
  {gs : List (FunDecl Span)} {t : AnalysisState} {isError : String → Bool}

theorem head_bound (h : t.Awaits isError scope id (g :: gs)) :
    id + (g.aggregates isError).length ≤ t.aggregates.length := by
  have hbound := h.bound
  rw [List.flatMap_cons, List.length_append] at hbound
  omega

/-- The next function can be checked as it is alone. -/
theorem relabels (hscope : scope.Declares names) (h : t.Awaits isError scope id (g :: gs)) :
    AnalysisState.Relabels (g.relabelling isError id t h.head_bound)
      { env := [scope], aggregates := g.aggregates isError } t where
  env := by
    obtain ⟨table, henv, htable⟩ := h.env
    rw [henv]
    refine .cons (fun name => ?_) .nil
    rw [htable name, hscope.map_relabel rfl]
  candidates := h.candidates
  aggregates := by
    intro i
    dsimp only [FunDecl.relabelling]
    split
    · rename_i hi
      have hown := h.aggregates i
        (by rw [List.flatMap_cons, List.length_append]; omega)
      rw [hown, List.flatMap_cons, List.getElem?_append_left hi]
    · rw [List.getElem?_eq_none (by omega), List.getElem?_eq_none (by omega)]
  others := fun _ _ => rfl
  next := by
    dsimp only [FunDecl.relabelling]
    rw [if_neg (by omega), Nat.sub_self, Nat.add_zero]
  step := by
    intro i hi
    dsimp only [FunDecl.relabelling] at hi ⊢
    rw [if_neg (by omega), if_neg (by omega)]
    omega
  log := ⟨[], rfl, (List.append_nil _).symm⟩

/-- After a function that left the scope as it was, the check comes to the functions after it. -/
theorem tail (hscope : scope.Declares names) (h : t.Awaits isError scope id (g :: gs))
    {s' t' : AnalysisState} (h' : s'.Relabels (g.relabelling isError id t h.head_bound) t')
    (henv : s'.env = [scope]) (hcandidates : t'.candidates = t.candidates)
    (hlength : t.aggregates.length ≤ t'.aggregates.length) :
    t'.Awaits isError scope (id + (g.aggregates isError).length) gs := by
  have hbound := h.bound
  have haggregates := h.aggregates
  rw [List.flatMap_cons, List.length_append] at hbound haggregates
  refine ⟨?_, hcandidates.trans h.candidates, by omega, fun i hi => ?_⟩
  · have henv' := h'.env
    rw [henv] at henv'
    obtain ⟨table, rest, htable, hrest, heq⟩ := List.forall₂_cons_left_iff.1 henv'
    rw [List.forall₂_nil_left_iff.1 hrest] at heq
    refine ⟨table, heq, fun name => ?_⟩
    rw [htable name, hscope.map_relabel rfl]
  · -- the numbers between those of the function and the end of the list are not used by it
    have hother : ∀ j, (g.relabelling isError id t h.head_bound).number j ≠
        id + (g.aggregates isError).length + i := by
      intro j
      dsimp only [FunDecl.relabelling]
      split <;> omega
    have hkept : t'.aggregates[id + (g.aggregates isError).length + i]? =
        t.aggregates[id + (g.aggregates isError).length + i]? := h'.others _ hother
    rw [hkept, Nat.add_assoc, haggregates _ (by omega),
      List.getElem?_append_right (Nat.le_add_right ..), Nat.add_sub_cancel_left]

/-- **A function whose turn has come is checked as it is alone.** If it leaves the scope as it was,
the check then comes to the functions after it. -/
theorem checkFunction (hc : c.Collects) (checkBodies : Bool) (hscope : scope.Declares names)
    (h : t.Awaits c.isError scope id (g :: gs)) :
    ∃ g' t', within g.name (Analysis.checkFunction checkBodies g (g.signature c.isError id)) c t =
        (.ok g', t') ∧
      g.outcome? c checkBodies scope = some (g'.map Note.unnumbered) ∧
      t'.log = t.log ++ g.aloneLog c checkBodies scope ∧
      (g.LeavesScope c checkBodies scope →
        t'.Awaits c.isError scope (id + (g.aggregates c.isError).length) gs) := by
  have hc' := hc.within g.name
  have hplaces : g.map (Span.move fun pos => pos) = g := g.map_id
  obtain ⟨g', s', t', hs, ht, h'⟩ := checkFunction_alike hc' checkBodies g
    (g.signature c.isError 0) _ _ (h.relabels hscope)
  rw [g.signature_relabel, FunDecl.relabelling, hplaces] at ht
  have halone : g.alone c checkBodies scope = (.ok g', s') := hs
  obtain ⟨_, _, ht', hcandidates, hlength⟩ :=
    checkFunction_frame hc' checkBodies g (g.signature c.isError id) t
  cases ht.symm.trans ht'
  refine ⟨_, t', ht, ?_, ?_, fun hleaves => ?_⟩
  · rw [FunDecl.outcome?, halone, FunDecl.map_unnumbered_relabel rfl]
    rfl
  · obtain ⟨new, hnew, hlog⟩ := h'.log
    simp only [FunDecl.relabelling, LogEntry.move_id, Prod.eta, List.map_id'] at hlog
    rw [FunDecl.aloneLog, halone, hlog, hnew]
    rfl
  · rw [FunDecl.LeavesScope, halone] at hleaves
    exact h.tail hscope h' hleaves hcandidates hlength

end AnalysisState.Awaits

/-! ## All functions -/

namespace Analysis

variable {c : Context} {scope : Table Binding} {names : List String}

/-- **Functions are checked one after the other as each is alone,** if each of them leaves the scope
as it was. -/
theorem checkFunctions_alone (hc : c.Collects) (checkBodies : Bool)
    (hscope : scope.Declares names) {gs : List (FunDecl Span)}
    (hleaves : ∀ g ∈ gs, g.LeavesScope c checkBodies scope) {id : Nat} {t : AnalysisState}
    (h : t.Awaits c.isError scope id gs) :
    Yields c t (checkFunctions checkBodies (gs.zip (FunDecl.signatures c.isError id gs)))
      fun gs' t' => t'.log = t.log ++ gs.flatMap (FunDecl.aloneLog c checkBodies scope) ∧
        gs.map (FunDecl.outcome? c checkBodies scope) =
          gs'.map fun g' => some (g'.map Note.unnumbered) := by
  induction gs generalizing id t with
  | nil => exact .pure ⟨(List.append_nil _).symm, rfl⟩
  | cons g gs ih =>
    obtain ⟨hg, hgs⟩ := List.forall_mem_cons.1 hleaves
    obtain ⟨g', t₁, hrun, houtcome, hlog, hnext⟩ := h.checkFunction hc checkBodies hscope
    refine .after hrun ((ih hgs (hnext hg)).bind fun gs' t₂ h₂ => .pure ⟨?_, ?_⟩)
    · rw [h₂.1, hlog, List.flatMap_cons, List.append_assoc]
    · rw [List.map_cons, List.map_cons, houtcome, h₂.2]

/-- If each function that reports an assignment to a callable of the scope leaves the scope as it
was, then so do all functions. -/
theorem leavesScope_of_run (hc : c.Collects) (checkBodies : Bool) (hscope : scope.Declares names)
    {gs : List (FunDecl Span)} {id : Nat} {t t' : AnalysisState} {gs' : List (FunDecl Note)}
    (h : t.Awaits c.isError scope id gs)
    (hrun : checkFunctions checkBodies (gs.zip (FunDecl.signatures c.isError id gs)) c t =
      (.ok gs', t'))
    (hquiet : ∀ g ∈ gs, Reassigned names t'.log (some g.name) →
      g.LeavesScope c checkBodies scope) :
    ∀ g ∈ gs, g.LeavesScope c checkBodies scope := by
  induction gs generalizing id t gs' with
  | nil => simp
  | cons g gs ih =>
    obtain ⟨g', t₁, hg, -, hlog, hnext⟩ := h.checkFunction hc checkBodies hscope
    obtain ⟨gs₁, t₂, hgs, hderived⟩ := checkFunctions_derives hc checkBodies
      (gs.zip (FunDecl.signatures c.isError (id + (g.aggregates c.isError).length) gs)) t₁
    obtain ⟨hgrows, -⟩ := hderived.judged hc
    have hall : checkFunctions checkBodies
        ((g :: gs).zip (FunDecl.signatures c.isError id (g :: gs))) c t = (.ok (g' :: gs₁), t₂) :=
      (bind_eq_of_ok hg).trans (bind_eq_of_ok hgs)
    cases hall.symm.trans hrun
    obtain ⟨hfirst, hrest⟩ := List.forall_mem_cons.1 hquiet
    have hleaves : g.LeavesScope c checkBodies scope := by
      rcases g.reassigned_or_leavesScope hc checkBodies hscope with hre | hleaves
      · refine hfirst (hre.mono fun entry hentry => hgrows.subset ?_)
        rw [hlog]
        exact List.mem_append_right _ hentry
      · exact hleaves
    exact List.forall_mem_cons.2 ⟨hleaves, ih (hnext hleaves) hgs hrest⟩

end Analysis

end RaisingEffects
