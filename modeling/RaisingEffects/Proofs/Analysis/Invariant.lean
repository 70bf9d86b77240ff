import RaisingEffects.Proofs.Analysis.Trace
import RaisingEffects.Proofs.Tree.Walk

/-!
# Invariants of the walk over a body

An `Invariant` is a property of states, together with properties of the effects that are noted on
the way. `Walked` says what holds of the visits and of the nodes of a walk that starts in a state
with the property:

* it holds in every state that the walk comes through (`Walked.states`);
* the effects that are noted have their property (`Walked.noted`), and every noted call was
  evaluated in one of these states (`Walked.calls`).
-/

namespace RaisingEffects

/-- The effect noted at a node, if there is one, has the property. -/
def Node.Carries (P : Effect → Prop) (n : Node Note) : Prop := ∀ e, n.effect? = some e → P e

/-- Whether a node is a raise. -/
def Node.isRaise {α : Type} : Node α → Bool
  | .stmt (.raise ..) => true
  | _ => false

namespace Analysis

variable {c : Context}

/-- A property of states that the parts of the walk over a body keep. `Holds d s` is the property,
where `d` scopes are open, `Allows` is about the effects of values, calls and closures, and `Raised`
about those of raises. -/
structure Invariant where
  Holds : Nat → AnalysisState → Prop
  Allows : Effect → Prop
  Raised : Effect → Prop

/-- What an invariant says about a node. -/
def Invariant.Noted (J : Invariant) (n : Node Note) : Prop :=
  n.ofSignature = false → n.Carries J.Allows ∧ (n.isRaise = true → n.Carries J.Raised)

/-- What an invariant says about the visits of an analysis, and the nodes that it returns. -/
structure Invariant.Walked (J : Invariant) (c : Context) (visits : List Visit)
    (nodes : List (Node Note)) : Prop where
  states : ∀ v ∈ visits, v.context = { c with function := v.context.function } ∧
    ∃ d, J.Holds d v.state
  noted : ∀ n ∈ nodes, J.Noted n
  calls : ∀ loc callee args, Node.expr (.call loc callee args) ∈ nodes →
    ∃ v ∈ visits, ∃ s e entries, loc.effect = some e ∧ v.Evaluates callee args s e entries

namespace Invariant

variable {J : Invariant}

namespace Noted

variable {n : Node Note}

theorem silent (h : n.effect? = none) : J.Noted n := by
  have hcarries (P : Effect → Prop) : n.Carries P := fun e he => by rw [h] at he; cases he
  exact fun _ => ⟨hcarries _, fun _ => hcarries _⟩

/-- A node that is no raise and carries an allowed effect. -/
theorem allowed (hraise : n.isRaise = false) (h : n.Carries J.Allows) : J.Noted n :=
  fun _ => ⟨h, fun hr => by rw [hraise] at hr; cases hr⟩

theorem of_ofSignature (h : n.ofSignature = true) : J.Noted n :=
  fun h' => by rw [h] at h'; cases h'

end Noted

namespace Walked

variable {vs ws : List Visit} {ns ms : List (Node Note)}

theorem nil : J.Walked c [] [] := ⟨by simp, by simp, by simp⟩

variable (h : J.Walked c vs ns)

include h

theorem append (h' : J.Walked c ws ms) : J.Walked c (vs ++ ws) (ns ++ ms) where
  states := fun v hv => (List.mem_append.1 hv).elim (h.states v) (h'.states v)
  noted := fun n hn => (List.mem_append.1 hn).elim (h.noted n) (h'.noted n)
  calls := by
    intro loc callee args hn
    rcases List.mem_append.1 hn with hn | hn
    · obtain ⟨v, hv, hcall⟩ := h.calls loc callee args hn
      exact ⟨v, List.mem_append_left _ hv, hcall⟩
    · obtain ⟨v, hv, hcall⟩ := h'.calls loc callee args hn
      exact ⟨v, List.mem_append_right _ hv, hcall⟩

/-- The nodes may be listed in any order and any number of times, with others that are no calls. -/
theorem relist (hm : ∀ n ∈ ms, n ∈ ns ∨ J.Noted n ∧ n.callee? = none) : J.Walked c vs ms where
  states := h.states
  noted := fun n hn => (hm n hn).elim (h.noted n) And.left
  calls := by
    intro loc callee args hn
    rcases hm _ hn with hn | ⟨-, hcall⟩
    · exact h.calls loc callee args hn
    · cases hcall

/-- Types and clauses may be added. -/
theorem with_signature (hm : ∀ n ∈ ms, n.ofSignature = true) : J.Walked c vs (ns ++ ms) := by
  refine h.relist fun n hn => (List.mem_append.1 hn).imp_right fun hn => ?_
  have hsig := hm n hn
  refine ⟨.of_ofSignature hsig, ?_⟩
  cases n with
  | clause => rfl
  | type => rfl
  | _ => cases hsig

theorem with_types (type : Option (TypeExpr Note)) :
    J.Walked c vs (ns ++ type.toList.flatMap TypeExpr.walk) :=
  h.with_signature fun _ hn => Node.ofSignature_of_mem_types hn

theorem with_clause (clause : Option (Clause Note)) :
    J.Walked c vs (ns ++ clause.toList.map .clause) :=
  h.with_signature fun _ hn => Node.ofSignature_of_mem_clauses hn

/-- A visit in a state with the property. -/
theorem visit {d : Nat} {s : AnalysisState} (hs : J.Holds d s) (n : Node Span) :
    J.Walked c (⟨c, s, n⟩ :: vs) ns where
  states := List.forall_mem_cons.2 ⟨⟨rfl, d, hs⟩, h.states⟩
  noted := h.noted
  calls := by
    intro loc callee args hn
    obtain ⟨v, hv, hcall⟩ := h.calls loc callee args hn
    exact ⟨v, List.mem_cons_of_mem _ hv, hcall⟩

/-- A node that is no call. -/
theorem node {n : Node Note} (hn : J.Noted n) (hcall : n.callee? = none) :
    J.Walked c vs (n :: ns) := by
  refine h.relist fun m hm => ?_
  rcases List.mem_cons.1 hm with rfl | hm
  · exact .inr ⟨hn, hcall⟩
  · exact .inl hm

omit h

/-- A call, with the visit that evaluates it. -/
theorem call (span : Span) {callee : String} {args : List (Expr Note)} {v : Visit}
    {s : AnalysisState} {e : Effect} {entries : List (Option String × LogEntry)}
    (h : J.Walked c (v :: vs) ns) (he : J.Allows e) (hv : v.Evaluates callee args s e entries) :
    J.Walked c (v :: vs) (.expr (.call { span, effect := some e } callee args) :: ns) where
  states := h.states
  noted := by
    refine List.forall_mem_cons.2 ⟨.allowed rfl fun e' he' => ?_, h.noted⟩
    obtain rfl := Option.some.inj he'
    exact he
  calls := by
    intro loc' callee' args' hmem
    rcases List.mem_cons.1 hmem with heq | hmem
    · cases heq
      exact ⟨v, List.mem_cons_self .., s, e, entries, rfl, hv⟩
    · exact h.calls loc' callee' args' hmem

theorem carriesAll {es : List (Expr Note)} (h : J.Walked c vs (Expr.walkAll es)) :
    ∀ e ∈ es, (Node.expr e).Carries J.Allows :=
  fun _ he => (h.noted _ (Expr.mem_walkAll he) rfl).1

theorem carries {e : Expr Note} (h : J.Walked c vs e.walk) : (Node.expr e).Carries J.Allows :=
  (h.noted _ e.mem_walk rfl).1

end Walked

end Invariant

end Analysis

end RaisingEffects
