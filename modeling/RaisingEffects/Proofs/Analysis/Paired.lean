import RaisingEffects.Proofs.Analysis.Below

/-!
# Paired walks

A body is walked twice, from two states whose callables raise no more in the first. There are three
kinds of nodes at which a lesser effect may be replaced by that of raising anything (`Node.given?`):
a handler that catches nothing under a name, an assignment that no longer fits, and a collection
whose elements no longer fit.

`Paired` is about two walks from `s` and `t` to `s'` and `t'` through the nodes `ns` and `ns'`. If
they agree at these nodes (`Agree`), the states at the end are related if those at the start are.
What a collection gives its elements may become fixed after its node, so the walks are compared in
states in which all that is fixed in `s'` and `t'` is still fixed (`AnalysisState.Persists`).
-/

namespace RaisingEffects

/-! ## Fixed effects -/

/-- The effect that the elements of a collection have, once it is fixed. -/
def AnalysisState.elementEffect? (s : AnalysisState) (id : Nat) : Option Effect :=
  s.aggregates[id]?.bind Aggregate.effect

/-- What is fixed in the first state is fixed in the second. -/
def AnalysisState.Persists (s s' : AnalysisState) : Prop :=
  ∀ id e, s.elementEffect? id = some e → s'.elementEffect? id = some e

theorem AnalysisState.elementEffect?_last (s : AnalysisState) (a : Aggregate) :
    AnalysisState.elementEffect? { s with aggregates := s.aggregates ++ [a] }
      s.aggregates.length = a.effect := by
  simp [AnalysisState.elementEffect?]

namespace AnalysisState.Persists

variable {s s' s'' : AnalysisState}

theorem of_eq (h : s'.aggregates = s.aggregates) : s.Persists s' := by
  intro id e he
  rwa [elementEffect?, h]

theorem refl (s : AnalysisState) : s.Persists s := of_eq rfl

theorem trans (h : s.Persists s') (h' : s'.Persists s'') : s.Persists s'' :=
  fun id e he => h' id e (h id e he)

theorem append {new : List Aggregate} (h : s'.aggregates = s.aggregates ++ new) :
    s.Persists s' := by
  intro id e he
  obtain ⟨a, ha, hae⟩ := Option.bind_eq_some_iff.1 he
  have hlt : id < s.aggregates.length := (List.getElem?_eq_some_iff.1 ha).1
  rw [elementEffect?, h, List.getElem?_append_left hlt, ha]
  exact hae

/-- An insertion fixes what was open, and changes nothing that was fixed. -/
theorem insertedInto {target : String} {d : Effect}
    (h : s'.aggregates = s.insertedInto target d) : s.Persists s' := by
  unfold AnalysisState.insertedInto at h
  split at h
  · exact of_eq h
  · rename_i id _
    split at h
    · exact of_eq h
    · rename_i a ha
      intro id' e he
      rw [elementEffect?, h, List.getElem?_set]
      split
      · rename_i heq
        subst heq
        rw [elementEffect?, ha, Option.bind_some] at he
        have hlt : id < s.aggregates.length := (List.getElem?_eq_some_iff.1 ha).1
        rw [if_pos hlt, Option.bind_some, Aggregate.inserted_of_some he]
        exact he
      · exact he

end AnalysisState.Persists

open Analysis

/-! ## Nodes that give an effect -/

/-- The effect that a node gives: an assignment to its target, if the value does not fit, a handler
to what it catches under a name, a collection to its elements. -/
def Node.given? (s : AnalysisState) : Node Note → Option Effect
  | .stmt (.assign loc _ _) => loc.effect
  | .stmt (.try_ loc _ (some _) _) => loc.caughtEffect.map fun e => (caughtBinding e).effect
  | .expr (.collection loc _ _) => loc.aggregate.bind s.elementEffect?
  | _ => none

/-- Where a node of the first list gives the effect of raising anything, so does the one of the
second. -/
def Agree (u v : AnalysisState) (ns ns' : List (Node Note)) : Prop :=
  ∀ p ∈ ns.zip ns', p.1.given? u = some .raisesAny → p.2.given? v = some .raisesAny

theorem Agree.of_append {u v : AnalysisState} {ns ns' ms ms' : List (Node Note)}
    (hlength : ns.length = ns'.length) (h : Agree u v (ns ++ ms) (ns' ++ ms')) :
    Agree u v ns ns' ∧ Agree u v ms ms' := by
  unfold Agree at h
  rw [List.zip_append hlength] at h
  exact List.forall_mem_append.1 h

/-! ## Paired walks -/

/-- What two walks through the nodes `ns` and `ns'` come to: effects that are fixed stay fixed, and
if the walks agree at the nodes, `R` holds and the states stay related. -/
structure Paired (s t s' t' : AnalysisState) (ns ns' : List (Node Note)) (R : Prop) : Prop where
  length_eq : ns.length = ns'.length
  left : s.Persists s'
  right : t.Persists t'
  below : ∀ u v, s'.Persists u → t'.Persists v → Agree u v ns ns' → s.Below t →
    R ∧ s'.Below t'

namespace Paired

variable {s t s₁ t₁ s₂ t₂ : AnalysisState} {ns ns' ms ms' : List (Node Note)} {R R' : Prop}

theorem refl (s t : AnalysisState) : Paired s t s t [] [] True :=
  ⟨rfl, .refl s, .refl t, fun _ _ _ _ _ hs => ⟨trivial, hs⟩⟩

/-- Walks with candidates of their own. -/
theorem collect
    (h : Paired { s with candidates := [] } { t with candidates := [] } s₁ t₁ ns ns' R) :
    Paired s t { s₁ with candidates := s.candidates } { t₁ with candidates := t.candidates } ns ns'
      (R ∧ (Effect.joinAll s₁.candidates).Below (Effect.joinAll t₁.candidates)) where
  length_eq := h.length_eq
  left := h.left
  right := h.right
  below := by
    intro u v hu hv hagree hs
    have hs₀ : AnalysisState.Below { s with candidates := [] } { t with candidates := [] } :=
      ⟨hs.env, hs.aggregates, Effect.fits_refl _⟩
    obtain ⟨hR, hs₁⟩ := h.below u v hu hv hagree hs₀
    exact ⟨⟨hR, hs₁.candidates⟩, hs₁.env, hs₁.aggregates, hs.candidates⟩

/-- A walk may be listed twice. -/
theorem twice (h : Paired s t s₁ t₁ (ns ++ ms) (ns' ++ ms') R) (hlength : ns.length = ns'.length) :
    Paired s t s₁ t₁ (ns ++ ns ++ ms) (ns' ++ ns' ++ ms') R := by
  rw [List.append_assoc, List.append_assoc]
  refine ⟨?_, h.left, h.right, fun u v hu hv hagree => ?_⟩
  · rw [List.length_append, h.length_eq, hlength, ← List.length_append]
  · exact h.below u v hu hv (hagree.of_append hlength).2

variable (h : Paired s t s₁ t₁ ns ns' R)

include h

/-- A step after the walks. -/
theorem step (hl : s₁.Persists s₂) (hr : t₁.Persists t₂)
    (hstep : R → s₁.Below t₁ → R' ∧ s₂.Below t₂) : Paired s t s₂ t₂ ns ns' R' where
  length_eq := h.length_eq
  left := h.left.trans hl
  right := h.right.trans hr
  below := by
    intro u v hu hv hagree hs
    obtain ⟨hR, hs₁⟩ := h.below u v (hl.trans hu) (hr.trans hv) hagree hs
    exact hstep hR hs₁

/-- A step at a node, where the walks agree. -/
theorem step_at (n n' : Node Note) (hl : s₁.Persists s₂) (hr : t₁.Persists t₂) (hstep : ∀ u v,
      s₂.Persists u → t₂.Persists v → (n.given? u = some .raisesAny → n'.given? v = some .raisesAny)
      → R → s₁.Below t₁ → R' ∧ s₂.Below t₂) : Paired s t s₂ t₂ (n :: ns) (n' :: ns') R' where
  length_eq := congrArg (· + 1) h.length_eq
  left := h.left.trans hl
  right := h.right.trans hr
  below := by
    intro u v hu hv hagree hs
    obtain ⟨hnode, hrest⟩ := List.forall_mem_cons.1 hagree
    obtain ⟨hR, hs₁⟩ := h.below u v (hl.trans hu) (hr.trans hv) hrest hs
    exact hstep u v hu hv hnode hR hs₁

theorem mono (hR : R → R') : Paired s t s₁ t₁ ns ns' R' :=
  h.step (.refl _) (.refl _) fun hR' hs => ⟨hR hR', hs⟩

theorem trans (h' : Paired s₁ t₁ s₂ t₂ ms ms' R') :
    Paired s t s₂ t₂ (ns ++ ms) (ns' ++ ms') (R ∧ R') where
  length_eq := by rw [List.length_append, List.length_append, h.length_eq, h'.length_eq]
  left := h.left.trans h'.left
  right := h.right.trans h'.right
  below := by
    intro u v hu hv hagree hs
    obtain ⟨hns, hms⟩ := hagree.of_append h.length_eq
    obtain ⟨hR, hs₁⟩ := h.below u v (h'.left.trans hu) (h'.right.trans hv) hns hs
    obtain ⟨hR', hs₂⟩ := h'.below u v hu hv hms hs₁
    exact ⟨⟨hR, hR'⟩, hs₂⟩

/-- Nothing is asked of a node that is listed in addition. -/
theorem node (n n' : Node Note) : Paired s t s₁ t₁ (n :: ns) (n' :: ns') R :=
  h.step_at n n' (.refl _) (.refl _) fun _ _ _ _ _ hR hs => ⟨hR, hs⟩

theorem append (hlength : ms.length = ms'.length) : Paired s t s₁ t₁ (ns ++ ms) (ns' ++ ms') R where
  length_eq := by rw [List.length_append, List.length_append, h.length_eq, hlength]
  left := h.left
  right := h.right
  below := fun u v hu hv hagree => h.below u v hu hv (hagree.of_append h.length_eq).1

/-- The logs do not matter. -/
theorem log (l l' : List (Option String × LogEntry)) :
    Paired s t { s₁ with log := l } { t₁ with log := l' } ns ns' R :=
  h.step (.of_eq rfl) (.of_eq rfl) fun hR hs => ⟨hR, hs.log l l'⟩

theorem push :
    Paired s t { s₁ with env := [] :: s₁.env } { t₁ with env := [] :: t₁.env } ns ns' R :=
  h.step (.of_eq rfl) (.of_eq rfl) fun hR hs => ⟨hR, hs.push⟩

theorem pop :
    Paired s t { s₁ with env := s₁.env.drop 1 } { t₁ with env := t₁.env.drop 1 } ns ns' R :=
  h.step (.of_eq rfl) (.of_eq rfl) fun hR hs => ⟨hR, hs.pop⟩

theorem define (name : String) {b b' : Binding} (hb : R → b.Below b') :
    Paired s t { s₁ with env := s₁.env.define name b } { t₁ with env := t₁.env.define name b' }
      ns ns' R := h.step (.of_eq rfl) (.of_eq rfl) fun hR hs => ⟨hR, hs.define name (hb hR)⟩

end Paired

end RaisingEffects
