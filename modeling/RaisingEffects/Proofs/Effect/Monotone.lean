import RaisingEffects.Proofs.Effect.Narrowing
import RaisingEffects.Proofs.Table

/-!
# Effects that raise no more

`Effect.Below` is the order of effects as a relation, for lists and options of effects. Joins and
collapsed effects are monotone in it (`Effect.joinAll_below`, `Effect.collapse_below`).

Collections are not. Under the precise policy the first element fixes the effect of a collection,
so with a lesser first element the others may no longer fit, and the collection counts as raising
anything. That is all that can happen (`Aggregate.settled_below_or`). An insertion that is refused
changes nothing, so insertions are monotone (`Aggregate.inserted_below`).
-/

namespace RaisingEffects

/-- The first effect raises no more than the second. -/
abbrev Effect.Below (d e : Effect) : Prop := d.fits e = true

namespace Effect

variable {a b d e : Effect} {ds es : List Effect}

theorem join_below (h : a.Below b) (h' : d.Below e) : (a.join d).Below (b.join e) := by
  obtain ⟨hb, he⟩ := join_fits_iff.1 (fits_refl (b.join e))
  exact join_fits_iff.2 ⟨fits_trans h hb, fits_trans h' he⟩

theorem joinAll_below (h : List.Forall₂ Below ds es) : (joinAll ds).Below (joinAll es) := by
  induction h with
  | nil => exact fits_refl _
  | cons hd _ ih =>
    rw [joinAll_cons, joinAll_cons]
    exact join_below hd ih

/-- **Collapsing is monotone under either policy.** -/
theorem collapse_below (policy : Policy) (h : (joinAll ds).Below (joinAll es)) :
    (collapse policy ds).Below (collapse policy es) := by
  cases policy with
  | precise => exact h
  | compatibility =>
    rw [collapse_compatibility, collapse_compatibility, ← isRaising_joinAll, ← isRaising_joinAll]
    cases hds : (joinAll ds).isRaising with
    | true =>
      rw [isRaising_of_fits hds h]
      exact fits_refl _
    | false => exact nothrow_fits _

end Effect

/-- The effect of the first aggregate is below that of the second, and both are open or both are
fixed. -/
structure Aggregate.Below (a b : Aggregate) : Prop where
  effect : Option.Rel Effect.Below a.effect b.effect
  erase : a.effect = none → a.erase = b.erase

/-- The aggregate that a collection gets. If an element does not fit, the collection counts as
declared, or as raising anything. -/
def Aggregate.settled (policy : Policy) (declared : Option Effect) (kind : String)
    (es : List Effect) : Aggregate :=
  match ofElements policy declared kind es with
  | .ok a => a
  | .error _ =>
    { effect := some (declared.getD .raisesAny), kind, declared := declared.isSome }

/-- The aggregate after a value was inserted, if it fits. -/
def Aggregate.inserted (a : Aggregate) (e : Effect) : Aggregate :=
  match a.insert e none with
  | .ok b => b
  | .error _ => a

namespace Aggregate

variable {a b : Aggregate} {d e bound : Effect} {ds es : List Effect}

theorem Below.refl (a : Aggregate) : a.Below a where
  effect := by
    cases a.effect with
    | none => exact .none
    | some e => exact .some (Effect.fits_refl e)
  erase := fun _ => rfl

theorem Below.of_some (hd : a.effect = some d) (he : b.effect = some e) (h : d.Below e) :
    a.Below b where
  effect := by
    rw [hd, he]
    exact .some h
  erase := by simp [hd]

/-! ## Collections that are written out -/

theorem settled_declared (policy : Policy) (d : Effect) (kind : String) (es : List Effect) :
    (settled policy (some d) kind es).effect = some d := by
  unfold settled
  cases hok : ofElements policy (some d) kind es with
  | ok a =>
    obtain ⟨rfl, -⟩ := (insertFrom_eq_ok_iff rfl 0).1 hok
    rfl
  | error m => rfl

/-- Under the precise policy all elements have to fit the first one. -/
theorem settled_precise (kind : String) (e : Effect) (es : List Effect) :
    (settled .precise none kind (e :: es)).effect =
      some (if ∀ x ∈ es, x.fits e = true then e else .raisesAny) := by
  by_cases hfits : ∀ x ∈ es, x.fits e = true
  · have hok : ofElements .precise none kind (e :: es) = .ok { effect := some e, kind } :=
      (insertFrom_eq_ok_iff rfl 1).2 ⟨rfl, hfits⟩
    rw [if_pos hfits, settled, hok]
  · rw [if_neg hfits, settled]
    cases hins : ofElements .precise none kind (e :: es) with
    | ok a => exact absurd ((insertFrom_eq_ok_iff rfl 1).1 hins).2 hfits
    | error m => rfl

/-- **With lesser elements a collection has a lesser effect, or else it counts as raising
anything.** -/
theorem settled_below_or (policy : Policy) (declared : Option Effect) (kind : String)
    (h : List.Forall₂ Effect.Below ds es) :
    (settled policy declared kind ds).Below (settled policy declared kind es) ∨
      (settled policy declared kind ds).effect = some .raisesAny ∧
        (settled policy declared kind es).effect.isSome = true := by
  cases declared with
  | some d =>
    exact .inl (.of_some (settled_declared policy d kind ds) (settled_declared policy d kind es)
      (Effect.fits_refl d))
  | none =>
    cases h with
    | nil => exact .inl ⟨.none, fun _ => rfl⟩
    | @cons d e ds es hd hrest =>
      cases policy with
      | compatibility =>
        exact .inl (.of_some rfl rfl (Effect.collapse_below .compatibility
          (Effect.joinAll_below (.cons hd hrest))))
      | precise =>
        have hds := settled_precise kind d ds
        have hes := settled_precise kind e es
        by_cases hfits : ∀ x ∈ ds, x.fits d = true
        · rw [if_pos hfits] at hds
          refine .inl (.of_some hds hes ?_)
          split
          · exact hd
          · exact Effect.fits_raisesAny d
        · rw [if_neg hfits] at hds
          exact .inr ⟨hds, by rw [hes]; rfl⟩

/-! ## Insertions -/

/-- A fixed aggregate stays as it is. -/
theorem inserted_of_some (ha : a.effect = some bound) (e : Effect) : a.inserted e = a := by
  rw [inserted, insert, ha]
  dsimp only
  by_cases he : e.fits bound = true
  · rw [if_pos he]
  · rw [if_neg he]

theorem inserted_of_none (ha : a.effect = none) (e : Effect) :
    (a.inserted e).effect = some (if a.erase && e.isRaising then .raisesAny else e) := by
  rw [inserted, insert, ha]

/-- **Inserting a lesser value gives a lesser aggregate.** -/
theorem inserted_below (h : a.Below b) (hd : d.Below e) :
    (a.inserted d).Below (b.inserted e) := by
  obtain ⟨ha, hb⟩ | ⟨x, y, ha, hb, -⟩ := eq_none_or_some_of_rel h.effect
  · refine .of_some (inserted_of_none ha d) (inserted_of_none hb e) ?_
    rw [h.erase ha]
    cases b.erase with
    | false => exact hd
    | true =>
      simp only [Bool.true_and]
      cases hraising : d.isRaising with
      | true =>
        rw [Effect.isRaising_of_fits hraising hd]
        exact Effect.fits_refl _
      | false =>
        rw [Effect.isRaising_eq_false.1 hraising]
        exact Effect.nothrow_fits _
  · rw [inserted_of_some ha, inserted_of_some hb]
    exact h

end Aggregate

end RaisingEffects
