import Mathlib.Data.List.Forall2
import Mathlib.Data.Option.Basic
import RaisingEffects.Effect.Aggregate
import RaisingEffects.Proofs.Effect.Order

/-!
# Narrower effects

Under the precise policy effects are narrower than under the compatibility policy: they fit, and
they raise exactly where the others raise. `Effect.Narrows` is that relation. It is kept by joins
(`Effect.Narrows.joinAll`) and by collapsing (`Effect.Narrows.collapse`).

Values of narrower effects fit wherever the others fit, unless the bound is narrower too; then the
other bound is `raises` (`Effect.Narrows.eq_raisesAny`). So a collection that accepts its elements
under the compatibility policy is accepted with a narrower effect, or counts as raising anything in
both cases (`Aggregate.ofElements_narrows`, `Aggregate.insert_narrows`).
-/

namespace RaisingEffects

/-- What follows for the first of two related members from the second holds of the whole list. -/
theorem forall_mem_of_forall₂ {α β : Type} {R : α → β → Prop} {P : α → Prop} {Q : β → Prop}
    {as : List α} {bs : List β} (h : List.Forall₂ R as bs) (hbs : ∀ b ∈ bs, Q b)
    (hP : ∀ a b, R a b → Q b → P a) : ∀ a ∈ as, P a := by
  induction h with
  | nil => simp
  | cons hab _ ih =>
    obtain ⟨hb, hrest⟩ := List.forall_mem_cons.1 hbs
    exact List.forall_mem_cons.2 ⟨hP _ _ hab hb, ih hrest⟩

theorem Effect.collapse_compatibility (es : List Effect) :
    Effect.collapse .compatibility es =
      if es.any Effect.isRaising then .raisesAny else .nothrow := by
  rw [← isRaising_joinAll]
  simp only [Effect.collapse]
  cases Effect.joinAll es <;> rfl

/-- The first effect fits the second, and raises if the second does. -/
structure Effect.Narrows (d e : Effect) : Prop where
  fits : d.fits e = true
  raising : d.isRaising = e.isRaising

namespace Effect.Narrows

variable {a b d e f g u : Effect} {ds es : List Effect}

theorem refl (e : Effect) : e.Narrows e := ⟨fits_refl e, rfl⟩

theorem of_isRaising (h : d.isRaising = true) : d.Narrows .raisesAny := ⟨fits_raisesAny d, h⟩

theorem eq_or (h : d.Narrows e) : d = e ∨ e = .raisesAny := by
  obtain ⟨hfits, hraising⟩ := h
  cases d <;> cases e <;> simp_all [Effect.fits, Effect.isRaising]

theorem fits_trans (h : d.Narrows e) (he : e.fits u = true) : d.fits u = true :=
  Effect.fits_trans h.fits he

/-- Where narrowing the bound makes a narrower value misfit, the bound was that of raising
anything. -/
theorem eq_raisesAny (hd : d.Narrows e) (hf : f.Narrows g) (he : e.fits g = true)
    (hmisfit : d.fits f = false) : g = .raisesAny := by
  rcases hf.eq_or with rfl | hg
  · rw [hd.fits_trans he] at hmisfit
    cases hmisfit
  · exact hg

theorem join (h : a.Narrows b) (h' : d.Narrows e) : (a.join d).Narrows (b.join e) where
  fits := by
    obtain ⟨hb, he⟩ := join_fits_iff.1 (fits_refl (b.join e))
    exact join_fits_iff.2 ⟨h.fits_trans hb, h'.fits_trans he⟩
  raising := by rw [isRaising_join, isRaising_join, h.raising, h'.raising]

theorem joinAll (h : List.Forall₂ Narrows ds es) : (joinAll ds).Narrows (joinAll es) := by
  induction h with
  | nil => exact refl _
  | cons hd _ ih =>
    rw [joinAll_cons, joinAll_cons]
    exact hd.join ih

theorem any_isRaising (h : List.Forall₂ Narrows ds es) :
    ds.any Effect.isRaising = es.any Effect.isRaising := by
  rw [← isRaising_joinAll, ← isRaising_joinAll, (joinAll h).raising]

/-- Whatever raises exactly when some candidate does narrows the collapsed candidates. -/
theorem of_any_isRaising (h : d.isRaising = es.any Effect.isRaising) :
    d.Narrows (Effect.collapse .compatibility es) := by
  rw [collapse_compatibility, ← h]
  cases hd : d.isRaising with
  | true => exact of_isRaising hd
  | false =>
    rw [isRaising_eq_false.1 hd]
    exact refl _

/-- **Collapsing precisely narrows collapsing compatibly.** -/
theorem collapse (h : List.Forall₂ Narrows ds es) :
    (Effect.collapse .precise ds).Narrows (Effect.collapse .compatibility es) := by
  refine of_any_isRaising ?_
  rw [← any_isRaising h, ← isRaising_joinAll]
  rfl

end Effect.Narrows

/-! ## Aggregates -/

/-- The effects of the aggregates are narrower, and both are open or both are fixed. An open one of
the compatibility policy erases the types of what it raises. -/
structure Aggregate.Narrows (a b : Aggregate) : Prop where
  effect : Option.Rel Effect.Narrows a.effect b.effect
  erase : b.effect = none → b.erase = true

namespace Aggregate

variable {a b b' : Aggregate} {d e bound : Effect} {ds es : List Effect}

theorem Narrows.of_some (hd : a.effect = some d) (he : b.effect = some e) (h : d.Narrows e) :
    a.Narrows b where
  effect := by
    rw [hd, he]
    exact .some h
  erase := by
    rw [he]
    nofun

/-- A fixed aggregate accepts elements that fit, and stays as it is. -/
theorem insertFrom_eq_ok_iff (ha : a.effect = some bound) (index : Nat) :
    a.insertFrom index es = .ok b ↔ b = a ∧ ∀ e ∈ es, e.fits bound = true := by
  induction es generalizing index with
  | nil => exact ⟨fun h => ⟨(Except.ok.inj h).symm, by simp⟩, fun h => by rw [h.1]; rfl⟩
  | cons e es ih =>
    have hinsert : a.insert e (some index) =
        if e.fits bound then .ok a else .error ⟨some index, e, a.kind, bound⟩ := by
      rw [insert, ha]
    rw [insertFrom, hinsert, List.forall_mem_cons]
    by_cases he : e.fits bound = true
    · rw [if_pos he]
      simp only [he, true_and]
      exact ih (index + 1)
    · rw [if_neg he]
      exact ⟨nofun, fun h => absurd h.2.1 he⟩

/-- Elements that all fit the first one raise exactly when it does. -/
theorem any_isRaising_of_fits (h : ∀ e ∈ es, e.fits d = true) :
    (d :: es).any Effect.isRaising = d.isRaising := by
  rw [List.any_cons]
  cases hd : d.isRaising with
  | true => rfl
  | false =>
    rw [Bool.false_or, List.any_eq_false]
    intro e he
    have hfits := h e he
    rw [Effect.isRaising_eq_false.1 hd, Effect.fits_nothrow] at hfits
    rw [hfits]
    nofun

theorem any_isRaising_of_misfit (h : ¬∀ e ∈ es, e.fits d = true) :
    es.any Effect.isRaising = true := by
  rw [List.any_eq_true]
  by_contra hnone
  refine h fun e he => ?_
  have hquiet : e.isRaising = false := Bool.eq_false_iff.2 fun hraising => hnone ⟨e, he, hraising⟩
  rw [Effect.isRaising_eq_false.1 hquiet, Effect.nothrow_fits]

/-- Written out collections: what is accepted under the compatibility policy is accepted with a
narrower effect under the precise one, or refused, and then it raises anything. -/
theorem ofElements_narrows {declared : Option Effect} {kind : String}
    (h : List.Forall₂ Effect.Narrows ds es)
    (hb : ofElements .compatibility declared kind es = .ok b) :
    (∃ a, ofElements .precise declared kind ds = .ok a ∧ a.Narrows b) ∨
      (∃ m, ofElements .precise declared kind ds = .error m) ∧ declared = none ∧
        b.effect = some .raisesAny := by
  cases declared with
  | some bound =>
    obtain ⟨rfl, hfits⟩ := (insertFrom_eq_ok_iff rfl 0).1 hb
    refine .inl ⟨_, (insertFrom_eq_ok_iff rfl 0).2 ⟨rfl, ?_⟩, .of_some rfl rfl (.refl bound)⟩
    exact forall_mem_of_forall₂ h hfits fun _ _ hd he => hd.fits_trans he
  | none =>
    cases h with
    | nil =>
      cases hb
      exact .inl ⟨_, rfl, .none, fun _ => rfl⟩
    | @cons d e ds es hd hrest =>
      cases hb
      have hany := Effect.Narrows.any_isRaising (.cons hd hrest)
      cases hins : insertFrom { effect := some d, kind } 1 ds with
      | ok a =>
        obtain ⟨rfl, hfits⟩ := (insertFrom_eq_ok_iff rfl 1).1 hins
        refine .inl ⟨_, hins, .of_some rfl rfl (.of_any_isRaising ?_)⟩
        rw [← hany, any_isRaising_of_fits hfits]
      | error m =>
        refine .inr ⟨⟨m, hins⟩, rfl, ?_⟩
        have hmisfit : ¬∀ x ∈ ds, x.fits d = true := by
          intro hfits
          rw [(insertFrom_eq_ok_iff rfl 1).2 ⟨rfl, hfits⟩] at hins
          cases hins
        rw [List.any_cons, any_isRaising_of_misfit hmisfit, Bool.or_true] at hany
        show some (Effect.collapse .compatibility (e :: es)) = _
        rw [Effect.collapse_compatibility, ← hany, if_pos rfl]

/-- Insertions: what is accepted under the compatibility policy is accepted with a narrower effect
under the precise one, or refused. -/
theorem insert_narrows (h : a.Narrows b) (hd : d.Narrows e) (hb : b.insert e none = .ok b') :
    (∃ a', a.insert d none = .ok a' ∧ a'.Narrows b') ∨
      (∃ m, a.insert d none = .error m) ∧ a.Narrows b' := by
  have heffect := h.effect
  unfold insert at hb ⊢
  cases hae : a.effect with
  | none =>
    rw [hae] at heffect
    have hbe : b.effect = none := by
      cases hbe : b.effect with
      | none => rfl
      | some bound =>
        rw [hbe] at heffect
        cases heffect
    rw [hbe] at hb
    cases hb
    refine .inl ⟨_, rfl, .of_some rfl rfl ?_⟩
    rw [h.erase hbe, Bool.true_and, hd.raising]
    cases he : e.isRaising with
    | true =>
      rw [Bool.and_true, if_pos rfl]
      refine .of_isRaising ?_
      split
      · rfl
      · exact hd.raising.trans he
    | false =>
      rw [Bool.and_false, if_neg Bool.false_ne_true, if_neg Bool.false_ne_true]
      exact hd
  | some bound =>
    rw [hae] at heffect
    cases hbe : b.effect with
    | none =>
      rw [hbe] at heffect
      cases heffect
    | some bound' =>
      rw [hbe] at hb
      dsimp only at hb ⊢
      split at hb
      · cases hb
        split
        · exact .inl ⟨a, rfl, h⟩
        · exact .inr ⟨⟨_, rfl⟩, h⟩
      · cases hb

end Aggregate

end RaisingEffects
