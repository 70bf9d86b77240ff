import Mathlib.Order.Bounds.Basic
import RaisingEffects.Proofs.Effect.Order

/-!
# The lattice of effects

Effects are ordered by `Effect.fits`, from `nothrow` to `raisesAny`, and `joinAll` is the least
upper bound of a list. A least upper bound depends only on what is in the list, so it does not
matter in which order effects are joined, how often each of them occurs, or how they are grouped.
The effects that are made from joins inherit this: that of a list of types, in which `Never` counts
for nothing, and that of a closure under either policy.

* `joinAll_congr` and `joinAll_flatten` are the laws of joins.
* `joinAll_eq_nothrow_iff` and `joinAll_eq_raises_iff` tell when a join raises nothing, or errors of
  one type.
* `fits_lattice` puts the laws together.
-/

namespace RaisingEffects.Effect

instance : PartialOrder Effect where
  le d e := d.fits e = true
  le_refl := fits_refl
  le_trans _ _ _ := fits_trans
  le_antisymm _ _ := fits_antisymm

variable {es fs : List Effect}

/-- What fits where errors of one type are raised. -/
theorem fits_raises_iff {e : Effect} {type : String} :
    e.fits (raises type) = true ↔ e = nothrow ∨ e = raises type := by
  cases e <;> simp [fits]

/-! ## Joins depend on the members only -/

theorem joinAll_isLUB (es : List Effect) : IsLUB {e | e ∈ es} (joinAll es) :=
  ⟨fun _ he => fits_joinAll he, fun _ hbound => joinAll_fits_iff.2 fun _ he => hbound he⟩

/-- Lists with the same members have the same join. -/
theorem joinAll_congr (h : ∀ e, e ∈ es ↔ e ∈ fs) : joinAll es = joinAll fs := by
  have hset : {e | e ∈ es} = {e | e ∈ fs} := Set.ext h
  exact (hset ▸ joinAll_isLUB es).unique (joinAll_isLUB fs)

/-- Joins may be taken group by group. -/
theorem joinAll_flatten (ess : List (List Effect)) :
    joinAll ess.flatten = joinAll (ess.map joinAll) := by
  induction ess with
  | nil => rfl
  | cons es ess ih => rw [List.flatten_cons, joinAll_append, ih, List.map_cons, joinAll_cons]

theorem joinAll_eq_nothrow_iff : joinAll es = nothrow ↔ ∀ e ∈ es, e.isRaising = false := by
  rw [← fits_nothrow, joinAll_fits_iff]
  simp only [fits_nothrow, isRaising_eq_false]

theorem joinAll_eq_raises_iff {type : String} :
    joinAll es = raises type ↔
      (∃ e ∈ es, e.isRaising = true) ∧ ∀ e ∈ es, e.isRaising = true → e = raises type := by
  constructor
  · intro h
    refine ⟨List.any_eq_true.1 ?_, fun e he hraising => ?_⟩
    · rw [← isRaising_joinAll, h]
      rfl
    · have hfits := fits_joinAll he
      rw [h] at hfits
      rcases fits_raises_iff.1 hfits with rfl | rfl
      · cases hraising
      · rfl
  · rintro ⟨⟨e, he, hraising⟩, hall⟩
    have hfits : (joinAll es).fits (raises type) = true := by
      refine joinAll_fits_iff.2 fun d hd => fits_raises_iff.2 ?_
      cases hquiet : d.isRaising with
      | false => exact .inl (isRaising_eq_false.1 hquiet)
      | true => exact .inr (hall d hd hquiet)
    refine (fits_raises_iff.1 hfits).resolve_left fun hnothrow => ?_
    rw [joinAll_eq_nothrow_iff.1 hnothrow e he] at hraising
    cases hraising

/-! ## What is made from joins -/

/-- A list of types has the effect of the types in it other than `Never`. -/
theorem ofTypes_congr {ts us : List String} (h : ∀ t, t ≠ neverType → (t ∈ ts ↔ t ∈ us)) :
    ofTypes ts = ofTypes us := by
  refine joinAll_congr fun e => ?_
  simp only [List.mem_map, List.mem_filter, bne_iff_ne]
  constructor
  · rintro ⟨t, ⟨ht, hne⟩, rfl⟩
    exact ⟨t, ⟨(h t hne).1 ht, hne⟩, rfl⟩
  · rintro ⟨t, ⟨ht, hne⟩, rfl⟩
    exact ⟨t, ⟨(h t hne).2 ht, hne⟩, rfl⟩

theorem collapse_congr (policy : Policy) (h : ∀ e, e ∈ es ↔ e ∈ fs) :
    collapse policy es = collapse policy fs := by
  unfold collapse
  rw [joinAll_congr h]

/-- **Effects are a partial order from `nothrow` to `raisesAny`, and joins are its least upper
bounds.** So a join is the same for all lists with the same members, however they are grouped; it
raises nothing when no member raises, and errors of one type when a member raises and all that raise
do so with that type. Lists of types and closures get their effects from joins. -/
theorem fits_lattice :
    IsPartialOrder Effect (fun d e => d.fits e = true) ∧
    (∀ e : Effect, nothrow.fits e = true ∧ e.fits raisesAny = true) ∧
    (∀ es : List Effect, (∀ e ∈ es, e.fits (joinAll es) = true) ∧
      (∀ bound, (∀ e ∈ es, e.fits bound = true) → (joinAll es).fits bound = true) ∧
      (joinAll es = nothrow ↔ ∀ e ∈ es, e.isRaising = false) ∧
      ∀ type, joinAll es = raises type ↔
        (∃ e ∈ es, e.isRaising = true) ∧ ∀ e ∈ es, e.isRaising = true → e = raises type) ∧
    (∀ es fs : List Effect, (∀ e, e ∈ es ↔ e ∈ fs) →
      joinAll es = joinAll fs ∧ ∀ policy, collapse policy es = collapse policy fs) ∧
    (∀ ess : List (List Effect), joinAll ess.flatten = joinAll (ess.map joinAll)) ∧
    ∀ ts us : List String, (∀ t, t ≠ neverType → (t ∈ ts ↔ t ∈ us)) → ofTypes ts = ofTypes us := by
  refine ⟨inferInstanceAs (IsPartialOrder Effect (· ≤ ·)), fun e => ⟨?_, ?_⟩, fun es => ?_,
    fun es fs h => ⟨joinAll_congr h, fun policy => collapse_congr policy h⟩, joinAll_flatten,
    fun ts us h => ofTypes_congr h⟩
  · exact nothrow_fits e
  · exact fits_raisesAny e
  · have hlub := joinAll_isLUB es
    exact ⟨fun e he => hlub.1 he, fun bound h => hlub.2 fun e he => h e he,
      joinAll_eq_nothrow_iff, fun type => joinAll_eq_raises_iff⟩

end RaisingEffects.Effect
