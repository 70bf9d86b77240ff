import RaisingEffects.Effect.Basic

/-!
# The order of effects

`Effect.fits` is a partial order with least element `nothrow` and greatest element `raisesAny`, and
`Effect.join` gives its least upper bounds. What the analysis of bodies needs of them:

* `joinAll_fits_iff`: the join of a list fits exactly where all its members fit;
* `joinAll_append`: joining is a homomorphism from lists, so candidates can be joined piecewise;
* `isRaising_joinAll`: a join raises exactly when a member does;
* `joinAll_fits_collapse`: neither policy loses a candidate.
-/

namespace RaisingEffects.Effect

/-! ## The order -/

@[simp] theorem nothrow_fits (e : Effect) : nothrow.fits e = true := by
  cases e <;> rfl

@[simp] theorem fits_raisesAny (e : Effect) : e.fits raisesAny = true := by
  cases e <;> rfl

theorem raises_fits_iff {s : String} {e : Effect} :
    (raises s).fits e = true ↔ e = raises s ∨ e = raisesAny := by
  cases e <;> simp [fits, eq_comm]

theorem raisesAny_fits_iff {e : Effect} : raisesAny.fits e = true ↔ e = raisesAny := by
  cases e <;> simp [fits]

@[simp] theorem fits_refl (e : Effect) : e.fits e = true := by
  cases e with
  | raises s => exact raises_fits_iff.2 (.inl rfl)
  | _ => rfl

theorem fits_trans {a b c : Effect} (hab : a.fits b = true) (hbc : b.fits c = true) :
    a.fits c = true := by
  cases a with
  | nothrow => exact nothrow_fits c
  | raises s =>
    rcases raises_fits_iff.1 hab with rfl | rfl
    · exact hbc
    · rw [raisesAny_fits_iff.1 hbc, fits_raisesAny]
  | raisesAny =>
    rw [raisesAny_fits_iff.1 hab] at hbc
    exact hbc

theorem fits_antisymm {a b : Effect} (hab : a.fits b = true) (hba : b.fits a = true) : a = b := by
  cases a <;> cases b <;> simp_all [raises_fits_iff, raisesAny_fits_iff]

@[simp] theorem fits_nothrow {e : Effect} : e.fits nothrow = true ↔ e = nothrow :=
  ⟨fun h => fits_antisymm h (nothrow_fits e), fun h => h ▸ fits_refl e⟩

theorem isRaising_eq_false {e : Effect} : e.isRaising = false ↔ e = nothrow := by
  cases e <;> simp [isRaising]

theorem isRaising_of_fits {d e : Effect} (hd : d.isRaising = true) (h : d.fits e = true) :
    e.isRaising = true := by
  cases e with
  | nothrow =>
    rw [Effect.fits_nothrow.1 h] at hd
    cases hd
  | _ => rfl

/-! ## Joins -/

@[simp] theorem nothrow_join (e : Effect) : nothrow.join e = e := by
  cases e <;> rfl

@[simp] theorem join_nothrow (e : Effect) : e.join nothrow = e := by
  cases e <;> rfl

/-- The join is the least upper bound. -/
theorem join_fits_iff {a b c : Effect} :
    (a.join b).fits c = true ↔ a.fits c = true ∧ b.fits c = true := by
  cases a with
  | nothrow => simp
  | raisesAny => cases b <;> simp +contextual [join, raisesAny_fits_iff]
  | raises s =>
    cases b with
    | nothrow => simp
    | raisesAny => simp +contextual [join, raisesAny_fits_iff]
    | raises t =>
      by_cases h : s = t
      · simp [join, h]
      · cases c <;> simp +contextual [join, h, raises_fits_iff, raisesAny_fits_iff]

theorem join_assoc (a b c : Effect) : (a.join b).join c = a.join (b.join c) := by
  refine fits_antisymm ?_ ?_
  · have h := fits_refl (a.join (b.join c))
    rw [join_fits_iff, join_fits_iff] at h
    rw [join_fits_iff, join_fits_iff]
    exact ⟨⟨h.1, h.2.1⟩, h.2.2⟩
  · have h := fits_refl ((a.join b).join c)
    rw [join_fits_iff, join_fits_iff] at h
    rw [join_fits_iff, join_fits_iff]
    exact ⟨h.1.1, h.1.2, h.2⟩

theorem isRaising_join (a b : Effect) : (a.join b).isRaising = (a.isRaising || b.isRaising) := by
  cases a with
  | nothrow => exact congrArg isRaising (nothrow_join b)
  | raisesAny => cases b <;> rfl
  | raises s =>
    cases b with
    | raises t =>
      change (if s = t then raises s else raisesAny).isRaising = true
      split <;> rfl
    | _ => rfl

/-! ## Joins of lists -/

@[simp] theorem joinAll_nil : joinAll [] = nothrow := rfl

theorem foldl_join (e : Effect) (es : List Effect) :
    es.foldl join e = e.join (joinAll es) := by
  induction es generalizing e with
  | nil => simp
  | cons d es ih =>
    have hd : joinAll (d :: es) = d.join (joinAll es) := by
      rw [joinAll, List.foldl_cons, nothrow_join, ih]
    rw [List.foldl_cons, ih, hd, join_assoc]

@[simp] theorem joinAll_cons (e : Effect) (es : List Effect) :
    joinAll (e :: es) = e.join (joinAll es) :=
  (foldl_join _ es).trans (congrArg (join · _) (nothrow_join e))

@[simp] theorem joinAll_append (es fs : List Effect) :
    joinAll (es ++ fs) = (joinAll es).join (joinAll fs) :=
  List.foldl_append.trans (foldl_join (joinAll es) fs)

/-- **The join of a list fits exactly where all its members fit.** -/
theorem joinAll_fits_iff {es : List Effect} {e : Effect} :
    (joinAll es).fits e = true ↔ ∀ d ∈ es, d.fits e = true := by
  induction es with
  | nil => simp
  | cons d es ih => rw [joinAll_cons, join_fits_iff, ih, List.forall_mem_cons]

theorem fits_joinAll {es : List Effect} {d : Effect} (h : d ∈ es) : d.fits (joinAll es) = true :=
  joinAll_fits_iff.1 (fits_refl _) d h

theorem isRaising_joinAll (es : List Effect) : (joinAll es).isRaising = es.any isRaising := by
  induction es with
  | nil => rfl
  | cons d es ih => rw [joinAll_cons, isRaising_join, ih, List.any_cons]

/-- Collapsing under either policy only goes up. -/
theorem joinAll_fits_collapse (policy : Policy) (es : List Effect) :
    (joinAll es).fits (collapse policy es) = true := by
  cases policy with
  | precise => simp [collapse]
  | compatibility =>
    simp only [collapse]
    cases joinAll es <;> simp

end RaisingEffects.Effect
