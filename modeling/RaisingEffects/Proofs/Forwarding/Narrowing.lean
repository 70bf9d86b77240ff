import RaisingEffects.Proofs.Effect.Monotone
import RaisingEffects.Proofs.Forwarding.CallSite

/-!
# Call sites with narrower arguments

If a forwarding function can be called with some effects, it can be called with lesser ones, and the
call then has a lesser effect (`Forwarding.callSite_below`). With narrower effects, which raise
wherever the others raise, the call has a narrower effect (`Forwarding.callSite_narrows`).

Tables of effects are compared by what they give for each parameter (`Forwarding.effectOf`), so a
table may leave out a parameter that another one has.
-/

namespace RaisingEffects.Forwarding

variable {f : Forwarding} {effects others : Table Effect} {R : Effect → Effect → Prop}

theorem effectOf_rel (hR : ∀ e, R e e) (h : Table.Rel R effects others) (p : ForwardedParam) :
    R (effectOf effects p) (effectOf others p) := by
  unfold effectOf
  obtain ⟨hd, he⟩ | ⟨d, e, hd, he, hde⟩ := eq_none_or_some_of_rel (h.get? p.name)
  · rw [hd, he]
    exact hR _
  · rw [hd, he]
    exact hde

theorem raisingEffects_rel (h : ∀ p ∈ f.params, R (effectOf effects p) (effectOf others p)) :
    Table.Rel R (f.raisingEffects effects) (f.raisingEffects others) := by
  refine Table.Rel.ofEntries ?_
  unfold Table.Rel
  rw [List.forall₂_map_left_iff, List.forall₂_map_right_iff, List.forall₂_same]
  intro p hp
  exact ⟨rfl, h p (List.mem_filter.1 hp).1⟩

/-! ## Lesser effects -/

/-- What an unconverted path raises still fits. -/
theorem unhandled?_below {used used' : Table Effect} (h : Table.Rel Effect.Below used used')
    {target : Effect} {paths : List RaisePath} (hnone : unhandled? used' target paths = none) :
    unhandled? used target paths = none := by
  rw [unhandled?_eq_none_iff] at hnone ⊢
  intro path hpath hconverted d hd
  obtain ⟨hd', -⟩ | ⟨d', e, hd', he, hde⟩ := eq_none_or_some_of_rel (h.get? path.parameter)
  · rw [hd] at hd'
    cases hd'
  · cases hd.symm.trans hd'
    exact Effect.fits_trans hde (hnone path hpath hconverted e he)

/-- With a target the effect is that of the target, or none. -/
theorem resolve_of_target (h : ∀ p ∈ f.params, (effectOf effects p).Below (effectOf others p))
    {target : String} (htarget : f.target = some target) {e : Effect}
    (he : f.resolve others = .ok e) : f.resolve effects = .ok e := by
  have hused := raisingEffects_rel h
  unfold resolve at he ⊢
  rw [htarget] at he ⊢
  dsimp only at he ⊢
  split at he
  · rename_i hconverts
    rw [if_pos hconverts]
    split at he
    · rename_i hnone
      rw [unhandled?_below hused hnone]
      exact he
    · cases he
  · rename_i hconverts
    rw [if_neg hconverts]
    split at he
    · rename_i hnone
      have hnone' : ((f.raisingEffects effects).find? fun entry =>
          !entry.2.fits (.raises target)) = none := by
        refine List.find?_eq_none.2 (forall_mem_of_forall₂ hused (List.find?_eq_none.1 hnone) ?_)
        intro x y hxy hy
        simp only [Bool.not_eq_true', Bool.not_eq_false] at hy ⊢
        exact Effect.fits_trans hxy.2 hy
      rw [hnone']
      exact he
    · cases he

/-- Related effects are resolved to related ones, if joining keeps the relation. -/
theorem resolve_rel (hbelow : ∀ d e, R d e → d.Below e) (hrefl : ∀ e, R e e)
    (hjoin : ∀ ds es, List.Forall₂ R ds es → R (.joinAll ds) (.joinAll es))
    (h : ∀ p ∈ f.params, R (effectOf effects p) (effectOf others p)) {e : Effect}
    (he : f.resolve others = .ok e) : ∃ d, f.resolve effects = .ok d ∧ R d e := by
  cases htarget : f.target with
  | some target =>
    exact ⟨e, resolve_of_target (fun p hp => hbelow _ _ (h p hp)) htarget he, hrefl e⟩
  | none =>
    unfold resolve at he ⊢
    rw [htarget] at he ⊢
    cases he
    refine ⟨_, rfl, hjoin _ _ ?_⟩
    rw [List.forall₂_map_left_iff, List.forall₂_map_right_iff]
    exact (raisingEffects_rel h).imp fun _ _ hxy => hxy.2

section Below

variable (h : ∀ p ∈ f.params, (effectOf effects p).Below (effectOf others p))

include h

theorem resolve_below {e : Effect} (he : f.resolve others = .ok e) :
    ∃ d, f.resolve effects = .ok d ∧ d.Below e :=
  resolve_rel (fun _ _ => id) Effect.fits_refl (fun _ _ => Effect.joinAll_below) h he

/-- **A call with lesser arguments has a lesser effect.** -/
theorem callSite_below {e : Effect} (he : f.callSite others = .ok e) :
    ∃ d, f.callSite effects = .ok d ∧ d.Below e := by
  unfold callSite at he ⊢
  split
  · rename_i hraises
    obtain ⟨p, hp, hraising⟩ := List.any_eq_true.1 hraises
    have hraises' : f.anyRaises others = true :=
      List.any_eq_true.2 ⟨p, hp, Effect.isRaising_of_fits hraising (h p hp)⟩
    rw [if_pos hraises'] at he
    exact resolve_below h he
  · exact ⟨_, rfl, Effect.nothrow_fits e⟩

/-- **Forwarding is monotone.** With lesser effects for its parameters, a rule that was resolved is
resolved to a lesser effect, for a declaration and for a call. So an error for the lesser effects is
an error for the others. -/
theorem resolve_callSite_mono :
    (∀ e, f.resolve others = .ok e → ∃ d, f.resolve effects = .ok d ∧ d.Below e) ∧
      (∀ e, f.callSite others = .ok e → ∃ d, f.callSite effects = .ok d ∧ d.Below e) ∧
      (∀ v, f.resolve effects = .error v → ∃ w, f.resolve others = .error w) ∧
      ∀ v, f.callSite effects = .error v → ∃ w, f.callSite others = .error w := by
  refine ⟨fun e => resolve_below h, fun e => callSite_below h, fun v hv => ?_, fun v hv => ?_⟩
  · cases hothers : f.resolve others with
    | ok e =>
      obtain ⟨d, hd, -⟩ := resolve_below h hothers
      rw [hv] at hd
      cases hd
    | error w => exact ⟨w, rfl⟩
  · cases hothers : f.callSite others with
    | ok e =>
      obtain ⟨d, hd, -⟩ := callSite_below h hothers
      rw [hv] at hd
      cases hd
    | error w => exact ⟨w, rfl⟩

end Below

/-- Two parameters share a name, and the only path of that name is converted. Without arguments they
raise what they are declared to raise, which is less than raising anything. -/
theorem resolve_callSite_mono_shared :
    ∃ (f : Forwarding) (others : Table Effect),
      (∀ p ∈ f.params, (effectOf [] p).Below (effectOf others p)) ∧
        f.resolve others = .ok (.raises "E") ∧
        (∃ d, f.resolve [] = .ok d ∧ d.Below (.raises "E")) ∧
        ∃ d, f.callSite [] = .ok d ∧ d.Below (.raises "E") := by
  let f : Forwarding :=
    { function := "each"
      params := [⟨"f", 0, .raises "E"⟩, ⟨"g", 1, .raises "E"⟩, ⟨"f", 2, .raises "F"⟩]
      target := some "E"
      converts := true
      paths := [⟨"f", true, none⟩, ⟨"g", false, none⟩]
      raising := rfl }
  have h : ∀ p ∈ f.params, (effectOf [] p).Below (effectOf [("f", .raisesAny)] p) := by decide
  obtain ⟨hresolve, hcallSite, -, -⟩ := resolve_callSite_mono h
  exact ⟨f, [("f", .raisesAny)], h, by decide, hresolve _ (by decide), hcallSite _ (by decide)⟩

/-! ## Narrower effects -/

section Narrows

variable (h : ∀ p ∈ f.params, (effectOf effects p).Narrows (effectOf others p))

include h

theorem anyRaises_eq : f.anyRaises effects = f.anyRaises others := by
  rw [anyRaises, anyRaises, Bool.eq_iff_iff, List.any_eq_true, List.any_eq_true]
  refine exists_congr fun p => and_congr_right fun hp => ?_
  rw [(h p hp).raising]

theorem resolve_narrows {e : Effect} (he : f.resolve others = .ok e) :
    ∃ d, f.resolve effects = .ok d ∧ d.Narrows e :=
  resolve_rel (fun _ _ hde => hde.fits) .refl (fun _ _ => .joinAll) h he

/-- **A call with narrower arguments has a narrower effect.** -/
theorem callSite_narrows {e : Effect} (he : f.callSite others = .ok e) :
    ∃ d, f.callSite effects = .ok d ∧ d.Narrows e := by
  unfold callSite at he ⊢
  rw [anyRaises_eq h]
  split at he
  · rename_i hraises
    rw [if_pos hraises]
    exact resolve_narrows h he
  · rename_i hraises
    cases he
    rw [if_neg hraises]
    exact ⟨_, rfl, .refl _⟩

end Narrows

end RaisingEffects.Forwarding
