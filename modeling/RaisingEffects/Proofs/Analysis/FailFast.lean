import RaisingEffects.Proofs.Analysis.Alike

/-!
# Ending at the first violation

An analysis that ends at the first violation is compared with the same analysis when it collects
the violations, from the same state. `Agrees c m` says that the collecting run returns a value and
that the other run follows it up to the first violation: with none it returns the same value in the
same state, and otherwise that violation ends it.

Whether the first violation ends the analysis is read by `report` alone. So the walk over a body
agrees with itself because every step that it is put together from does (`Mirrors.agrees`).
-/

namespace RaisingEffects

/-- The violations in a part of the log. -/
def violationsIn (log : List (Option String × LogEntry)) : List Violation :=
  log.filterMap fun
    | (_, .violation v) => some v
    | _ => none

theorem violationsIn_append (log more : List (Option String × LogEntry)) :
    violationsIn (log ++ more) = violationsIn log ++ violationsIn more :=
  List.filterMap_append

/-- The first violation, or the value if there is none. -/
def firstOr {α : Type} (a : α) : List Violation → Except Violation α
  | [] => .ok a
  | v :: _ => .error v

namespace Analysis

variable {α β : Type} {c : Context} {m : Analysis α} {f : α → Analysis β}

/-- What ends a part ends the whole. -/
theorem bind_of_error {d : Context} {s : AnalysisState} {v : Violation}
    (h : (m d s).1 = .error v) : ((m >>= f) d s).1 = .error v := by
  obtain ⟨r, s', hm⟩ : ∃ r s', m d s = (r, s') := ⟨_, _, rfl⟩
  rw [hm] at h
  obtain rfl : r = .error v := h
  simp only [Bind.bind, hm]

/-- From every state, the collecting run of the analysis returns a value, and the run that ends at
the first violation gives the first one that was collected, or the same value in the same state. -/
def Agrees (c : Context) (m : Analysis α) : Prop :=
  ∀ s, ∃ a s' new, m (c.failing false) s = (.ok a, s') ∧ s'.log = s.log ++ new ∧
    (m (c.failing true) s).1 = firstOr a (violationsIn new) ∧
    (violationsIn new = [] → (m (c.failing true) s).2 = s')

namespace Agrees

/-- What does the same in both contexts, and leaves the log as it is. -/
theorem of_eq {a : AnalysisState → α} {g : AnalysisState → AnalysisState}
    (h : ∀ d s, m d s = (.ok (a s), g s)) (hlog : ∀ s, (g s).log = s.log) : Agrees c m := by
  intro s
  refine ⟨a s, g s, [], h _ s, ?_, ?_, fun _ => ?_⟩
  · rw [hlog, List.append_nil]
  · rw [h]
    rfl
  · rw [h]

theorem pure (a : α) : Agrees c (Pure.pure a) := .of_eq (fun _ _ => rfl) fun _ => rfl

/-- An entry that is no violation is noted in both runs. -/
theorem note {entry : LogEntry} (h : ∀ v, entry ≠ .violation v) : Agrees c (note entry) := by
  intro s
  refine ⟨(), _, [(c.function, entry)], rfl, rfl, ?_, fun _ => rfl⟩
  cases entry with
  | violation v => exact absurd rfl (h v)
  | _ => rfl

/-- A violation is collected in one run and ends the other. -/
theorem report (v : Violation) : Agrees c (report v) := by
  intro s
  refine ⟨(), _, [(c.function, .violation v)], report_eq rfl v s, rfl, rfl, fun h => ?_⟩
  exact absurd h (by simp [violationsIn])

theorem bind (h : Agrees c m) (hf : ∀ a, Agrees c (f a)) : Agrees c (m >>= f) := by
  intro s
  obtain ⟨a, s₁, new, hm, hlog, hfirst, hend⟩ := h s
  obtain ⟨b, s₂, more, hb, hlog', hfirst', hend'⟩ := hf a s₁
  refine ⟨b, s₂, new ++ more, by rw [bind_eq_of_ok hm, hb], ?_, ?_⟩
  · rw [hlog', hlog, List.append_assoc]
  rw [violationsIn_append]
  cases hnew : violationsIn new with
  | nil =>
    -- Nothing was reported so far: the two runs go on from the same value and state.
    have hsame : m (c.failing true) s = (.ok a, s₁) := by
      rw [hnew] at hfirst
      exact Prod.ext hfirst (hend hnew)
    rw [bind_eq_of_ok hsame, List.nil_append]
    exact ⟨hfirst', hend'⟩
  | cons v vs =>
    rw [hnew] at hfirst
    exact ⟨bind_of_error hfirst, fun h => absurd h (by simp)⟩

/-- The context is read, but not whether the first violation ends the analysis. -/
theorem context {f : Context → Analysis β} (hread : f (c.failing true) = f (c.failing false))
    (h : Agrees c (f (c.failing false))) : Agrees c (context >>= f) := by
  intro s
  obtain ⟨a, s', new, hm, hlog, hfirst, hend⟩ := h s
  refine ⟨a, s', new, hm, hlog, ?_⟩
  have hstop : (Analysis.context >>= f) (c.failing true) s =
      f (c.failing false) (c.failing true) s := by
    rw [← hread]
    rfl
  rw [hstop]
  exact ⟨hfirst, hend⟩

theorem inScope (h : Agrees c m) : Agrees c (inScope m) := by
  intro s
  obtain ⟨a, s', new, hm, hlog, hfirst, hend⟩ := h { s with env := [] :: s.env }
  refine ⟨a, { s' with env := s'.env.drop 1 }, new, by rw [Analysis.inScope, hm], hlog, hfirst,
    fun hnew => ?_⟩
  rw [Analysis.inScope, ← hend hnew]

theorem collecting (h : Agrees c m) : Agrees c (collecting m) := by
  intro s
  obtain ⟨a, s', new, hm, hlog, hfirst, hend⟩ := h { s with candidates := [] }
  refine ⟨(a, s'.candidates), { s' with candidates := s.candidates }, new,
    by rw [Analysis.collecting, hm], hlog, ?_⟩
  cases hnew : violationsIn new with
  | nil =>
    have hsame : m (c.failing true) { s with candidates := [] } = (.ok a, s') := by
      rw [hnew] at hfirst
      exact Prod.ext hfirst (hend hnew)
    rw [Analysis.collecting, hsame]
    exact ⟨rfl, fun _ => rfl⟩
  | cons v vs =>
    rw [hnew] at hfirst
    refine ⟨?_, fun h => absurd h (by simp)⟩
    obtain ⟨r, s'', hr⟩ : ∃ r s'', m (c.failing true) { s with candidates := [] } = (r, s'') :=
      ⟨_, _, rfl⟩
    rw [hr] at hfirst
    obtain rfl : r = .error v := hfirst
    rw [Analysis.collecting, hr]
    rfl

end Agrees

/-- An analysis agrees with itself because its steps do. -/
theorem Mirrors.agrees {ρ : Relabelling} {m' : Analysis β} {φ : α → β} (h : Mirrors c ρ m m' φ) :
    Agrees c m := by
  induction h with
  | pure => exact .pure _
  | bind _ _ ih ihf => exact ih.bind ihf
  | context hread _ ih => exact .context hread ih
  | note entry h => exact .note h
  | report v => exact .report v
  | inScope _ ih => exact ih.inScope
  | collecting _ ih => exact ih.collecting
  | lookup | aggregate? | contribute | define | rebind | newAggregate | setAggregate =>
    exact .of_eq (fun _ _ => rfl) fun _ => rfl

end Analysis

/-- The numbers and places as they are. -/
def Relabelling.same : Relabelling where
  number := id
  injective := Function.injective_id
  place := id
  log := []
  log' := []
  before := []

open Analysis in
/-- The effect of a body is the same whether the violations are collected or the first one ends the
analysis, as long as there is none. If there are some, the first one that is collected is the one
that ends the analysis. -/
theorem Analysis.bodyEffect_failFast (c : Context) (body : Block Span) (s : AnalysisState) :
    ∃ r s' new, bodyEffect body (c.failing false) s = (.ok r, s') ∧ s'.log = s.log ++ new ∧
      (bodyEffect body (c.failing true) s).1 = firstOr r (violationsIn new) ∧
      (violationsIn new = [] → (bodyEffect body (c.failing true) s).2 = s') := by
  have hsteps : Mirrors c Relabelling.same (bodyEffect body) _ _ :=
    bodyEffect_mirrors (fun _ => rfl) body
  exact hsteps.agrees s

end RaisingEffects
