import RaisingEffects.Proofs.Analysis.Run
import RaisingEffects.Proofs.Forwarding.Places
import RaisingEffects.Proofs.Table

/-!
# Runs that differ in numbers and places

Aggregates are numbered in the order in which they are made, so the numbers depend on what was
analysed before. The places in a tree depend on how its source is laid out. Nothing else depends on
either of them: `AnalysisState.Relabels` relates two states of which the second has the aggregates
of the first under other numbers, and perhaps more of them, and the rules of the first at other
places. `Alike c ρ m m' φ` says that `m` and `m'` take related states to related states, where the
second run returns what the first returns with its numbers and places changed by `φ`, and logs the
same at other places.

* `Alike.bind`, `Alike.inScope` and `Alike.collecting` are the rules for the ways in which analyses
  are put together.
* `Alike.lookup`, `Alike.newAggregate` and their relatives are about what an analysis does with its
  state.
-/

namespace RaisingEffects

/-- The entry at its new place, if it has one. -/
def LogEntry.move (place : Pos → Pos) : LogEntry → LogEntry
  | closure span e => closure (span.move place) e
  | forwards function e => forwards function e
  | resolved function mode e => resolved function mode e
  | violation v => violation (v.move place)

theorem LogEntry.move_id (entry : LogEntry) : entry.move (fun pos => pos) = entry := by
  cases entry with
  | violation v => exact congrArg violation v.move_id
  | _ => rfl

/-- The numbers and places of a second run, and what was there before the runs. -/
structure Relabelling where
  /-- The numbers that the aggregates of the first run have in the second. -/
  number : Nat → Nat
  injective : Function.Injective number
  /-- The places that the places of the first run are moved to. -/
  place : Pos → Pos
  /-- What was logged before the first run. -/
  log : List (Option String × LogEntry)
  /-- What was logged before the second run. -/
  log' : List (Option String × LogEntry)
  /-- The aggregates that there were before the second run. -/
  before : List Aggregate

variable (ρ : Relabelling)

/-- The note with its number and its places changed. -/
def Note.relabel (n : Note) : Note :=
  { n with
    span := n.span.move ρ.place
    aggregate := n.aggregate.map ρ.number
    forwarding := n.forwarding.map (Forwarding.move ρ.place) }

def Binding.relabel (b : Binding) : Binding :=
  { b with
    aggregate := b.aggregate.map ρ.number
    forwarding := b.forwarding.map (Forwarding.move ρ.place) }

theorem Binding.relabel_of_aggregate (hplace : ρ.place = fun pos => pos) {b : Binding}
    (h : b.aggregate = none) : b.relabel ρ = b := by
  have hforwarding : b.forwarding.map (Forwarding.move ρ.place) = b.forwarding := by
    rw [hplace, funext Forwarding.move_id, Option.map_id']
  unfold Binding.relabel
  rw [h, Option.map_none, hforwarding, ← h]

/-- The names of a collection are its names under its other number. -/
theorem Binding.follow_relabel (b : Binding) (id : Nat) (e : Effect) :
    (if (b.relabel ρ).aggregate = some (ρ.number id) then { b.relabel ρ with effect := e }
      else b.relabel ρ) =
    Binding.relabel ρ (if b.aggregate = some id then { b with effect := e } else b) := by
  have hnumber : (b.relabel ρ).aggregate = some (ρ.number id) ↔ b.aggregate = some id := by
    simp [Binding.relabel, ρ.injective.eq_iff]
  by_cases hid : b.aggregate = some id
  · rw [if_pos hid, if_pos (hnumber.2 hid)]
    rfl
  · rw [if_neg hid, if_neg (mt hnumber.1 hid)]

/-! ## Trees -/

/-- Signatures have no aggregates. -/
theorem Clause.option_relabel_blank (clause : Option (Clause Span)) :
    (clause.map (·.map (Span.move ρ.place))).map (·.map Note.blank) =
      (clause.map (·.map Note.blank)).map (·.map (Note.relabel ρ)) := by
  rw [Clause.option_map_map, Clause.option_map_map]
  rfl

theorem TypeExpr.option_relabel_blank (type : Option (TypeExpr Span)) :
    (type.map (·.map (Span.move ρ.place))).map (·.map Note.blank) =
      (type.map (·.map Note.blank)).map (·.map (Note.relabel ρ)) := by
  rw [TypeExpr.option_map_map, TypeExpr.option_map_map]
  rfl

theorem Param.list_relabel_blank (ps : List (Param Span)) :
    (ps.map (·.map (Span.move ρ.place))).map (·.map Note.blank) =
      (ps.map (·.map Note.blank)).map (·.map (Note.relabel ρ)) := by
  rw [Param.list_map_map, Param.list_map_map]
  rfl

theorem Analysis.elementPos_relabel (es : List (Expr Note)) (index : Option Nat) :
    elementPos (Expr.mapAll (Note.relabel ρ) es) index =
      (elementPos es index).map ρ.place := by
  cases index with
  | none => rfl
  | some i =>
    rw [elementPos, elementPos, Expr.mapAll_eq_map, Option.bind_some, Option.bind_some,
      List.getElem?_map]
    cases es[i]? with
    | none => rfl
    | some e => cases e <;> rfl

/-! ## Scopes -/

/-- The second scope gives names the meanings that the first does, with other numbers. -/
def Table.Relabels (scope scope' : Table Binding) : Prop :=
  ∀ name, scope'.get? name = (scope.get? name).map (Binding.relabel ρ)

theorem Table.Relabels.set {scope scope' : Table Binding} (h : scope.Relabels ρ scope')
    (name : String) (b : Binding) :
    Table.Relabels ρ (scope.set name b) (scope'.set name (b.relabel ρ)) := by
  intro other
  rw [Table.get?_set, Table.get?_set, h other]
  split <;> rfl

def Env.Relabels (env env' : Env) : Prop := List.Forall₂ (Table.Relabels ρ) env env'

namespace Env.Relabels

variable {ρ} {env env' : Env} (h : env.Relabels ρ env')

include h

theorem push : Env.Relabels ρ ([] :: env) ([] :: env') := .cons (fun _ => rfl) h

theorem pop : Env.Relabels ρ (env.drop 1) (env'.drop 1) := by
  cases h with
  | nil => exact .nil
  | cons _ h => exact h

theorem lookup (name : String) : env'.lookup name = (env.lookup name).map (Binding.relabel ρ) := by
  induction h with
  | nil => rfl
  | @cons scope _ _ _ hscope _ ih =>
    unfold Env.lookup at ih ⊢
    rw [List.findSome?_cons, List.findSome?_cons, hscope name]
    cases scope.get? name with
    | none => exact ih
    | some b => rfl

theorem define (name : String) (b : Binding) :
    Env.Relabels ρ (env.define name b) (env'.define name (b.relabel ρ)) := by
  cases h with
  | nil =>
    have hempty : Table.Relabels ρ [] [] := fun _ => rfl
    exact .cons (hempty.set ρ name b) .nil
  | cons hscope h => exact .cons (hscope.set ρ name b) h

theorem rebind (name : String) (b : Binding) :
    Env.Relabels ρ (env.rebind name b) (env'.rebind name (b.relabel ρ)) := by
  induction h with
  | nil => exact .nil
  | cons hscope h ih =>
    unfold Env.rebind
    rw [hscope name, Option.isSome_map]
    split
    · exact .cons (hscope.set ρ name b) h
    · exact .cons hscope ih

theorem follow (id : Nat) (e : Effect) :
    Env.Relabels ρ (env.follow id e) (env'.follow (ρ.number id) e) := by
  rw [Env.Relabels, Env.follow, Env.follow, List.forall₂_map_left_iff,
    List.forall₂_map_right_iff]
  refine h.imp fun scope scope' hscope name => ?_
  have hleft := Table.get?_map
    (fun b : Binding => if b.aggregate = some id then { b with effect := e } else b) scope name
  have hright := Table.get?_map
    (fun b : Binding => if b.aggregate = some (ρ.number id) then { b with effect := e } else b)
    scope' name
  refine hright.trans (.trans ?_ (congrArg (Option.map (Binding.relabel ρ)) hleft.symm))
  rw [hscope name, Option.map_map, Option.map_map]
  exact Option.map_congr fun b _ => b.follow_relabel ρ id e

end Env.Relabels

/-! ## States -/

/-- The second state has the aggregates of the first under other numbers, its other aggregates are
as they were, and what was logged since the runs started is the same, at other places. The next
aggregates that are made are numbered one after the other. -/
structure AnalysisState.Relabels (s t : AnalysisState) : Prop where
  env : s.env.Relabels ρ t.env
  candidates : t.candidates = s.candidates
  aggregates : ∀ i, t.aggregates[ρ.number i]? = s.aggregates[i]?
  others : ∀ j, (∀ i, ρ.number i ≠ j) → t.aggregates[j]? = ρ.before[j]?
  next : ρ.number s.aggregates.length = t.aggregates.length
  step : ∀ i, s.aggregates.length ≤ i → ρ.number (i + 1) = ρ.number i + 1
  log : ∃ new, s.log = ρ.log ++ new ∧
    t.log = ρ.log' ++ new.map fun entry => (entry.1, entry.2.move ρ.place)

namespace AnalysisState.Relabels

variable {ρ} {s t : AnalysisState} (h : s.Relabels ρ t)

include h

theorem withEnv {env env' : Env} (henv : env.Relabels ρ env') :
    AnalysisState.Relabels ρ { s with env } { t with env := env' } := { h with env := henv }

theorem withCandidates (candidates : List Effect) :
    AnalysisState.Relabels ρ { s with candidates } { t with candidates } :=
  { h with candidates := rfl }

theorem logged (function : Option String) (entries : List LogEntry) :
    AnalysisState.Relabels ρ (s.logged function entries)
      (t.logged function (entries.map (LogEntry.move ρ.place))) := by
  obtain ⟨new, hs, ht⟩ := h.log
  refine { h with log := ⟨new ++ entries.map fun entry => (function, entry), ?_, ?_⟩ }
  · rw [← List.append_assoc, ← hs]
    rfl
  · rw [List.map_append, List.map_map, ← List.append_assoc, ← ht, AnalysisState.logged,
      List.map_map]
    rfl

theorem number_lt_iff {i : Nat} : ρ.number i < t.aggregates.length ↔ i < s.aggregates.length := by
  rw [← Nat.not_le, ← Nat.not_le, ← List.getElem?_eq_none_iff, ← List.getElem?_eq_none_iff,
    h.aggregates i]

theorem newAggregate (a : Aggregate) :
    AnalysisState.Relabels ρ { s with aggregates := s.aggregates ++ [a] }
      { t with aggregates := t.aggregates ++ [a] } where
  env := h.env
  candidates := h.candidates
  aggregates := by
    intro i
    have hi := h.aggregates i
    rcases Nat.lt_trichotomy i s.aggregates.length with hlt | rfl | hgt
    · rw [List.getElem?_append_left hlt, List.getElem?_append_left (h.number_lt_iff.2 hlt), hi]
    · rw [h.next, List.getElem?_concat_length, List.getElem?_concat_length]
    · -- A number past the end stays past the end, since the next one is taken by the new aggregate.
      have hle : t.aggregates.length ≤ ρ.number i :=
        Nat.le_of_not_lt (mt h.number_lt_iff.1 (Nat.lt_asymm hgt))
      have hne : ρ.number i ≠ t.aggregates.length := fun heq =>
        Nat.ne_of_gt hgt (ρ.injective (heq.trans h.next.symm))
      rw [List.getElem?_eq_none (by simp; omega), List.getElem?_eq_none (by simp; omega)]
  others := by
    intro j hj
    rw [← h.others j hj]
    rcases Nat.lt_or_ge j t.aggregates.length with hlt | hge
    · exact List.getElem?_append_left hlt
    · have hne : t.aggregates.length ≠ j := h.next ▸ hj _
      rw [List.getElem?_eq_none hge, List.getElem?_eq_none (by simp; omega)]
  next := by
    rw [List.length_append, List.length_append, List.length_singleton,
      h.step _ (Nat.le_refl _), h.next]
  step := fun i hi => h.step i (by simp at hi; omega)
  log := h.log

theorem setAggregate (id : Nat) (a : Aggregate) :
    AnalysisState.Relabels ρ
      { s with aggregates := s.aggregates.set id a, env := s.env.follow id a.current }
      { t with
        aggregates := t.aggregates.set (ρ.number id) a
        env := t.env.follow (ρ.number id) a.current } where
  env := h.env.follow id a.current
  candidates := h.candidates
  aggregates := by
    intro i
    rw [List.getElem?_set, List.getElem?_set, h.aggregates i]
    by_cases hid : id = i
    · subst hid
      simp only [if_true, h.number_lt_iff]
    · rw [if_neg hid, if_neg fun heq => hid (ρ.injective heq)]
  others := by
    intro j hj
    rw [List.getElem?_set_ne (hj id), h.others j hj]
  next := by rw [List.length_set, List.length_set, h.next]
  step := fun i hi => h.step i (by rwa [List.length_set] at hi)
  log := h.log

end AnalysisState.Relabels

namespace Analysis

variable {ρ} {α β γ δ : Type} {c : Context} {m : Analysis α} {m' : Analysis β} {φ : α → β}
  {f : α → Analysis γ} {f' : β → Analysis δ} {ψ : γ → δ}

/-- From related states both runs return, the second what `φ` makes of what the first returns, and
end in related states. -/
def Alike (c : Context) (ρ : Relabelling) (m : Analysis α) (m' : Analysis β) (φ : α → β) : Prop :=
  ∀ s t, s.Relabels ρ t →
    ∃ a s' t', m c s = (.ok a, s') ∧ m' c t = (.ok (φ a), t') ∧ s'.Relabels ρ t'

namespace Alike

/-- Analyses that read the state and log. -/
theorem of_eq {a : AnalysisState → α} (entries : AnalysisState → List LogEntry)
    (h : ∀ s, m c s = (.ok (a s), s.logged c.function (entries s)))
    (h' : ∀ s t, s.Relabels ρ t → m' c t =
      (.ok (φ (a s)), t.logged c.function ((entries s).map (LogEntry.move ρ.place)))) :
    Alike c ρ m m' φ :=
  fun s t hst => ⟨a s, _, _, h s, h' s t hst, hst.logged c.function (entries s)⟩

/-- Analyses that read the state only. -/
theorem of_read {a : AnalysisState → α} (h : ∀ s, m c s = (.ok (a s), s))
    (h' : ∀ s t, s.Relabels ρ t → m' c t = (.ok (φ (a s)), t)) : Alike c ρ m m' φ :=
  fun s t hst => ⟨a s, _, _, h s, h' s t hst, hst⟩

theorem pure {a : α} {b : β} (h : b = φ a) : Alike c ρ (Pure.pure a) (Pure.pure b) φ :=
  of_read (fun _ => rfl) fun _ _ _ => h ▸ rfl

theorem bind (h : Alike c ρ m m' φ) (hf : ∀ a, Alike c ρ (f a) (f' (φ a)) ψ) :
    Alike c ρ (m >>= f) (m' >>= f') ψ := by
  intro s t hst
  obtain ⟨a, s₁, t₁, hm, hm', h₁⟩ := h s t hst
  obtain ⟨b, s₂, t₂, hb, hb', h₂⟩ := hf a s₁ t₁ h₁
  exact ⟨b, s₂, t₂, by rw [bind_eq_of_ok hm, hb], by rw [bind_eq_of_ok hm', hb'], h₂⟩

theorem ite {p : Prop} [Decidable p] {m₁ m₂ : Analysis α} {m₁' m₂' : Analysis β}
    (h₁ : p → Alike c ρ m₁ m₁' φ) (h₂ : ¬p → Alike c ρ m₂ m₂' φ) :
    Alike c ρ (if p then m₁ else m₂) (if p then m₁' else m₂') φ := by
  by_cases hp : p
  · rw [if_pos hp, if_pos hp]
    exact h₁ hp
  · rw [if_neg hp, if_neg hp]
    exact h₂ hp

/-- What follows reading the context, where more has to be known of it than that it is the same. -/
theorem withContext {f : Context → Analysis γ} {f' : Context → Analysis δ}
    (h : Alike c ρ (f c) (f' c) ψ) :
    Alike c ρ (Analysis.context >>= f) (Analysis.context >>= f') ψ := h

theorem lookup (name : String) :
    Alike c ρ (lookup name) (lookup name) (Option.map (Binding.relabel ρ)) :=
  of_read (fun _ => rfl) fun s t hst =>
    show _ = (Except.ok ((s.env.lookup name).map _), t) from hst.env.lookup name ▸ rfl

theorem aggregate? (id : Nat) :
    Alike c ρ (aggregate? id) (aggregate? (ρ.number id)) fun a => a :=
  of_read (fun _ => rfl) fun s t hst =>
    show _ = (Except.ok s.aggregates[id]?, t) from hst.aggregates id ▸ rfl

theorem note (entry : LogEntry) :
    Alike c ρ (note entry) (note (entry.move ρ.place)) fun u => u :=
  of_eq (fun _ => [entry]) (fun _ => rfl) fun _ _ _ => rfl

theorem report (hc : c.failFast = false) (v : Violation) :
    Alike c ρ (report v) (report (v.move ρ.place)) fun u => u :=
  of_eq (fun _ => [.violation v]) (report_eq hc v) fun _ t _ => report_eq hc _ t

theorem update {g g' : AnalysisState → AnalysisState}
    (h : ∀ s t, s.Relabels ρ t → (g s).Relabels ρ (g' t)) :
    Alike c ρ (update g) (update g') fun u => u :=
  fun s t hst => ⟨(), g s, g' t, rfl, rfl, h s t hst⟩

theorem contribute (e : Effect) : Alike c ρ (contribute e) (contribute e) fun u => u :=
  update fun s _ hst => by
    rw [hst.candidates]
    exact hst.withCandidates _

theorem define (name : String) (b : Binding) :
    Alike c ρ (define name b) (define name (b.relabel ρ)) fun u => u :=
  update fun _ _ hst => hst.withEnv (hst.env.define name b)

theorem rebind (name : String) (b : Binding) :
    Alike c ρ (rebind name b) (rebind name (b.relabel ρ)) fun u => u :=
  update fun _ _ hst => hst.withEnv (hst.env.rebind name b)

theorem newAggregate (a : Aggregate) :
    Alike c ρ (newAggregate a) (newAggregate a) ρ.number :=
  fun s _ hst => ⟨s.aggregates.length, _, _, rfl, hst.next ▸ rfl, hst.newAggregate a⟩

theorem setAggregate (id : Nat) (a : Aggregate) :
    Alike c ρ (setAggregate id a) (setAggregate (ρ.number id) a) fun u => u :=
  update fun _ _ hst => hst.setAggregate id a

theorem inScope (h : Alike c ρ m m' φ) : Alike c ρ (inScope m) (inScope m') φ := by
  intro s t hst
  obtain ⟨a, s', t', hm, hm', h'⟩ := h _ _ (hst.withEnv hst.env.push)
  refine ⟨a, { s' with env := s'.env.drop 1 }, { t' with env := t'.env.drop 1 }, ?_, ?_,
    h'.withEnv h'.env.pop⟩
  · rw [Analysis.inScope, hm]
  · rw [Analysis.inScope, hm']

theorem within {function : String}
    (h : Alike { c with function := some function } ρ m m' φ) :
    Alike c ρ (within function m) (within function m') φ := h

theorem collecting (h : Alike c ρ m m' φ) :
    Alike c ρ (collecting m) (collecting m') fun r => (φ r.1, r.2) := by
  intro s t hst
  obtain ⟨a, s', t', hm, hm', h'⟩ := h _ _ (hst.withCandidates [])
  refine ⟨(a, s'.candidates), { s' with candidates := s.candidates },
    { t' with candidates := s.candidates }, ?_, ?_, h'.withCandidates _⟩
  · rw [Analysis.collecting, hm]
  · rw [Analysis.collecting, hm']
    dsimp only
    rw [h'.candidates, hst.candidates]

end Alike

end Analysis

end RaisingEffects
