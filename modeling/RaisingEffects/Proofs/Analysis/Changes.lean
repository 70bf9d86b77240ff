import RaisingEffects.Proofs.Analysis.Levels

/-!
# Changes of the state

The walk over a body changes the state in few ways. `Change` lists them, each with what is known
when it happens: a name is bound to something that follows its aggregate, an assignment replaces a
callable only together with a report, an insertion puts into an aggregate what it accepts.

A `Run` is a sequence of changes, with the visits between them. What every change keeps, a run keeps
and has in all of its visits (`Run.invariant`).

Scopes are counted from where the run starts. A run binds names in the scope it starts in only if
they are among its `names`; in the scopes that it opens itself it may bind any name.
-/

namespace RaisingEffects

/-- How the aggregate of a collection comes about. -/
inductive Aggregate.Made (policy : Policy) : Aggregate → Prop
  /-- All elements fit. -/
  | elements {declared : Option Effect} {kind : String} {es : List Effect} {a : Aggregate}
      (h : ofElements policy declared kind es = .ok a) : Made policy a
  /-- The effect is declared, and elements that do not fit were reported. -/
  | declared (e : Effect) (kind : String) :
      Made policy { effect := some e, kind, declared := true }
  /-- Nothing is declared, and an element that does not fit was reported. -/
  | anything (kind : String) : Made policy { effect := some .raisesAny, kind }

/-- If the meaning has an aggregate, it is that of a collection, and has the aggregate's effect. -/
def Binding.Follows (aggregates : List Aggregate) (b : Binding) : Prop :=
  ∀ id, b.aggregate = some id →
    b.kind = .collection ∧ ∃ a, aggregates[id]? = some a ∧ b.effect = a.current

/-- All meanings in the scopes follow their aggregates. -/
def AnalysisState.Linked (s : AnalysisState) : Prop :=
  ∀ level name b, s.env.meaning level name = some b → b.Follows s.aggregates

theorem Binding.Follows.of_none {aggregates : List Aggregate} {b : Binding}
    (h : b.aggregate = none) : b.Follows aggregates := by
  intro id hid
  rw [h] at hid
  cases hid

theorem AnalysisState.Linked.lookup {s : AnalysisState} (h : s.Linked) {name : String}
    {b : Binding} (hb : s.env.lookup name = some b) : b.Follows s.aggregates := by
  obtain ⟨level, -, hmeaning⟩ := Env.exists_level_of_lookup hb
  exact h level name b hmeaning

namespace Analysis

/-- A change of the state. The numbers tell how many scopes are open inside the first one. -/
inductive Change (policy : Policy) (names : List String) :
    Nat → AnalysisState → Nat → AnalysisState → Prop
  | log (d : Nat) (s : AnalysisState) (entries : List (Option String × LogEntry)) :
      Change policy names d s d { s with log := s.log ++ entries }
  | candidates (d : Nat) (s : AnalysisState) (candidates : List Effect) :
      Change policy names d s d { s with candidates }
  | aggregate (d : Nat) (s : AnalysisState) {a : Aggregate} (h : a.Made policy) :
      Change policy names d s d { s with aggregates := s.aggregates ++ [a] }
  | enter (d : Nat) (s : AnalysisState) :
      Change policy names d s (d + 1) { s with env := [] :: s.env }
  | leave (d : Nat) (s : AnalysisState) :
      Change policy names (d + 1) s d { s with env := s.env.drop 1 }
  | define {d : Nat} {s : AnalysisState} {name : String} {b : Binding}
      (hname : d = 0 → name ∈ names) (hb : s.Linked → b.Follows s.aggregates) :
      Change policy names d s d { s with env := s.env.define name b }
  /-- An assignment of a value that does not fit. -/
  | assign (d : Nat) {s : AnalysisState} {target : String} {b : Binding} {e : Effect}
      (hb : s.env.lookup target = some b) (hkind : b.kind = .callable)
      (he : e.fits b.effect = false) (function : Option String) (pos : Pos) :
      Change policy names d s d { s with
        env := s.env.rebind target (.callable .raisesAny)
        log := s.log ++
          [(function, .violation (.at_ (.assignMismatch target b.effect e) pos))] }
  /-- An insertion of a value that fits. -/
  | insert (d : Nat) {s : AnalysisState} {id : Nat} {a a' : Aggregate} {e : Effect}
      (ha : s.aggregates[id]? = some a) (he : a.insert e none = .ok a') :
      Change policy names d s d { s with
        aggregates := s.aggregates.set id a'
        env := s.env.follow id a'.current }

/-- Changes one after the other, with the visits between them. -/
inductive Run (policy : Policy) (names : List String) :
    Nat → AnalysisState → List Visit → Nat → AnalysisState → Prop
  | refl (d : Nat) (s : AnalysisState) : Run policy names d s [] d s
  | change {d d₁ d' : Nat} {s s₁ s' : AnalysisState} {vs : List Visit}
      (h : Change policy names d s d₁ s₁) (hrest : Run policy names d₁ s₁ vs d' s') :
      Run policy names d s vs d' s'
  | visit {d d' : Nat} {s' : AnalysisState} {vs : List Visit} (v : Visit)
      (hrest : Run policy names d v.state vs d' s') : Run policy names d v.state (v :: vs) d' s'

namespace Run

variable {policy : Policy} {names : List String} {d d' d'' : Nat} {s s' s'' : AnalysisState}
  {vs ws : List Visit} {P : Nat → AnalysisState → Prop}

theorem one (h : Change policy names d s d' s') : Run policy names d s [] d' s' :=
  .change h (.refl d' s')

theorem trans (h : Run policy names d s vs d' s') (h' : Run policy names d' s' ws d'' s'') :
    Run policy names d s (vs ++ ws) d'' s'' := by
  induction h with
  | refl => exact h'
  | change h _ ih => exact .change h (ih h')
  | visit v _ ih => exact .visit v (ih h')

/-- A change at the end of a run. -/
theorem snoc (h : Run policy names d s vs d' s') (h' : Change policy names d' s' d'' s'') :
    Run policy names d s vs d'' s'' := by
  have hrun := h.trans (.one h')
  rwa [List.append_nil] at hrun

theorem aggregates {new : List Aggregate} (h : ∀ a ∈ new, a.Made policy) (d : Nat)
    (s : AnalysisState) :
    Run policy names d s [] d { s with aggregates := s.aggregates ++ new } := by
  induction new generalizing s with
  | nil =>
    rw [List.append_nil]
    exact .refl d s
  | cons a new ih =>
    obtain ⟨ha, hnew⟩ := List.forall_mem_cons.1 h
    have hrun := ih hnew { s with aggregates := s.aggregates ++ [a] }
    rw [List.append_assoc] at hrun
    exact .change (.aggregate d s ha) hrun

/-- Names may be bound in a scope that the run opened. -/
theorem defineAll {entries : List (String × Binding)} (d : Nat)
    (h : ∀ entry ∈ entries, entry.2.Follows s.aggregates) :
    Run policy names (d + 1) s [] (d + 1) { s with env := s.env.defineAll entries } := by
  induction entries generalizing s with
  | nil => exact .refl _ _
  | cons entry entries ih =>
    obtain ⟨hentry, hentries⟩ := List.forall_mem_cons.1 h
    exact .change (.define (by simp) fun _ => hentry) (ih hentries)

/-- What every change keeps holds in all visits and at the end. The property may depend on how many
scopes are open. -/
theorem invariant (hP : ∀ {d s d' s'}, Change policy names d s d' s' → P d s → P d' s')
    (h : Run policy names d s vs d' s') (hs : P d s) : P d' s' ∧ ∀ v ∈ vs, ∃ d, P d v.state := by
  induction h with
  | refl => exact ⟨hs, by simp⟩
  | change h _ ih => exact ih (hP h hs)
  | visit v _ ih =>
    obtain ⟨hend, hvisits⟩ := ih hs
    exact ⟨hend, List.forall_mem_cons.2 ⟨⟨_, hs⟩, hvisits⟩⟩

/-- What relates a state to itself and survives every change relates each state that the run comes
through to all later ones. -/
theorem pairwise {R : AnalysisState → AnalysisState → Prop} (hrefl : ∀ {d s}, P d s → R s s)
    (hR : ∀ {d s d₁ s₁ t}, Change policy names d s d₁ s₁ → P d s → R s₁ t → R s t)
    (hP : ∀ {d s d' s'}, Change policy names d s d' s' → P d s → P d' s')
    (h : Run policy names d s vs d' s') (hs : P d s) :
    List.Pairwise R (s :: (vs.map Visit.state ++ [s'])) := by
  induction h with
  | refl d s => exact List.pairwise_pair.2 (hrefl hs)
  | change h _ ih =>
    obtain ⟨hfirst, hrest⟩ := List.pairwise_cons.1 (ih (hP h hs))
    exact List.pairwise_cons.2 ⟨fun t ht => hR h hs (hfirst t ht), hrest⟩
  | visit v _ ih =>
    obtain ⟨hfirst, hrest⟩ := List.pairwise_cons.1 (ih hs)
    refine List.pairwise_cons.2 ⟨?_, List.pairwise_cons.2 ⟨hfirst, hrest⟩⟩
    exact List.forall_mem_cons.2 ⟨hrefl hs, hfirst⟩

end Run

end Analysis

end RaisingEffects
