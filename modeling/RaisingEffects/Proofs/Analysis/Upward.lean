import RaisingEffects.Proofs.Analysis.Bodies

/-!
# The walk over a body changes what is outside only upward

While a body is analysed, the scopes around it keep their names, and what the names mean changes in
two ways only. An assignment that does not fit replaces a callable by one that raises anything, and
is reported. An insertion fixes the effect of a collection that was open, and the names of the
collection follow.

* `Binding.Raised` is such a change of one meaning, and `AnalysisState.Rises` says so of all
  meanings in the first `n` scopes. It is transitive where all meanings follow their aggregates.
* `Change.rises` shows it of every change of the state, and `Run.rises` of whole runs.
* `Analysis.bodyEffect_upward` is the statement about bodies: each state on the way rises to all
  later ones, so no effect is ever lowered or changed to another that it is not below.
-/

namespace RaisingEffects

/-! ## Aggregates -/

/-- The aggregate stays as it is, or it was open and is fixed now. -/
def Aggregate.Settles (a a' : Aggregate) : Prop :=
  a' = a ∨ a.effect = none ∧ ∃ e, a' = { a with effect := some e }

namespace Aggregate

variable {a a' a'' : Aggregate} {e : Effect}

theorem Settles.trans (h : a.Settles a') (h' : a'.Settles a'') : a.Settles a'' := by
  rcases h with rfl | ⟨hopen, e, rfl⟩
  · exact h'
  · rcases h' with rfl | ⟨hopen', -⟩
    · exact .inr ⟨hopen, e, rfl⟩
    · cases hopen'

theorem Settles.eq_of_fixed (h : a.Settles a') (ha : a.effect = some e) : a' = a := by
  rcases h with rfl | ⟨hopen, -⟩
  · rfl
  · rw [ha] at hopen
    cases hopen

theorem Settles.eq_of_open (h : a.Settles a') (ha : a'.effect = none) : a' = a := by
  rcases h with rfl | ⟨-, e, rfl⟩
  · rfl
  · cases ha

/-- Inserting a value fixes an open aggregate and leaves a fixed one. -/
theorem insert_settles {index : Option Nat} (h : a.insert e index = .ok a') : a.Settles a' := by
  unfold insert at h
  split at h
  · rename_i hopen
    cases h
    exact .inr ⟨hopen, _, rfl⟩
  · split at h
    · cases h
      exact .inl rfl
    · cases h

end Aggregate

/-! ## Meanings -/

/-- What a name means may change from `b` between the states. -/
inductive Binding.Raised (name : String) (s t : AnalysisState) (b : Binding) : Binding → Prop
  | same : Raised name s t b b
  /-- An assignment to the name was reported in the meantime. -/
  | reassigned {function : Option String} {actual : Effect} {pos : Pos} (hkind : b.kind = .callable)
      (hfits : actual.fits b.effect = false)
      (hlog : (function, .violation (.at_ (.assignMismatch name b.effect actual) pos)) ∈
        t.log.drop s.log.length) : Raised name s t b (.callable .raisesAny)
  /-- The collection of the name was open and is fixed. -/
  | fixed {id : Nat} {a : Aggregate} {e : Effect} (hid : b.aggregate = some id)
      (ha : s.aggregates[id]? = some a) (hopen : a.effect = none)
      (hfixed : t.aggregates[id]? = some { a with effect := some e }) :
      Raised name s t b { b with effect := e }

theorem Binding.Raised.rel_refl (name : String) (s t : AnalysisState) (o : Option Binding) :
    Option.Rel (Binding.Raised name s t) o o := by
  cases o with
  | none => exact .none
  | some b => exact .some .same

/-- In the first `n` scopes, names keep their meanings but for changes upward; the names `names` of
the last of these scopes apart. Aggregates stay or become fixed, and the log grows. -/
structure AnalysisState.Rises (n : Nat) (names : List String) (s t : AnalysisState) : Prop where
  meanings : ∀ level name, level < n → (level + 1 = n → name ∉ names) →
    Option.Rel (Binding.Raised name s t) (s.env.meaning level name) (t.env.meaning level name)
  aggregates : ∀ (id : Nat) (a : Aggregate), s.aggregates[id]? = some a →
    ∃ a', t.aggregates[id]? = some a' ∧ a.Settles a'
  log : s.log <+: t.log

/-- Callables in the first `n` scopes stay callables, with an effect that is no lower, and
aggregates with a fixed effect stay as they are. -/
structure AnalysisState.Spares (n : Nat) (s t : AnalysisState) : Prop where
  callables : ∀ level name b, level < n → s.env.meaning level name = some b →
    b.kind = .callable → ∃ b', t.env.meaning level name = some b' ∧ b'.kind = .callable ∧
      b.effect.fits b'.effect = true
  aggregates : ∀ (id : Nat) (a : Aggregate) (e : Effect), s.aggregates[id]? = some a →
    a.effect = some e → t.aggregates[id]? = some a

namespace AnalysisState.Rises

variable {n : Nat} {names : List String} {s t u : AnalysisState} {entry : Option String × LogEntry}

/-- Where the scopes and aggregates are the same. -/
theorem of_eq (henv : ∀ level name, level < n → t.env.meaning level name = s.env.meaning level name)
    (haggregates : t.aggregates = s.aggregates) (hlog : s.log <+: t.log) : s.Rises n names t where
  meanings := by
    intro level name hlevel _
    rw [henv level name hlevel]
    exact Binding.Raised.rel_refl ..
  aggregates := by
    intro id a ha
    rw [haggregates]
    exact ⟨a, ha, .inl rfl⟩
  log := hlog

theorem refl (s : AnalysisState) : s.Rises n names s :=
  .of_eq (fun _ _ _ => rfl) rfl (List.prefix_refl _)

/-- What was reported between the first two states was reported between the first and the last. -/
theorem mem_drop_of_mem_drop (htu : t.log <+: u.log) (h : entry ∈ t.log.drop s.log.length) :
    entry ∈ u.log.drop s.log.length := by
  obtain ⟨more, hmore⟩ := htu
  rw [← hmore, List.drop_append]
  exact List.mem_append_left _ h

/-- Changes of one meaning, one after the other. A callable that was replaced is replaced by one
that every value fits, and a collection that was fixed is not open again. -/
theorem raised_trans (h : s.Rises n names t) (h' : t.Rises n names u) {name : String}
    {b b' b'' : Binding} (hb : b.Follows s.aggregates) (hraised : b.Raised name s t b')
    (hraised' : b'.Raised name t u b'') : b.Raised name s u b'' := by
  cases hraised with
  | same =>
    cases hraised' with
    | same => exact .same
    | reassigned hkind hfits hlog =>
      exact .reassigned hkind hfits (List.drop_subset_drop_left _ h.log.length_le hlog)
    | fixed hid ha hopen hfixed =>
      obtain ⟨-, a₀, ha₀, -⟩ := hb _ hid
      obtain ⟨a₁, ha₁, hsettles⟩ := h.aggregates _ a₀ ha₀
      rw [ha] at ha₁
      cases ha₁
      cases hsettles.eq_of_open hopen
      exact .fixed hid ha₀ hopen hfixed
  | reassigned hkind hfits hlog =>
    cases hraised' with
    | same => exact .reassigned hkind hfits (mem_drop_of_mem_drop h'.log hlog)
    | reassigned _ hfits' _ =>
      rw [show (Binding.callable .raisesAny).effect = .raisesAny from rfl,
        Effect.fits_raisesAny] at hfits'
      cases hfits'
    | fixed hid => cases hid
  | fixed hid ha hopen hfixed =>
    obtain ⟨hkind, -⟩ := hb _ hid
    cases hraised' with
    | same =>
      obtain ⟨a₂, ha₂, hsettles⟩ := h'.aggregates _ _ hfixed
      cases hsettles.eq_of_fixed rfl
      exact .fixed hid ha hopen ha₂
    | reassigned hkind' =>
      rw [hkind] at hkind'
      cases hkind'
    | fixed hid' ha' hopen' =>
      cases hid.symm.trans hid'
      cases hfixed.symm.trans ha'
      cases hopen'

theorem trans (h : s.Rises n names t) (h' : t.Rises n names u) (hs : s.Linked) :
    s.Rises n names u where
  meanings := by
    intro level name hlevel hname
    have hfirst := h.meanings level name hlevel hname
    have hsecond := h'.meanings level name hlevel hname
    rcases eq_none_or_some_of_rel hfirst with ⟨hb, ht⟩ | ⟨b, b', hb, ht, hraised⟩
    · rcases eq_none_or_some_of_rel hsecond with ⟨-, hu⟩ | ⟨b', b'', ht', -, -⟩
      · rw [hb, hu]
        exact .none
      · cases ht.symm.trans ht'
    · rcases eq_none_or_some_of_rel hsecond with ⟨ht', -⟩ | ⟨c', b'', ht', hu, hraised'⟩
      · cases ht.symm.trans ht'
      · cases ht.symm.trans ht'
        rw [hb, hu]
        exact .some (h.raised_trans h' (hs level name b hb) hraised hraised')
  aggregates := by
    intro id a ha
    obtain ⟨a', ha', hsettles⟩ := h.aggregates id a ha
    obtain ⟨a'', ha'', hsettles'⟩ := h'.aggregates id a' ha'
    exact ⟨a'', ha'', hsettles.trans hsettles'⟩
  log := h.log.trans h'.log

/-- What a name means afterwards. -/
theorem meaning {level : Nat} {name : String} {b : Binding} (h : s.Rises n names t)
    (hlevel : level < n) (hname : level + 1 = n → name ∉ names)
    (hb : s.env.meaning level name = some b) :
    ∃ b', t.env.meaning level name = some b' ∧ b.Raised name s t b' := by
  rcases eq_none_or_some_of_rel (h.meanings level name hlevel hname) with
    ⟨hnone, -⟩ | ⟨c, b', hc, hb', hraised⟩
  · cases hb.symm.trans hnone
  · cases hb.symm.trans hc
    exact ⟨b', hb', hraised⟩

theorem spares (h : s.Rises n [] t) (hs : s.Linked) : s.Spares n t where
  callables := by
    intro level name b hlevel hb hkind
    obtain ⟨b', hb', hraised⟩ := h.meaning hlevel (by simp) hb
    refine ⟨b', hb', ?_⟩
    cases hraised with
    | same => exact ⟨hkind, Effect.fits_refl _⟩
    | reassigned => exact ⟨rfl, Effect.fits_raisesAny _⟩
    | fixed hid =>
      obtain ⟨hcollection, -⟩ := hs level name b hb _ hid
      rw [hkind] at hcollection
      cases hcollection
  aggregates := by
    intro id a e ha he
    obtain ⟨a', ha', hsettles⟩ := h.aggregates id a ha
    rw [ha', hsettles.eq_of_fixed he]

end AnalysisState.Rises

/-! ## Changes -/

/-- An aggregate keeps its number when others are made. -/
theorem Aggregate.getElem?_append {aggregates : List Aggregate} {id : Nat} {a : Aggregate}
    (ha : aggregates[id]? = some a) (new : List Aggregate) :
    (aggregates ++ new)[id]? = some a := by
  rwa [List.getElem?_append_left (List.getElem?_eq_some_iff.1 ha).1]

namespace Binding.Follows

variable {aggregates : List Aggregate} {b : Binding}

theorem append (h : b.Follows aggregates) (new : List Aggregate) :
    b.Follows (aggregates ++ new) := by
  intro id hid
  obtain ⟨hkind, a, ha, heffect⟩ := h id hid
  exact ⟨hkind, a, Aggregate.getElem?_append ha new, heffect⟩

/-- Where an aggregate is changed, its names follow. -/
theorem follow (h : b.Follows aggregates) (id : Nat) (a : Aggregate) :
    Binding.Follows (aggregates.set id a)
      (if b.aggregate = some id then { b with effect := a.current } else b) := by
  intro id' hid'
  by_cases hid : b.aggregate = some id
  · rw [if_pos hid] at hid' ⊢
    cases hid.symm.trans hid'
    obtain ⟨hkind, a₀, ha₀, -⟩ := h id hid
    have hlt := (List.getElem?_eq_some_iff.1 ha₀).1
    exact ⟨hkind, a, by rw [List.getElem?_set_self hlt], rfl⟩
  · rw [if_neg hid] at hid' ⊢
    obtain ⟨hkind, a', ha', heffect⟩ := h id' hid'
    have hne : id ≠ id' := fun heq => hid (heq ▸ hid')
    exact ⟨hkind, a', by rwa [List.getElem?_set_ne hne], heffect⟩

end Binding.Follows

namespace Analysis

variable {policy : Policy} {names : List String} {d d' n : Nat} {s s' : AnalysisState}
  {vs : List Visit}

/-- Every change keeps the meanings linked to their aggregates. -/
theorem Change.linked (h : Change policy names d s d' s') (hs : s.Linked) : s'.Linked := by
  cases h with
  | log | candidates => exact hs
  | aggregate => exact fun level name b hb => (hs level name b hb).append _
  | enter =>
    intro level name b hb
    rw [Env.meaning_enter] at hb
    exact hs level name b hb
  | leave => exact fun level name b hb => hs level name b (Env.meaning_of_leave hb)
  | define hname hb =>
    intro level x b' hb'
    rw [Env.meaning_define] at hb'
    split at hb'
    · cases hb'
      exact hb hs
    · exact hs level x b' hb'
  | assign hb hkind he function pos =>
    intro level x b' hb'
    rw [Env.meaning_rebind] at hb'
    split at hb'
    · cases hb'
      exact .of_none rfl
    · exact hs level x b' hb'
  | @insert _ _ id a a' e ha he =>
    intro level x b' hb'
    rw [Env.meaning_follow] at hb'
    obtain ⟨b, hb, rfl⟩ := Option.map_eq_some_iff.1 hb'
    exact (hs level x b hb).follow id a'

/-- Scopes are opened and closed as the numbers say. -/
theorem Change.length (h : Change policy names d s d' s') (hn : ∀ name ∈ names, 0 < n)
    (hs : s.env.length = n + d) : s'.env.length = n + d' := by
  cases h with
  | log | candidates | aggregate => exact hs
  | enter => rw [List.length_cons, hs, Nat.add_assoc]
  | leave => rw [List.length_drop, hs]; omega
  | @define _ _ name b hname hb =>
    have hpos : 0 < n + d := by
      rcases Nat.eq_zero_or_pos d with hd | hd
      · have := hn name (hname hd)
        omega
      · omega
    rw [Env.length_define, hs]
    omega
  | assign => rw [Env.length_rebind, hs]
  | insert => rw [Env.length_follow, hs]

/-- An insertion fixes an open collection, whose names follow, or changes nothing. -/
theorem rises_insert {id : Nat} {a a' : Aggregate} {e : Effect} (hs : s.Linked)
    (ha : s.aggregates[id]? = some a) (he : a.insert e none = .ok a') :
    s.Rises n names { s with
      aggregates := s.aggregates.set id a'
      env := s.env.follow id a'.current } where
  meanings := by
    intro level name _ _
    rw [Env.meaning_follow]
    cases hb : s.env.meaning level name with
    | none => exact .none
    | some b =>
      refine .some ?_
      dsimp only
      by_cases hid : b.aggregate = some id
      · rw [if_pos hid]
        obtain ⟨-, a₀, ha₀, heffect⟩ := hs level name b hb id hid
        cases ha.symm.trans ha₀
        rcases Aggregate.insert_settles he with rfl | ⟨hopen, e', rfl⟩
        · rw [← heffect]
          exact .same
        · have hlt := (List.getElem?_eq_some_iff.1 ha).1
          exact .fixed hid ha hopen (List.getElem?_set_self hlt)
      · rw [if_neg hid]
        exact .same
  aggregates := by
    intro id' a₀ ha₀
    by_cases hid : id = id'
    · subst hid
      cases ha.symm.trans ha₀
      have hlt := (List.getElem?_eq_some_iff.1 ha).1
      exact ⟨a', List.getElem?_set_self hlt, Aggregate.insert_settles he⟩
    · exact ⟨a₀, by rwa [List.getElem?_set_ne hid], .inl rfl⟩
  log := List.prefix_refl _

/-- Every change is a change upward. -/
theorem Change.rises (h : Change policy names d s d' s') (hs : s.Linked)
    (hlength : s.env.length = n + d) : s.Rises n names s' := by
  cases h with
  | log => exact .of_eq (fun _ _ _ => rfl) rfl (List.prefix_append ..)
  | candidates => exact .of_eq (fun _ _ _ => rfl) rfl (List.prefix_refl _)
  | @aggregate _ _ a hmade =>
    refine ⟨fun _ _ _ _ => Binding.Raised.rel_refl .., fun id a ha => ?_, List.prefix_refl _⟩
    exact ⟨a, Aggregate.getElem?_append ha _, .inl rfl⟩
  | enter => exact .of_eq (fun _ _ _ => Env.meaning_enter ..) rfl (List.prefix_refl _)
  | leave =>
    refine .of_eq (fun level name hlevel => Env.meaning_leave ?_) rfl (List.prefix_refl _)
    omega
  | @define _ _ x b hname hb =>
    refine ⟨fun level name hlevel hnot => ?_, fun id a ha => ⟨a, ha, .inl rfl⟩,
      List.prefix_refl _⟩
    have hother : ¬(level = s.env.length - 1 ∧ x = name) := by
      rintro ⟨hlast, rfl⟩
      have hd : d = 0 := by omega
      exact hnot (by omega) (hname hd)
    rw [Env.meaning_define, if_neg hother]
    exact Binding.Raised.rel_refl ..
  | @assign _ _ target b e hb hkind he function pos =>
    refine ⟨fun level name _ _ => ?_, fun id a ha => ⟨a, ha, .inl rfl⟩, List.prefix_append ..⟩
    rw [Env.meaning_rebind]
    split
    · rename_i htarget
      obtain ⟨hfound, rfl⟩ := htarget
      rw [← Env.lookup_of_level? hfound, hb]
      exact .some (.reassigned hkind he (by rw [List.drop_left]; exact List.mem_singleton.2 rfl))
    · exact Binding.Raised.rel_refl ..
  | insert _ ha he => exact rises_insert hs ha he

theorem Run.linked (h : Run policy names d s vs d' s') (hs : s.Linked) :
    s'.Linked ∧ ∀ v ∈ vs, v.state.Linked := by
  obtain ⟨hend, hvisits⟩ := h.invariant (P := fun _ => AnalysisState.Linked)
    (fun hchange => hchange.linked) hs
  exact ⟨hend, fun v hv => (hvisits v hv).choose_spec⟩

/-- An aggregate with a fixed effect stays as it is. -/
theorem Change.fixed (h : Change policy names d s d' s') {id : Nat} {a : Aggregate} {e : Effect}
    (hfixed : a.effect = some e) (ha : s.aggregates[id]? = some a) :
    s'.aggregates[id]? = some a := by
  cases h with
  | aggregate => exact Aggregate.getElem?_append ha _
  | @insert _ _ id' a₀ a' e' ha₀ hinsert =>
    by_cases hid : id' = id
    · subst hid
      cases ha₀.symm.trans ha
      have hlt := (List.getElem?_eq_some_iff.1 ha).1
      rw [List.getElem?_set_self hlt, (Aggregate.insert_settles hinsert).eq_of_fixed hfixed]
    · rwa [List.getElem?_set_ne hid]
  | _ => exact ha

theorem Run.declared (h : Run policy names d s vs d' s') {b : Binding}
    (hb : b.Declared s.aggregates) : b.Declared s'.aggregates := by
  intro id hid
  obtain ⟨hkind, a, ha, heffect⟩ := hb id hid
  obtain ⟨ha', -⟩ := h.invariant (P := fun _ s => s.aggregates[id]? = some a)
    (fun hchange => hchange.fixed heffect) ha
  exact ⟨hkind, a, ha', heffect⟩

/-- Each state that a run comes through rises to all later ones, the names apart that the run may
bind. -/
theorem Run.rises (h : Run policy names d s vs d' s') (hn : ∀ name ∈ names, 0 < n) (hs : s.Linked)
    (hlength : s.env.length = n + d) :
    s'.Linked ∧ s'.env.length = n + d' ∧ (∀ v ∈ vs, n ≤ v.state.env.length) ∧
      List.Pairwise (fun t u => t.Linked ∧ t.Rises n names u)
        (s :: (vs.map Visit.state ++ [s'])) := by
  have hkept : ∀ {d s d' s'}, Change policy names d s d' s' →
      s.Linked ∧ s.env.length = n + d → s'.Linked ∧ s'.env.length = n + d' :=
    fun hchange hstate => ⟨hchange.linked hstate.1, hchange.length hn hstate.2⟩
  obtain ⟨⟨hlinked, hend⟩, hvisits⟩ := h.invariant hkept ⟨hs, hlength⟩
  refine ⟨hlinked, hend, fun v hv => ?_, h.pairwise ?_ ?_ hkept ⟨hs, hlength⟩⟩
  · obtain ⟨d, -, hlength⟩ := hvisits v hv
    omega
  · intro d t ht
    exact ⟨ht.1, .refl t⟩
  · intro d t d₁ t₁ u hchange ht hrest
    exact ⟨ht.1, (hchange.rises ht.1 ht.2).trans hrest.2 ht.1⟩

end Analysis

open Analysis

/-- A body that is analysed where all meanings follow their aggregates leaves the scopes around it
as they are, but for changes upward. Each state on the way rises to all later ones, and spares the
callables and the fixed aggregates that it has. -/
theorem Analysis.bodyEffect_upward {c : Context} (hc : c.Collects) {s : AnalysisState}
    (hs : s.Linked) (body : Block Span) :
    Yields c s (bodyEffect body) fun _ s' => s'.Linked ∧ s'.env.length = s.env.length ∧
      List.Pairwise (fun t u => t.Rises s.env.length [] u ∧ t.Spares s.env.length u)
        (s :: ((body.visits c (setApart.final c s)).map Visit.state ++ [s'])) := by
  refine (bodyEffect_course hc body [] 0 s).mono fun r s' hcourse => ?_
  obtain ⟨hlinked, hlength, -, hrises⟩ := hcourse.run.rises (by simp) hs rfl
  exact ⟨hlinked, hlength, hrises.imp fun h => ⟨h.2, h.2.spares h.1⟩⟩

/-- In `{ f = || { raise E(); }; xs.append(f); }` the assignment is reported, and the insertion
fixes the collection: both names of the scopes outside have changed upward. -/
theorem Analysis.bodyEffect_upward_twice :
    let span : Span := ⟨.start, .start⟩
    let raising : Body Span := .block (.mk span [.raise span (.call span "E" [])])
    let body : Block Span := .mk span [.assign span "f" (.closure span [] none raising),
      .insert span "xs" .append (.name span "f")]
    let c : Context := { policy := .precise, isError := fun type => type = "E" }
    let s : AnalysisState := {
      env := [[("xs", { kind := .collection, aggregate := some 0 })],
        [("E", { kind := .typeName }), ("f", .callable .nothrow)]]
      aggregates := [{ effect := none }] }
    c.Collects ∧ s.Linked ∧
      (Yields c s (bodyEffect body) fun _ s' => s'.Linked ∧ s'.env.length = s.env.length ∧
        List.Pairwise (fun t u => t.Rises s.env.length [] u ∧ t.Spares s.env.length u)
          (s :: ((body.visits c (setApart.final c s)).map Visit.state ++ [s']))) ∧
      ((bodyEffect body).final c s).env.lookup "f" = some (.callable .raisesAny) ∧
      ((bodyEffect body).final c s).aggregates = [{ effect := some .raisesAny }] := by
  intro span raising body c s
  have hc : c.Collects := ⟨rfl, fun _ => rfl⟩
  have hs : s.Linked := by
    intro level name b hb id hid
    have hmem : b ∈ [{ kind := .collection, aggregate := some 0 }, { kind := .typeName },
        Binding.callable .nothrow] := by
      simp only [s, Env.meaning, Table.get?] at hb
      grind
    rcases List.mem_cons.1 hmem with rfl | hmem
    · cases hid
      exact ⟨rfl, _, rfl, rfl⟩
    · simp only [List.mem_cons, List.not_mem_nil, or_false] at hmem
      rcases hmem with rfl | rfl <;> cases hid
  exact ⟨hc, hs, bodyEffect_upward hc hs body, by decide +kernel, by decide +kernel⟩

end RaisingEffects
