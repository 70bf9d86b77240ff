import RaisingEffects.Effect.Aggregate
import RaisingEffects.Proofs.Effect.Order

/-!
# The types that effects name

`Effect.Names T e` says that `e` names a type only if the type has the property `T`. Nothing that
the analysis does with effects makes up a type: joins, collapsed effects and the effects of
collections name what they were made from, and clauses name what the reader of them accepts.
-/

namespace RaisingEffects

variable {T : String → Prop}

/-- The type that the effect names, if it names one, has the property. -/
def Effect.Names (T : String → Prop) (e : Effect) : Prop := ∀ type, e = .raises type → T type

namespace Effect.Names

variable {d e : Effect} {es : List Effect}

theorem nothrow : Names T .nothrow := by
  intro type h
  cases h

theorem raisesAny : Names T .raisesAny := by
  intro type h
  cases h

theorem raises {type : String} (h : T type) : Names T (.raises type) := by
  intro type' heq
  cases heq
  exact h

theorem mono {U : String → Prop} (h : Names T e) (hTU : ∀ type, T type → U type) : Names U e :=
  fun type he => hTU type (h type he)

theorem join (hd : Names T d) (he : Names T e) : Names T (d.join e) := by
  cases d with
  | nothrow => rwa [nothrow_join]
  | raisesAny => cases e <;> exact raisesAny
  | raises s =>
    cases e with
    | nothrow => exact hd
    | raisesAny => exact raisesAny
    | raises t =>
      rw [Effect.join]
      split
      · exact hd
      · exact raisesAny

theorem joinAll (h : ∀ e ∈ es, Names T e) : Names T (.joinAll es) := by
  induction es with
  | nil => exact nothrow
  | cons e es ih =>
    rw [joinAll_cons]
    exact (h e (List.mem_cons_self ..)).join (ih fun e' he' => h e' (List.mem_cons_of_mem _ he'))

theorem collapse (policy : Policy) (h : ∀ e ∈ es, Names T e) : Names T (.collapse policy es) := by
  have hjoin := joinAll h
  unfold Effect.collapse
  split
  · exact hjoin
  · exact nothrow
  · exact raisesAny

theorem getD {o : Option Effect} (h : ∀ e ∈ o, Names T e) : Names T (o.getD .nothrow) := by
  cases o with
  | none => exact nothrow
  | some e => exact h e rfl

end Effect.Names

/-- A clause that is accepted names errors, those that are written in it. -/
theorem Effect.ofClause_names {isError : String → Bool} {types : Option (List String)} {e : Effect}
    (h : ofClause isError types = .ok e) :
    e.Names fun type => isError type = true ∧ ∃ ts ∈ types, type ∈ ts := by
  unfold ofClause at h
  split at h
  · cases h
    exact .nothrow
  · cases h
    exact .raisesAny
  · split at h
    · cases h
    · rename_i hfind
      cases h
      refine .joinAll fun e he => ?_
      obtain ⟨type, htype, rfl⟩ := List.mem_map.1 he
      obtain ⟨hmem, hnever⟩ := List.mem_filter.1 htype
      have haccepted := List.find?_eq_none.1 hfind type hmem
      exact .raises ⟨by simpa [hnever] using haccepted, _, rfl, hmem⟩

/-! ## Collections -/

section Collections

variable {W : String → Prop} {a : Aggregate} {e : Effect} {es : List Effect}

/-- The effect of the collection names types with the property `T`, and its noun has the property
`W`. -/
structure Aggregate.Names (W T : String → Prop) (a : Aggregate) : Prop where
  effect : ∀ d ∈ a.effect, d.Names T
  noun : W a.kind

structure Misfit.Names (W T : String → Prop) (m : Misfit) : Prop where
  element : m.element.Names T
  bound : m.bound.Names T
  noun : W m.kind

/-- What comes of putting values into a collection names such types. -/
def Aggregate.OutcomeNames (W T : String → Prop) : Except Misfit Aggregate → Prop
  | .ok a => a.Names W T
  | .error m => m.Names W T

namespace Aggregate

theorem Names.of_effect {kind : String} {declared erase : Bool} (he : e.Names T) (hkind : W kind) :
    Aggregate.Names W T { effect := some e, kind, declared, erase } :=
  ⟨by simpa using he, hkind⟩

theorem insert_names (ha : a.Names W T) (he : e.Names T) (index : Option Nat) :
    OutcomeNames W T (a.insert e index) := by
  unfold insert
  split
  · refine .of_effect ?_ ha.noun
    split
    · exact .raisesAny
    · exact he
  · rename_i bound hbound
    split
    · exact ha
    · exact ⟨he, ha.effect bound hbound, ha.noun⟩

theorem insertFrom_names (ha : a.Names W T) (hes : ∀ e ∈ es, e.Names T) (index : Nat) :
    OutcomeNames W T (a.insertFrom index es) := by
  induction es generalizing a index with
  | nil => exact ha
  | cons e es ih =>
    obtain ⟨he, hes⟩ := List.forall_mem_cons.1 hes
    have hinsert := insert_names ha he (some index)
    unfold insertFrom
    revert hinsert
    cases a.insert e (some index) with
    | error m => exact id
    | ok a' => exact fun ha' => ih ha' hes (index + 1)

/-- The aggregate of a collection names what its elements and its declaration name, and so does
what is said about an element that does not fit. -/
theorem ofElements_names {declared : Option Effect} {kind : String}
    (hdeclared : ∀ d ∈ declared, d.Names T) (hes : ∀ e ∈ es, e.Names T) (hkind : W kind)
    (policy : Policy) : OutcomeNames W T (ofElements policy declared kind es) := by
  unfold ofElements
  split
  · exact insertFrom_names ⟨hdeclared, hkind⟩ hes 0
  · exact ⟨by simp, hkind⟩
  · exact .of_effect (.collapse _ hes) hkind
  · obtain ⟨he, hes⟩ := List.forall_mem_cons.1 hes
    exact insertFrom_names (.of_effect he hkind) hes 1

end Aggregate

end Collections

end RaisingEffects
