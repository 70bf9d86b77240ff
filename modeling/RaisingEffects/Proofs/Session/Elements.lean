import Mathlib.Tactic.Choose
import RaisingEffects.Proofs.Analysis.FailFast
import RaisingEffects.Proofs.Effect.Lattice
import RaisingEffects.Proofs.Verdict.BodyChecks
import RaisingEffects.Session

/-!
# The elements of a collection

The effect of an aggregate is fixed once. Values are offered to it one after the other
(`Aggregate.offered`), and those that do not fit are refused; from the moment that the effect is
fixed nothing changes any more (`Aggregate.offered_of_some`). The aggregate of a collection that is
written out accepts each of its elements again (`Aggregate.insert_of_ofElements`), and under the
compatibility policy it does not depend on their order (`Aggregate.ofElements_perm`).

The elements are analysed in the order in which they are written, though, and a closure among them
may change what a later one refers to. Elements that change nothing have the same effects in every
order (`Analysis.plainValueEffects_returns`): what was analysed before them has only made aggregates
of its own and logged (`AnalysisState.Includes`).
-/

namespace RaisingEffects

/-! ## Values offered one after the other -/

namespace Aggregate

variable {a b : Aggregate} {e bound : Effect} {index : Option Nat} {m : Misfit}
  {es fs : List Effect} {declared : Option Effect} {kind : String} {policy : Policy}

/-- Offers a value with the given effect and index. If it is refused the aggregate stays. -/
def offer (a : Aggregate) (value : Effect × Option Nat) : Aggregate :=
  match a.insert value.1 value.2 with
  | .ok b => b
  | .error _ => a

def offered (a : Aggregate) (values : List (Effect × Option Nat)) : Aggregate :=
  values.foldl offer a

theorem offer_of_ok (h : a.insert e index = .ok b) : a.offer (e, index) = b := by
  simp only [offer, h]

theorem offer_of_error (h : a.insert e index = .error m) : a.offer (e, index) = a := by
  simp only [offer, h]

theorem insert_of_some (ha : a.effect = some bound) :
    a.insert e index =
      if e.fits bound then .ok a else .error ⟨index, e, a.kind, bound⟩ := by
  rw [insert, ha]

/-- A fixed aggregate stays as it is when a value is accepted. -/
theorem insert_eq_ok_iff (ha : a.effect = some bound) :
    a.insert e index = .ok b ↔ b = a ∧ e.fits bound = true := by
  rw [insert_of_some ha]
  by_cases hfits : e.fits bound = true
  · rw [if_pos hfits]
    exact ⟨fun h => ⟨(Except.ok.inj h).symm, hfits⟩, fun h => by rw [h.1]⟩
  · rw [if_neg hfits]
    exact ⟨fun h => (by cases h), fun h => absurd h.2 hfits⟩

/-- A value is refused if the effect is fixed and the value does not fit. -/
theorem insert_eq_error_iff :
    a.insert e index = .error m ↔
      ∃ bound, a.effect = some bound ∧ e.fits bound = false ∧ m = ⟨index, e, a.kind, bound⟩ := by
  constructor
  · intro h
    cases ha : a.effect with
    | none =>
      rw [insert, ha] at h
      cases h
    | some bound =>
      rw [insert_of_some ha] at h
      cases hfits : e.fits bound with
      | true =>
        rw [hfits, if_pos rfl] at h
        cases h
      | false =>
        rw [hfits, if_neg Bool.false_ne_true] at h
        exact ⟨bound, rfl, hfits, (Except.error.inj h).symm⟩
  · rintro ⟨bound, ha, hfits, rfl⟩
    rw [insert_of_some ha, hfits, if_neg Bool.false_ne_true]

theorem offer_of_some (ha : a.effect = some bound) (value : Effect × Option Nat) :
    a.offer value = a := by
  cases h : a.insert value.1 value.2 with
  | ok b => exact (offer_of_ok h).trans ((insert_eq_ok_iff ha).1 h).1
  | error m => exact offer_of_error h

theorem offered_of_some (ha : a.effect = some bound) (values : List (Effect × Option Nat)) :
    a.offered values = a := by
  induction values with
  | nil => rfl
  | cons value values ih => rwa [offered, List.foldl_cons, offer_of_some ha]

theorem offered_append (a : Aggregate) (values more : List (Effect × Option Nat)) :
    a.offered (values ++ more) = (a.offered values).offered more :=
  List.foldl_append

/-- An accepted value fixes the effect, or it was fixed before, and the value fits. -/
theorem exists_effect_of_insert (h : a.insert e index = .ok b) :
    ∃ bound, b.effect = some bound ∧ e.fits bound = true := by
  cases ha : a.effect with
  | none =>
    rw [insert, ha] at h
    cases h
    refine ⟨_, rfl, ?_⟩
    split
    · exact Effect.fits_raisesAny e
    · exact Effect.fits_refl e
  | some bound =>
    obtain ⟨rfl, hfits⟩ := (insert_eq_ok_iff ha).1 h
    exact ⟨bound, ha, hfits⟩

/-! ## Collections that are written out -/

/-- The effect of a collection with elements is fixed, and all its elements fit. -/
theorem fits_of_ofElements (h : ofElements policy declared kind es = .ok b) (he : e ∈ es) :
    ∃ bound, b.effect = some bound ∧ e.fits bound = true := by
  cases declared with
  | some d =>
    obtain ⟨rfl, hfits⟩ := (insertFrom_eq_ok_iff rfl 0).1 h
    exact ⟨d, rfl, hfits e he⟩
  | none =>
    cases es with
    | nil => cases he
    | cons first es =>
      cases policy with
      | compatibility =>
        cases h
        refine ⟨_, rfl, ?_⟩
        rw [Effect.collapse_compatibility]
        split
        · exact Effect.fits_raisesAny e
        · rename_i hquiet
          rw [Bool.not_eq_true, List.any_eq_false] at hquiet
          rw [Effect.isRaising_eq_false.1 (Bool.eq_false_iff.2 (hquiet e he))]
          exact Effect.nothrow_fits _
      | precise =>
        obtain ⟨rfl, hfits⟩ := (insertFrom_eq_ok_iff rfl 1).1 h
        refine ⟨first, rfl, ?_⟩
        rcases List.mem_cons.1 he with rfl | he
        · exact Effect.fits_refl e
        · exact hfits e he

/-- The aggregate of a collection accepts each of its elements again. -/
theorem insert_of_ofElements (h : ofElements policy declared kind es = .ok b) (he : e ∈ es)
    (index : Option Nat) : b.insert e index = .ok b := by
  obtain ⟨bound, hbound, hfits⟩ := fits_of_ofElements h he
  exact (insert_eq_ok_iff hbound).2 ⟨rfl, hfits⟩

/-- Under the compatibility policy the order of the elements does not matter. -/
theorem ofElements_perm (hperm : es.Perm fs)
    (h : ofElements .compatibility declared kind es = .ok b) :
    ofElements .compatibility declared kind fs = .ok b := by
  cases declared with
  | some d =>
    obtain ⟨hb, hfits⟩ := (insertFrom_eq_ok_iff rfl 0).1 h
    exact (insertFrom_eq_ok_iff rfl 0).2 ⟨hb, fun e he => hfits e (hperm.mem_iff.2 he)⟩
  | none =>
    cases fs with
    | nil =>
      rw [hperm.eq_nil] at h
      exact h
    | cons f fs =>
      cases es with
      | nil => cases hperm.nil_eq
      | cons e es =>
        have hcollapse : Effect.collapse .compatibility (f :: fs) =
            Effect.collapse .compatibility (e :: es) :=
          Effect.collapse_congr _ fun _ => hperm.mem_iff.symm
        rw [← h]
        show Except.ok _ = Except.ok _
        rw [hcollapse]

end Aggregate

/-! ## States with more aggregates -/

theorem Env.exists_meaning_of_mem {env : Env} {scope : Table Binding} {name : String} {b : Binding}
    (hscope : scope ∈ env) (hb : scope.get? name = some b) :
    ∃ level, env.meaning level name = some b := by
  induction env with
  | nil => cases hscope
  | cons inner outer ih =>
    rcases List.mem_cons.1 hscope with rfl | hscope
    · exact ⟨outer.length, by rw [meaning, if_pos rfl, hb]⟩
    · obtain ⟨level, hlevel⟩ := ih hscope
      refine ⟨level, ?_⟩
      rw [meaning, if_neg (Nat.ne_of_lt (lt_of_meaning hlevel)), hlevel]

/-- Relabellings that agree on the meanings in the scopes. -/
theorem Env.Relabels.congr {ρ ρ' : Relabelling} {env env' : Env} (h : env.Relabels ρ env')
    (hsame : ∀ scope ∈ env, ∀ name b, scope.get? name = some b → b.relabel ρ' = b.relabel ρ) :
    env.Relabels ρ' env' := by
  induction h with
  | nil => exact .nil
  | cons hscope _ ih =>
    obtain ⟨hinner, houter⟩ := List.forall_mem_cons.1 hsame
    refine .cons (fun name => ?_) (ih houter)
    rw [hscope name]
    exact Option.map_congr fun b hb => (hinner name b hb).symm

/-- The numbers that the aggregates of the first state have in the second, where the next ones come
after those that the second has. -/
def Relabelling.renumber (ρ : Relabelling) (s t : AnalysisState)
    (h : ∀ i < s.aggregates.length, ρ.number i < t.aggregates.length) : Relabelling where
  number i :=
    if i < s.aggregates.length then ρ.number i
    else t.aggregates.length + (i - s.aggregates.length)
  injective := by
    intro i j hij
    dsimp only at hij
    split at hij <;> split at hij
    · exact ρ.injective hij
    · have := h i ‹_›
      omega
    · have := h j ‹_›
      omega
    · omega
  place := ρ.place
  log := s.log
  log' := t.log
  before := t.aggregates

namespace AnalysisState

variable {s s' t : AnalysisState}

/-- Since the first state aggregates were made and entries were logged, and nothing else. -/
structure Grows (s t : AnalysisState) : Prop where
  env : t.env = s.env
  candidates : t.candidates = s.candidates
  aggregates : s.aggregates <+: t.aggregates

/-- The first state is the second with more aggregates, under other numbers, and another log. -/
def Includes (t s : AnalysisState) : Prop :=
  ∃ ρ : Relabelling, (ρ.place = fun pos => pos) ∧ s.Relabels ρ t

theorem Linked.aggregate_lt (hs : s.Linked) {scope : Table Binding} {name : String} {b : Binding}
    {id : Nat} (hscope : scope ∈ s.env) (hb : scope.get? name = some b)
    (hid : b.aggregate = some id) : id < s.aggregates.length := by
  obtain ⟨level, hmeaning⟩ := Env.exists_meaning_of_mem hscope hb
  obtain ⟨-, a, ha, -⟩ := hs level name b hmeaning id hid
  exact (List.getElem?_eq_some_iff.1 ha).1

/-- What includes a state that has grown includes the state that it has grown from: the aggregates
that were made since are among the others. -/
theorem Includes.of_grows (hs : s.Linked) (hgrows : s.Grows s') (h : t.Includes s') :
    t.Includes s := by
  obtain ⟨ρ, hplace, hst⟩ := h
  have hlength := hgrows.aggregates.length_le
  have hlt : ∀ i < s.aggregates.length, ρ.number i < t.aggregates.length := fun i hi =>
    hst.number_lt_iff.2 (Nat.lt_of_lt_of_le hi hlength)
  refine ⟨ρ.renumber s t hlt, hplace, ?_, ?_, ?_, fun j _ => rfl, ?_, ?_, [], ?_, ?_⟩
  · rw [← hgrows.env]
    refine hst.env.congr fun scope hscope name b hb => ?_
    rw [hgrows.env] at hscope
    have hnumber : b.aggregate.map (ρ.renumber s t hlt).number = b.aggregate.map ρ.number :=
      Option.map_congr fun id hid => if_pos (hs.aggregate_lt hscope hb hid)
    rw [Binding.relabel, Binding.relabel, hnumber]
    rfl
  · rw [hst.candidates, hgrows.candidates]
  · intro i
    dsimp only [Relabelling.renumber]
    split
    · rename_i hi
      obtain ⟨more, hmore⟩ := hgrows.aggregates
      rw [hst.aggregates i, ← hmore, List.getElem?_append_left hi]
    · rw [List.getElem?_eq_none (by omega), List.getElem?_eq_none (by omega)]
  · dsimp only [Relabelling.renumber]
    rw [if_neg (Nat.lt_irrefl _), Nat.sub_self, Nat.add_zero]
  · intro i hi
    dsimp only [Relabelling.renumber]
    rw [if_neg (by omega), if_neg (by omega)]
    omega
  · exact (List.append_nil _).symm
  · exact (List.append_nil _).symm

theorem Includes.refl (s : AnalysisState) : s.Includes s :=
  ⟨.plain s s, rfl, (Matches.refl s).relabels⟩

/-- Where the places stay as they are, the same is logged in both runs. -/
theorem Relabels.log_append {ρ : Relabelling} {t' : AnalysisState}
    {new : List (Option String × LogEntry)} (hplace : ρ.place = fun pos => pos)
    (h : s.Relabels ρ t) (h' : s'.Relabels ρ t') (hlog : s'.log = s.log ++ new) :
    t'.log = t.log ++ new := by
  have hsame : (fun entry : Option String × LogEntry => (entry.1, entry.2.move ρ.place)) =
      fun entry => entry := by
    rw [hplace]
    exact funext fun entry => congrArg (Prod.mk entry.1) entry.2.move_id
  obtain ⟨old, hs, ht⟩ := h.log
  obtain ⟨all, hs', ht'⟩ := h'.log
  rw [hsame, List.map_id'] at ht ht'
  rw [hs', hs, List.append_assoc] at hlog
  rw [ht', List.append_cancel_left hlog, ht, List.append_assoc]

end AnalysisState

/-! ## Elements that change nothing -/

namespace Analysis

variable {c : Context} {ρ : Relabelling} {s s' t : AnalysisState}
  {elements others : List (Expr Span)}

/-- A run that returns returns the same from a state with other numbers, whether or not the first
violation ends the analysis. -/
theorem returns_of_mirrors {α : Type} {m : Analysis α} {a : α}
    (hplace : ρ.place = fun pos => pos)
    (h : ∀ failFast, Mirrors (c.failing failFast) ρ m m fun a => a) (hst : s.Relabels ρ t)
    (hm : m c s = (.ok a, s')) : ∃ t', m c t = (.ok a, t') ∧ s'.Relabels ρ t' := by
  obtain ⟨b, u, w, hb, hb', huw⟩ := (h false).alike rfl s t hst
  cases hfast : c.failFast with
  | false =>
    have hc : c.failing false = c := by rw [← hfast]; rfl
    rw [hc] at hb hb'
    cases hb.symm.trans hm
    exact ⟨w, hb', huw⟩
  | true =>
    -- The run from `s` reported nothing, so the one from `t` does not either.
    have hc : c = c.failing true := by rw [← hfast]; rfl
    obtain ⟨_, _, new, hrun, hlog, hfirst, hend⟩ := (h true).agrees s
    obtain ⟨_, _, new', hrun', hlog', hfirst', hend'⟩ := (h true).agrees t
    cases hb.symm.trans hrun
    cases hb'.symm.trans hrun'
    obtain rfl : new = new' :=
      List.append_cancel_left ((hst.log_append hplace huw hlog).symm.trans hlog')
    rw [hc] at hm ⊢
    have hok : firstOr b (violationsIn new) = .ok a := hfirst.symm.trans (congrArg Prod.fst hm)
    cases hnew : violationsIn new with
    | cons v vs =>
      rw [hnew] at hok
      cases hok
    | nil =>
      rw [hnew] at hok hfirst'
      cases hok
      obtain rfl : s' = u := (congrArg Prod.snd hm).symm.trans (hend hnew)
      exact ⟨w, Prod.ext hfirst' (hend' hnew), huw⟩

theorem plainValueEffect_mirrors (hplace : ρ.place = fun pos => pos) (e : Expr Span) :
    Mirrors c ρ (plainValueEffect e) (plainValueEffect e) fun f => f := by
  have hmove : e.map (Span.move ρ.place) = e := by
    rw [hplace]
    exact e.map_id
  cases e with
  | closure span params clause body =>
    have hanalyse := (Part.expr (.closure span params clause body)).mirrored (c := c) (ρ := ρ)
      fun span => by rw [hplace]; rfl
    rw [Part.Mirrored, hmove] at hanalyse
    exact hanalyse.1.bind fun e => valueEffect_mirrors e
  | name span id => exact (Mirrors.lookup id).bind fun b => by cases b <;> exact .pure rfl
  | _ => exact .pure rfl

/-- The analysis returns, and only makes aggregates and logs. -/
def OnlyGrows {α : Type} (c : Context) (s : AnalysisState) (m : Analysis α) : Prop :=
  ∃ a s', m c s = (.ok a, s') ∧ s.Grows s'

/-- Elements that change nothing have the effects that they have from `s`, whatever was analysed
before. -/
theorem plainValueEffects_returns (hs : s.Linked) {effect : Expr Span → Effect}
    (h : ∀ e ∈ elements, ∃ s', plainValueEffect e c s = (.ok (effect e), s') ∧ s.Grows s')
    (ht : t.Includes s) :
    ∃ t', plainValueEffects elements c t = (.ok (elements.map effect), t') ∧ t'.Includes s := by
  induction elements generalizing t with
  | nil => exact ⟨t, rfl, ht⟩
  | cons e elements ih =>
    obtain ⟨⟨s', he, hgrows⟩, hrest⟩ := List.forall_mem_cons.1 h
    obtain ⟨ρ, hplace, hst⟩ := ht
    obtain ⟨t₁, he', h₁⟩ :=
      returns_of_mirrors hplace (fun _ => plainValueEffect_mirrors hplace e) hst he
    obtain ⟨t₂, hes, h₂⟩ := ih hrest (.of_grows hs hgrows ⟨ρ, hplace, h₁⟩)
    refine ⟨t₂, ?_, h₂⟩
    rw [plainValueEffects, bind_eq_of_ok he', bind_eq_of_ok hes]
    rfl

theorem collectionAggregate_eq_ok_iff {declared : Option Effect} {kind : String} {b : Aggregate} :
    collectionAggregate elements declared kind c s = (.ok b, s') ↔
      ∃ es, plainValueEffects elements c s = (.ok es, s') ∧
        Aggregate.ofElements c.policy declared kind es = .ok b := by
  constructor
  · intro h
    obtain ⟨es, s₁, hes, h⟩ := exists_of_bind_eq_ok h
    rw [Analysis.context_bind] at h
    cases hof : Aggregate.ofElements c.policy declared kind es with
    | ok a =>
      rw [hof] at h
      cases h
      exact ⟨es, hes, hof⟩
    | error m =>
      rw [hof] at h
      cases h
  · rintro ⟨es, hes, hof⟩
    rw [collectionAggregate, bind_eq_of_ok hes]
    simp only [Analysis.context_bind, hof]
    rfl

theorem exists_of_returns {α : Type} {m : Analysis α} {a : α} (h : (m c s).1 = .ok a) :
    ∃ s', m c s = (.ok a, s') :=
  ⟨_, Prod.ext h rfl⟩

end Analysis

open Analysis

/-- **The effect of a collection is fixed once.** Whatever values are offered to an aggregate one
after the other: an effect that is fixed stays; a value is refused exactly if the effect is fixed
and the value does not fit, and then the aggregate stays as it is; what is accepted fits in the end.
The aggregate of a collection that is written out accepts each of its elements again. Under the
compatibility policy it is the same for every order of the elements, if none of them changes what
there was before. -/
theorem collection_fixed_once (a : Aggregate) (before after : List (Effect × Option Nat))
    (e : Effect) (index : Option Nat) :
    ((∀ bound, (a.offered before).effect = some bound →
        (a.offered (before ++ (e, index) :: after)).effect = some bound) ∧
      (∀ m, (a.offered before).insert e index = .error m ↔
        ∃ bound, (a.offered before).effect = some bound ∧ e.fits bound = false ∧
          m = ⟨index, e, (a.offered before).kind, bound⟩) ∧
      (∀ m, (a.offered before).insert e index = .error m →
        a.offered (before ++ [(e, index)]) = a.offered before) ∧
      (∀ b, (a.offered before).insert e index = .ok b →
        ∃ bound, (a.offered (before ++ (e, index) :: after)).effect = some bound ∧
          e.fits bound = true)) ∧
    ∀ (c : Context) (s s' : AnalysisState) (elements : List (Expr Span))
        (declared : Option Effect) (kind : String) (b : Aggregate),
      collectionAggregate elements declared kind c s = (.ok b, s') →
      (∃ es, plainValueEffects elements c s = (.ok es, s') ∧
        ∀ e ∈ es, ∀ index, b.insert e index = .ok b) ∧
      ∀ others, c.policy = .compatibility → s.Linked → others.Perm elements →
        (∀ e ∈ elements, (plainValueEffect e).OnlyGrows c s) →
        ∃ s'', collectionAggregate others declared kind c s = (.ok b, s'') := by
  refine ⟨⟨?_, fun m => Aggregate.insert_eq_error_iff, ?_, ?_⟩,
    fun c s s' elements declared kind b h => ?_⟩
  · intro bound hbound
    rw [Aggregate.offered_append, Aggregate.offered_of_some hbound, hbound]
  · intro m hm
    rw [Aggregate.offered_append]
    exact Aggregate.offer_of_error hm
  · intro b hb
    obtain ⟨bound, hbound, hfits⟩ := Aggregate.exists_effect_of_insert hb
    refine ⟨bound, ?_, hfits⟩
    have hoffer : (a.offered before).offered ((e, index) :: after) = b.offered after :=
      congrArg (Aggregate.offered · after) (Aggregate.offer_of_ok hb)
    rw [Aggregate.offered_append, hoffer, Aggregate.offered_of_some hbound, hbound]
  · obtain ⟨es, hes, hof⟩ := collectionAggregate_eq_ok_iff.1 h
    refine ⟨⟨es, hes, fun e he => Aggregate.insert_of_ofElements hof he⟩, ?_⟩
    intro others hpolicy hs hperm hquiet
    choose! effect hquiet using hquiet
    have hall : ∀ e ∈ others, ∃ s', plainValueEffect e c s = (.ok (effect e), s') ∧ s.Grows s' :=
      fun e he => hquiet e (hperm.mem_iff.1 he)
    obtain ⟨u, hu, -⟩ := plainValueEffects_returns hs hquiet (.refl s)
    obtain ⟨w, hw, -⟩ := plainValueEffects_returns hs hall (.refl s)
    cases hes.symm.trans hu
    rw [hpolicy] at hof
    refine ⟨w, collectionAggregate_eq_ok_iff.2 ⟨_, hw, ?_⟩⟩
    rw [hpolicy]
    exact Aggregate.ofElements_perm (hperm.map effect).symm hof

/-! ## Elements that share a collection -/

def sharingPlace : Span := ⟨⟨1, 1⟩, ⟨1, 1⟩⟩

/-- The closure `|| { raise E(); }`. -/
def raisingElement : Expr Span :=
  .closure sharingPlace [] none
    (.block (.mk sharingPlace [.raise sharingPlace (.call sharingPlace "E" [])]))

/-- The closure `|| { xs.append(|| { raise E(); }); }`. -/
def appendingElement : Expr Span :=
  .closure sharingPlace [] none
    (.block (.mk sharingPlace [.insert sharingPlace "xs" .append raisingElement]))

/-- The closure `|| { for h in xs { h(); } }`. -/
def callingElement : Expr Span :=
  .closure sharingPlace [] none (.block (.mk sharingPlace
    [.for_ "h" (.name sharingPlace "xs") (.mk sharingPlace [.expr (.call sharingPlace "h" [])])]))

def sharingContext : Context := { policy := .compatibility, isError := (· = "E") }

/-- Where `xs` is a collection that has no elements yet. -/
def sharingState : AnalysisState where
  env := [[("xs", { kind := .collection, effect := .nothrow, aggregate := some 0 })]]
  aggregates := [{ effect := none, erase := true }]

theorem sharingState_linked : sharingState.Linked := by
  intro level name b hb
  obtain ⟨scope, hscope, hb⟩ : ∃ scope ∈ sharingState.env, scope.get? name = some b := by
    rw [sharingState, Env.meaning] at hb
    split at hb
    · exact ⟨_, List.mem_singleton_self _, hb⟩
    · cases hb
  rw [List.mem_singleton.1 hscope] at hb
  cases List.mem_singleton.1 (Table.mem_of_get? hb)
  rintro _ ⟨⟩
  exact ⟨rfl, _, rfl, rfl⟩

theorem collection_fixed_once_reversed :
    ∃ s' s'', collectionAggregate [callingElement, raisingElement] none "list" sharingContext
        sharingState = (.ok { effect := some .raisesAny, erase := true }, s') ∧
      collectionAggregate [raisingElement, callingElement] none "list" sharingContext
        sharingState = (.ok { effect := some .raisesAny, erase := true }, s'') := by
  have hquiet : ∀ e ∈ [callingElement, raisingElement],
      (plainValueEffect e).OnlyGrows sharingContext sharingState :=
    List.forall_mem_cons.2 ⟨⟨_, _, rfl, rfl, rfl, List.prefix_rfl⟩,
      List.forall_mem_singleton.2 ⟨_, _, rfl, rfl, rfl, List.prefix_rfl⟩⟩
  obtain ⟨s', hrun⟩ : ∃ s', collectionAggregate [callingElement, raisingElement] none "list"
      sharingContext sharingState = (.ok { effect := some .raisesAny, erase := true }, s') :=
    exists_of_returns (by decide +kernel)
  obtain ⟨-, hliteral⟩ := collection_fixed_once { effect := none } [] [] .nothrow none
  obtain ⟨s'', hrun'⟩ := (hliteral _ _ _ _ _ _ _ hrun).2 _ rfl sharingState_linked
    (List.Perm.swap ..) hquiet
  exact ⟨s', s'', hrun, hrun'⟩

/-- The order of the elements matters if one of them changes what another refers to: the effect of
the closure that calls what is in `xs` depends on whether something was put there before. -/
theorem collectionAggregate_order :
    (collectionAggregate [appendingElement, callingElement] none "list" sharingContext
        sharingState).1.toOption = some { effect := some .raisesAny, erase := true } ∧
      (collectionAggregate [callingElement, appendingElement] none "list" sharingContext
        sharingState).1.toOption = some { effect := some .nothrow, erase := true } := by
  decide +kernel

end RaisingEffects
