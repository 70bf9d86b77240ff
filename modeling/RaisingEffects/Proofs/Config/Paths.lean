import Mathlib.Data.List.Forall2
import Mathlib.Data.List.Infix
import Mathlib.Data.List.Pairwise
import Mathlib.Data.List.Perm.Basic
import RaisingEffects.Proofs.Config.Overrides

/-!
# Overrides write the paths that they name

As long as no mapping stands in several places, an override enters its value at the end of its path
(`Overlay.write_result`). What is then found at a path depends on how the two paths lie
(`Mapping.at?_put`): at the path of the override and beyond there is the value, on the way to it
there is a mapping, and elsewhere nothing has changed. So overrides whose paths are independent can
be applied in any order (`Overlay.applyAll_writes`).
-/

namespace RaisingEffects

/-! ## Values without mappings in several places -/

namespace Value

/-- Induction over values: what a list or a mapping holds is smaller than the whole. -/
theorem induction {motive : Value → Prop}
    (leaf : ∀ v, (∀ items, v ≠ .list items) → (∀ es number, v ≠ .map es number) → motive v)
    (list : ∀ items, (∀ v ∈ items, motive v) → motive (.list items))
    (map : ∀ es number, (∀ e ∈ es, motive e.2) → motive (.map es number)) (v : Value) :
    motive v := by
  cases v with
  | list items => exact list items fun v _ => induction leaf list map v
  | map es number => exact map es number fun e _ => induction leaf list map e.2
  | _ => exact leaf _ nofun nofun
termination_by v
decreasing_by
  · have := List.sizeOf_lt_of_mem ‹v ∈ items›
    grind
  · have := List.sizeOf_lt_of_mem ‹e ∈ es›
    obtain ⟨k, v⟩ := e
    grind

theorem itemNumbers_eq (vs : List Value) : itemNumbers vs = vs.flatMap numbers := by
  induction vs with
  | nil => rfl
  | cons v vs ih => rw [itemNumbers, ih, List.flatMap_cons]

theorem entryNumbers_eq (m : Mapping) : entryNumbers m = m.flatMap (·.2.numbers) := by
  induction m with
  | nil => rfl
  | cons e m ih => rw [entryNumbers, ih, List.flatMap_cons]

theorem renumberItems_eq (f : Nat → Option Nat) (vs : List Value) :
    renumberItems f vs = vs.map (renumber f) := by
  induction vs with
  | nil => rfl
  | cons v vs ih => rw [renumberItems, ih, List.map_cons]

theorem renumberEntries_eq (f : Nat → Option Nat) (m : Mapping) :
    renumberEntries f m = m.map fun e => (e.1, e.2.renumber f) := by
  induction m with
  | nil => rfl
  | cons e m ih => rw [renumberEntries, ih, List.map_cons]

theorem changeItems_eq (n : Nat) (f : Mapping → Mapping) (vs : List Value) :
    changeItems n f vs = vs.map (change n f) := by
  induction vs with
  | nil => rfl
  | cons v vs ih => rw [changeItems, ih, List.map_cons]

theorem changeEntries_eq (n : Nat) (f : Mapping → Mapping) (m : Mapping) :
    changeEntries n f m = m.map fun e => (e.1, e.2.change n f) := by
  induction m with
  | nil => rfl
  | cons e m ih => rw [changeEntries, ih, List.map_cons]

theorem numbers_renumber (f : Nat → Option Nat) (v : Value) :
    (v.renumber f).numbers = v.numbers.filterMap f := by
  induction v using induction with
  | leaf v hlist hmap => rw [renumber, numbers, List.filterMap_nil] <;> assumption
  | list items ih =>
    simp only [renumber, numbers, renumberItems_eq, itemNumbers_eq, List.flatMap_map,
      List.filterMap_flatMap]
    exact List.flatMap_congr ih
  | map es number ih =>
    simp only [renumber, numbers, renumberEntries_eq, entryNumbers_eq, List.flatMap_map,
      List.filterMap_append, List.filterMap_flatMap, List.flatMap_congr ih]
    cases number <;> rfl

theorem renumber_eq_self (f : Nat → Option Nat) {v : Value} (h : v.numbers = []) :
    v.renumber f = v := by
  induction v using induction with
  | leaf v hlist hmap => rw [renumber] <;> assumption
  | list items ih =>
    rw [numbers, itemNumbers_eq, List.flatMap_eq_nil_iff] at h
    rw [renumber, renumberItems_eq, List.map_congr_left fun v hv => ih v hv (h v hv), List.map_id']
  | map es number ih =>
    rw [numbers, entryNumbers_eq, List.append_eq_nil_iff, List.flatMap_eq_nil_iff,
      Option.toList_eq_nil_iff] at h
    rw [renumber, renumberEntries_eq, h.1, Option.bind_none,
      List.map_congr_left fun e he => congrArg (e.1, ·) (ih e he (h.2 e he)), List.map_id']

theorem change_eq_self {n : Nat} (f : Mapping → Mapping) {v : Value} (h : n ∉ v.numbers) :
    v.change n f = v := by
  induction v using induction with
  | leaf v hlist hmap => rw [change] <;> assumption
  | list items ih =>
    simp only [numbers, itemNumbers_eq, List.mem_flatMap, not_exists, not_and] at h
    rw [change, changeItems_eq, List.map_congr_left fun v hv => ih v hv (h v hv), List.map_id']
  | map es number ih =>
    simp only [numbers, entryNumbers_eq, List.mem_append, Option.mem_toList, List.mem_flatMap,
      not_or, not_exists, not_and] at h
    rw [change, if_neg fun heq => h.1 heq, changeEntries_eq,
      List.map_congr_left fun e he => congrArg (e.1, ·) (ih e he (h.2 e he)), List.map_id']

variable {m : Mapping} {name : String} {v : Value} {ns : List Nat}

theorem numbers_subset (h : m.get? name = some v) : v.numbers ⊆ entryNumbers m := by
  induction m with
  | nil => cases h
  | cons entry m ih =>
    rw [Mapping.get?] at h
    split at h
    · cases h
      exact List.subset_append_left ..
    · exact List.subset_append_of_subset_right _ (ih h)

theorem entryNumbers_set (name : String) (v : Value) (m : Mapping) :
    entryNumbers (m.set name v) ⊆ v.numbers ++ entryNumbers m := by
  induction m with
  | nil => exact List.Subset.refl _
  | cons entry m ih =>
    rw [Mapping.set]
    intro n hn
    split at hn
    · simp only [entryNumbers, List.mem_append] at hn ⊢
      exact hn.imp_right .inr
    · simp only [entryNumbers, List.mem_append] at hn ⊢
      rcases hn with hn | hn
      · exact .inr (.inl hn)
      · exact (List.mem_append.1 (ih hn)).imp_right .inr

theorem entryNumbers_nested : entryNumbers (m.nested name) ⊆ entryNumbers m := by
  unfold Mapping.nested
  split
  · rename_i h
    exact fun n hn => numbers_subset h (List.mem_append_right _ hn)
  · exact List.nil_subset _

variable (ns) in
/-- Putting what has no other numbers than `ns` into a nested mapping. -/
theorem entryNumbers_set_nested {m' : Mapping}
    (h : entryNumbers m' ⊆ ns ++ entryNumbers (m.nested name)) :
    entryNumbers (m.set name (.map m')) ⊆ ns ++ entryNumbers m := by
  intro n hn
  rcases List.mem_append.1 (entryNumbers_set _ _ _ hn) with hn | hn
  · exact (List.mem_append.1 (h hn)).elim (List.mem_append_left _)
      fun hn => List.mem_append_right _ (entryNumbers_nested hn)
  · exact List.mem_append_right _ hn

theorem entryNumbers_put (v : Value) (path : List String) (m : Mapping) :
    entryNumbers (m.put v path) ⊆ v.numbers ++ entryNumbers m := by
  fun_induction Mapping.put v path m with
  | case1 => exact List.subset_append_right ..
  | case2 => exact entryNumbers_set ..
  | case3 _ _ _ _ ih => exact entryNumbers_set_nested _ ih

theorem entryNumbers_reach (path : List String) (m : Mapping) :
    entryNumbers (m.reach path) ⊆ entryNumbers m := by
  fun_induction Mapping.reach path m with
  | case1 | case2 => exact List.Subset.refl _
  | case3 _ _ _ _ ih => exact entryNumbers_set_nested [] ih

theorem numbers_change {n : Nat} {f : Mapping → Mapping}
    (hf : ∀ m, entryNumbers (f m) ⊆ ns ++ entryNumbers m) (v : Value) :
    (v.change n f).numbers ⊆ ns ++ v.numbers := by
  induction v using induction with
  | leaf v hlist hmap => rw [change] <;> first | assumption | exact List.subset_append_right ..
  | list items ih =>
    simp only [change, numbers, changeItems_eq, itemNumbers_eq, List.flatMap_map]
    grind
  | map es number ih =>
    have hes := hf es
    simp only [change, numbers, changeEntries_eq, entryNumbers_eq] at hes ⊢
    split <;> grind

theorem not_mem_of_freshIn {n : Nat} (h : n ∈ (v.freshIn m).numbers) : n ∉ entryNumbers m := by
  have hbound (ks : List Nat) (k : Nat) (hk : k ∈ ks) :
      k < ks.foldr (fun k bound => max (k + 1) bound) 0 := by
    induction ks with
    | nil => cases hk
    | cons first ks ih =>
      rw [List.foldr_cons]
      rcases List.mem_cons.1 hk with rfl | hk
      · omega
      · have := ih hk
        omega
  rw [freshIn, numbers_renumber, List.mem_filterMap] at h
  obtain ⟨k, -, hk⟩ := h
  intro hn
  have := hbound _ n hn
  cases hk
  omega

theorem mem_of_sharedOn {path rest : List String} {n : Nat} (h : v.sharedOn path = some (n, rest)) :
    n ∈ v.numbers := by
  induction path generalizing v with
  | nil => cases v <;> cases h
  | cons name path ih =>
    cases v with
    | map es number =>
      rw [sharedOn, Option.orElse_eq_orElse, Option.orElse_eq_or, Option.or_eq_some_iff] at h
      rcases h with h | ⟨-, h⟩
      · obtain ⟨w, hget, hw⟩ := Option.bind_eq_some_iff.1 h
        exact List.mem_append_right _ (numbers_subset hget (ih hw))
      · obtain ⟨k, rfl, heq⟩ := Option.map_eq_some_iff.1 h
        cases heq
        exact List.mem_cons_self ..
    | _ => cases h

theorem numbers_alter {f : List String → Mapping → Mapping}
    (hf : ∀ path m, entryNumbers (f path m) ⊆ ns ++ entryNumbers m) (path : List String)
    (v : Value) : (v.alter f path).numbers ⊆ ns ++ v.numbers := by
  unfold alter
  split
  · exact numbers_change (hf _) v
  · split
    · rename_i es number _
      have := hf path es
      simp only [numbers]
      grind
    · intro k hk
      exact List.mem_append_left _ (by simpa [entryNumbers] using hf path [] hk)

theorem numbers_of_get? (hm : entryNumbers m = []) (h : m.get? name = some v) : v.numbers = [] :=
  List.subset_nil.1 (hm ▸ numbers_subset h)

theorem sharedOn_eq_none (path : List String) (hv : v.numbers = []) : v.sharedOn path = none := by
  induction path generalizing v with
  | nil => cases v <;> rfl
  | cons name path ih =>
    cases v with
    | map es number =>
      obtain ⟨hnumber, hes⟩ := List.append_eq_nil_iff.1 hv
      rw [sharedOn, Option.toList_eq_nil_iff.1 hnumber]
      cases hget : Mapping.get? name es with
      | none => rfl
      | some w => simp [ih (numbers_of_get? hes hget)]
    | _ => rfl

theorem sharedOn_getD (hm : entryNumbers m = []) (path : List String) :
    ((m.get? name).getD .null).sharedOn path = none := by
  cases hget : m.get? name with
  | none => exact sharedOn_eq_none path rfl
  | some v => exact sharedOn_eq_none path (numbers_of_get? hm hget)

theorem alter_nested (hm : entryNumbers m = []) (f : List String → Mapping → Mapping)
    (path : List String) :
    ((m.get? name).getD .null).alter f path = .map (f path (m.nested name)) := by
  unfold alter Mapping.nested
  rw [sharedOn_getD hm]
  cases hget : m.get? name with
  | none => rfl
  | some v =>
    have hv := numbers_of_get? hm hget
    cases v with
    | map es number => rw [Option.toList_eq_nil_iff.1 (List.append_eq_nil_iff.1 hv).1]; rfl
    | _ => rfl

end Value

/-- A way of changing a mapping along a path: what the first name stands for is made a mapping and
changed along the rest of the path. -/
structure Mapping.Descends (f : List String → Mapping → Mapping) : Prop where
  nil : ∀ m, f [] m = m
  single : ∀ name other m, name ≠ other → get? other (f [name] m) = get? other m
  cons : ∀ name next path m,
    f (name :: next :: path) m = m.set name (.map (f (next :: path) (m.nested name)))

theorem Mapping.put_descends (v : Value) : Descends (put v) where
  nil _ := rfl
  single _ _ _ hne := (get?_set ..).trans (if_neg hne)
  cons _ _ _ _ := rfl

theorem Mapping.reach_descends : Descends reach where
  nil _ := rfl
  single _ _ _ _ := rfl
  cons _ _ _ _ := rfl

namespace Overlay

variable {o : Overlay} (ho : Value.entryNumbers o.result = [])

include ho

theorem change_result {f : List String → Mapping → Mapping} (hf : Mapping.Descends f)
    (path : List String) : (o.change f path).result = f path o.result := by
  obtain _ | ⟨name, _ | ⟨next, path⟩⟩ := path
  · exact (hf.nil _).symm
  · rfl
  · simp only [change, Value.alter_nested ho, Value.sharedOn_getD ho, hf.cons]
    split <;> rfl

theorem write_result {v : Value} (hv : v.numbers = []) (path : List String) :
    (o.write path v).result = o.result.put v path := by
  rw [write, Value.freshIn, Value.renumber_eq_self _ hv]
  exact change_result ho (Mapping.put_descends v) path

end Overlay

/-! ## What is found at a path -/

/-- The value at the end of a path inside a value. -/
def Value.at? : List String → Value → Option Value
  | [], v => some v
  | path, .map es _ => Mapping.at? path es
  | _, _ => none

/-- Neither path leads to the other. -/
def Independent (p q : List String) : Prop := ¬ p <+: q ∧ ¬ q <+: p

/-- The entries of a mapping, of which another value has none. -/
def Value.entries : Option Value → Mapping
  | some (.map es _) => es
  | _ => []

namespace Mapping

variable {m : Mapping} {p q : List String}

theorem at?_cons (name : String) (path : List String) (m : Mapping) :
    at? (name :: path) m = (m.get? name).bind (Value.at? path) := by
  cases hget : m.get? name with
  | none => cases path <;> simp [at?, hget]
  | some v => cases path <;> cases v <;> simp [at?, hget, Value.at?]

theorem value_at?_map (path : List String) (es : Mapping) :
    Value.at? path (.map es) = at? path es := by
  cases path <;> rfl

theorem put_cons (v : Value) (name : String) (path : List String) (m : Mapping) :
    put v (name :: path) m =
      m.set name (if path = [] then v else .map (put v path (m.nested name))) := by
  cases path <;> rfl

theorem at?_nested (name : String) (hq : q ≠ []) : at? q (m.nested name) = at? (name :: q) m := by
  obtain ⟨next, q, rfl⟩ := List.exists_cons_of_ne_nil hq
  rw [at?_cons name, nested]
  cases m.get? name with
  | none => rw [at?_cons]; rfl
  | some v => cases v <;> first | rfl | (rw [at?_cons]; rfl)

theorem entries_at?_nested (name : String) :
    Value.entries (at? q (m.nested name)) = Value.entries (at? (name :: q) m) := by
  cases q with
  | nil =>
    rw [at?, nested, at?]
    cases m.get? name with
    | none => rfl
    | some v => cases v <;> rfl
  | cons next q => rw [at?_nested name (by simp)]

/-- **What is found at a path** after a value was entered at another one. -/
theorem at?_put (v : Value) (hp : p ≠ []) (m : Mapping) :
    at? q (put v p m) =
      if p <+: q then v.at? (q.drop p.length)
      else if q <+: p then some (.map (put v (p.drop q.length) (Value.entries (at? q m))))
      else at? q m := by
  induction p generalizing q m with
  | nil => exact absurd rfl hp
  | cons name p ih =>
    cases q with
    | nil => simp [at?, Value.entries]
    | cons other q =>
      rw [at?_cons, put_cons, get?_set]
      by_cases hname : name = other
      · subst hname
        rw [if_pos rfl, Option.bind_some]
        by_cases hnil : p = []
        · simp [hnil]
        · simp only [if_neg hnil, value_at?_map, ih hnil, List.prefix_cons_inj, List.length_cons,
            List.drop_succ_cons, entries_at?_nested]
          split
          · rfl
          · split
            · rfl
            · rename_i hq
              exact at?_nested name fun h => hq (h ▸ List.nil_prefix)
      · simp [hname, Ne.symm hname, List.cons_prefix_cons, at?_cons]

/-- What is found at a path that does not lead to the end of another one, or on from there, when
the mapping is changed along that. -/
theorem Descends.at?_of_independent {f : List String → Mapping → Mapping} (hf : Descends f)
    (h : Independent q p) (m : Mapping) : at? q (f p m) = at? q m := by
  induction p generalizing q m with
  | nil => rw [hf.nil]
  | cons name p ih =>
    cases q with
    | nil => exact absurd List.nil_prefix h.1
    | cons other q =>
      rw [at?_cons, at?_cons]
      by_cases hname : name = other
      · subst hname
        have hq : Independent q p := by simpa [Independent] using h
        cases p with
        | nil => exact absurd List.nil_prefix hq.2
        | cons next p =>
          rw [hf.cons, get?_set, if_pos rfl, Option.bind_some, value_at?_map, ih hq, ← at?_cons]
          exact at?_nested name fun hnil => hq.1 (hnil ▸ List.nil_prefix)
      · cases p with
        | nil => rw [hf.single name other m hname]
        | cons next p => rw [hf.cons, get?_set, if_neg hname]

/-- The entries whose keys are not texts. -/
def unnamed (m : Mapping) : Mapping :=
  m.filter fun e => !e.1 matches .text _

theorem unnamed_set (m : Mapping) (name : String) (v : Value) :
    (m.set name v).unnamed = m.unnamed := by
  induction m with
  | nil => rfl
  | cons entry m ih =>
    obtain ⟨key, old⟩ := entry
    rw [set]
    split
    · rename_i hkey
      rw [Value.isText_iff.1 hkey]
      rfl
    · simp only [unnamed, List.filter_cons] at ih ⊢
      rw [ih]

theorem unnamed_put (v : Value) (p : List String) (m : Mapping) :
    (m.put v p).unnamed = m.unnamed := by
  cases p with
  | nil => rfl
  | cons name p => rw [put_cons, unnamed_set]

end Mapping

/-- A mapping without its entries for names, or any other value. -/
def Value.outline : Value → Value
  | .map es _ => .map (Mapping.unnamed es)
  | v => v

/-! ## Independent paths -/

/-- What an override of the path `e.1` by the value `e.2` makes of what there is in outline at the
path `q`. -/
def outlineAfter (q : List String) (w : Option Value) (e : List String × Value) : Option Value :=
  if e.1 <+: q then (e.2.at? (q.drop e.1.length)).map Value.outline
  else if q <+: e.1 then some (.map (Value.entries w)) else w

theorem outline_put {q : List String} {e : List String × Value} (he : e.1 ≠ []) (m : Mapping) :
    (Mapping.at? q (m.put e.2 e.1)).map Value.outline =
      outlineAfter q ((m.at? q).map Value.outline) e := by
  rw [Mapping.at?_put _ he, outlineAfter]
  split
  · rfl
  · split
    · rw [Option.map_some, Value.outline, Mapping.unnamed_put]
      cases m.at? q with
      | none => rfl
      | some v => cases v <;> rfl
    · rfl

theorem outlineAfter_comm {q : List String} {e e' : List String × Value} (h : Independent e.1 e'.1)
    (w : Option Value) :
    outlineAfter q (outlineAfter q w e) e' = outlineAfter q (outlineAfter q w e') e := by
  unfold outlineAfter
  by_cases he : e.1 <+: q
  · have hbelow : ¬ e'.1 <+: q := fun h' => (List.prefix_or_prefix_of_prefix he h').elim h.1 h.2
    have habove : ¬ q <+: e'.1 := fun h' => h.1 (he.trans h')
    simp [he, hbelow, habove]
  · by_cases he' : e'.1 <+: q
    · have habove : ¬ q <+: e.1 := fun h' => h.2 (he'.trans h')
      simp [he, he', habove]
    · by_cases hq : q <+: e.1 <;> by_cases hq' : q <+: e'.1 <;>
        simp [he, he', hq, hq', Value.entries]

/-! ## Runs -/

/-- The text is an override of the path `e.1` by the value `e.2`. -/
def Override.Gives (read : Value.Reader) (text : String)
    (e : List String × Value) : Prop :=
  ∃ raw, parse text = .ok ⟨e.1, raw⟩ ∧ read raw = .ok e.2

theorem Override.Gives.ne_nil {read : Value.Reader} {text : String}
    {e : List String × Value} (h : Gives read text e) : e.1 ≠ [] := by
  obtain ⟨raw, h, -⟩ := h
  unfold parse at h
  dsimp only at h
  split at h
  · cases h
  · split at h
    · cases h
    · rename_i hpath
      obtain ⟨heq, -⟩ := Override.mk.inj (Except.ok.inj h)
      exact heq ▸ hpath

/-- The mapping with values entered one after the other. -/
def Mapping.putAll (m : Mapping) (entries : List (List String × Value)) : Mapping :=
  entries.foldl (fun m e => m.put e.2 e.1) m

section Runs

variable {read : Value.Reader} {texts texts' : List String}
  {entries entries' : List (List String × Value)} {d : Mapping}

theorem Overlay.applyAll_eq {o : Overlay} (ho : Value.entryNumbers o.result = [])
    (hentries : ∀ e ∈ entries, e.2.numbers = [])
    (h : List.Forall₂ (Override.Gives read) texts entries) :
    ∃ o', o.applyAll read texts = (o', none) ∧ o'.result = o.result.putAll entries := by
  induction h generalizing o with
  | nil => exact ⟨o, rfl, rfl⟩
  | @cons text e texts entries hgives _ ih =>
    obtain ⟨raw, hparse, hread⟩ := hgives
    obtain ⟨he, hentries⟩ := List.forall_mem_cons.1 hentries
    have hwrite := Overlay.write_result ho he e.1
    obtain ⟨o', hrun, hresult⟩ := ih (o := o.write e.1 e.2)
      (hwrite ▸ List.subset_nil.1 (by simpa [ho, he] using Value.entryNumbers_put e.2 e.1 o.result))
      hentries
    refine ⟨o', ?_, by rw [hresult, hwrite]; rfl⟩
    rw [Overlay.applyAll, hparse]
    simp only [hread, hrun]

theorem Mapping.at?_putAll_of_independent {q : List String} (hne : ∀ e ∈ entries, e.1 ≠ [])
    (hq : ∀ e ∈ entries, Independent q e.1) (m : Mapping) :
    (m.putAll entries).at? q = m.at? q := by
  induction entries generalizing m with
  | nil => rfl
  | cons e entries ih =>
    obtain ⟨he, hne⟩ := List.forall_mem_cons.1 hne
    obtain ⟨hqe, hq⟩ := List.forall_mem_cons.1 hq
    exact (ih hne hq _).trans ((put_descends e.2).at?_of_independent hqe m)

theorem Mapping.outline_putAll {q : List String} (hne : ∀ e ∈ entries, e.1 ≠ []) (m : Mapping) :
    ((m.putAll entries).at? q).map Value.outline =
      entries.foldl (outlineAfter q) ((m.at? q).map Value.outline) := by
  induction entries generalizing m with
  | nil => rfl
  | cons e entries ih =>
    obtain ⟨he, hne⟩ := List.forall_mem_cons.1 hne
    rw [List.foldl_cons, ← outline_put he]
    exact ih hne _

/-- **Overrides write the paths that they name,** as long as no mapping stands in several places.
All of them are applied. Each value is found at its path, unless a later path leads there or goes on
from there. What is independent of all paths is as it was. Overrides of independent paths have the
same result in any order, apart from the order of the entries for names. -/
theorem Overlay.applyAll_writes (hd : Value.entryNumbers d = [])
    (hentries : ∀ e ∈ entries, e.2.numbers = [])
    (h : List.Forall₂ (Override.Gives read) texts entries) :
    ∃ o, (ofMapping d).applyAll read texts = (o, none) ∧
      (∀ before e after, entries = before ++ e :: after → (∀ e' ∈ after, Independent e.1 e'.1) →
        o.result.at? e.1 = some e.2) ∧
      (∀ q, (∀ e ∈ entries, Independent q e.1) → o.result.at? q = d.at? q) ∧
      ∀ texts' entries', List.Forall₂ (Override.Gives read) texts' entries' →
        entries.Perm entries' → entries.Pairwise (fun e e' => Independent e.1 e'.1) →
        ∃ o', (ofMapping d).applyAll read texts' = (o', none) ∧
          ∀ q, (o.result.at? q).map Value.outline = (o'.result.at? q).map Value.outline := by
  have hne {texts entries} (h : List.Forall₂ (Override.Gives read) texts entries) :
      ∀ e ∈ entries, e.1 ≠ [] := by
    induction h with
    | nil => simp
    | cons hgives _ ih => exact List.forall_mem_cons.2 ⟨hgives.ne_nil, ih⟩
  obtain ⟨o, hrun, hresult⟩ := applyAll_eq (o := ofMapping d) hd hentries h
  refine ⟨o, hrun, ?_, fun q hq => ?_, fun texts' entries' h' hperm hapart => ?_⟩
  · rintro before e after rfl hafter
    have hafter' : ∀ e' ∈ after, e'.1 ≠ [] := fun e' he' => hne h e' (by simp [he'])
    rw [hresult, Mapping.putAll, List.foldl_append, List.foldl_cons]
    refine (Mapping.at?_putAll_of_independent hafter' hafter _).trans ?_
    rw [Mapping.at?_put _ (hne h e (by simp)), if_pos (List.prefix_refl _), List.drop_length]
    rfl
  · rw [hresult]
    exact Mapping.at?_putAll_of_independent (hne h) hq d
  · obtain ⟨o', hrun', hresult'⟩ := applyAll_eq (o := ofMapping d) hd
      (fun e he => hentries e (hperm.mem_iff.2 he)) h'
    refine ⟨o', hrun', fun q => ?_⟩
    rw [hresult, hresult', Mapping.outline_putAll (hne h), Mapping.outline_putAll (hne h')]
    have : Std.Symm fun e e' : List String × Value => Independent e.1 e'.1 := ⟨fun _ _ h => h.symm⟩
    refine hperm.foldl_eq' (fun e he e' he' w => ?_) _
    by_cases heq : e = e'
    · rw [heq]
    · exact outlineAfter_comm (hapart.forall he he' heq) w

/-- A scalar on the way becomes a mapping, and a later override goes into an earlier value. -/
theorem Overlay.applyAll_writes_nested :
    ∃ o, (ofMapping [(.text "a", .int 1), (.text "b", .null)]).applyAll (.ok <| .text ·)
        ["a.x=p", "c=q", "a.y=r"] = (o, none) ∧
      o.result.at? ["a", "x"] = some (.text "p") ∧ o.result.at? ["b"] = some .null := by
  have hgives : List.Forall₂ (Override.Gives (.ok <| .text ·)) ["a.x=p", "c=q", "a.y=r"]
      [(["a", "x"], .text "p"), (["c"], .text "q"), (["a", "y"], .text "r")] :=
    .cons ⟨"p", rfl, rfl⟩ (.cons ⟨"q", rfl, rfl⟩ (.cons ⟨"r", rfl, rfl⟩ .nil))
  obtain ⟨o, hrun, hentry, hother, -⟩ :=
    applyAll_writes (d := [(.text "a", .int 1), (.text "b", .null)]) rfl
      (by simp [Value.numbers]) hgives
  refine ⟨o, hrun, hentry [] _ _ rfl ?_, (hother ["b"] ?_).trans rfl⟩ <;> simp [Independent]

/-- A mapping that stands in two places is changed in both by an override of one of them. -/
theorem Overlay.applyAll_shared :
    Value.shown (.map ((ofMapping []).applyAll Value.ofYaml
      ["r=\x7bx: &a \x7bk: 1\x7d, y: *a\x7d", "r.x.k=2", "r.y.k=3"]).1.result) =
      "\x7b'r': \x7b'x': \x7b'k': 3\x7d, 'y': \x7b'k': 3\x7d\x7d\x7d" := by
  decide +kernel

end Runs

end RaisingEffects
