import Mathlib.Data.List.Forall2
import Mathlib.Data.Option.Basic
import RaisingEffects.Table

/-!
# Looking up entries of tables

Entering a value changes the look-up of its own name only (`get?_set`), so a table made from a list
of entries gives each name the value it was last entered with (`get?_ofEntries`), and has nothing
but what was entered (`mem_ofEntries`), under each name once (`nodup_ofEntries`). Entries with
different names may be entered in any order (`get?_ofEntries_perm`).

`Table.Rel` relates tables with the same names, and is kept by all of this. Lists related place by
place agree on which places they have, and stay related when a place is replaced.
-/

namespace RaisingEffects

/-- Related options are both missing, or both there with related values. -/
theorem eq_none_or_some_of_rel {α β : Type} {R : α → β → Prop} {x : Option α} {y : Option β}
    (h : Option.Rel R x y) : (x = none ∧ y = none) ∨ ∃ a b, x = some a ∧ y = some b ∧ R a b := by
  cases h with
  | none => exact .inl ⟨rfl, rfl⟩
  | some hab => exact .inr ⟨_, _, rfl, rfl, hab⟩

namespace Table

variable {α : Type} {name : String} {value : α} {entries : List (String × α)}

theorem get?_set (t : Table α) (name other : String) (value : α) :
    (t.set name value).get? other = if name = other then some value else t.get? other := by
  induction t with
  | nil => rfl
  | cons entry rest ih =>
    obtain ⟨n, a⟩ := entry
    by_cases hn : n = name
    · subst hn
      rw [set, if_pos rfl, get?, get?]
      by_cases ho : n = other
      · rw [if_pos ho, if_pos ho]
      · rw [if_neg ho, if_neg ho, if_neg ho]
    · rw [set, if_neg hn, get?, get?, ih]
      by_cases ho : n = other
      · rw [if_pos ho, if_pos ho, if_neg fun h => hn (ho.trans h.symm)]
      · rw [if_neg ho, if_neg ho]

theorem get?_map {β : Type} (f : α → β) (t : Table α) (name : String) :
    get? (t.map fun entry => (entry.1, f entry.2)) name = (t.get? name).map f := by
  induction t with
  | nil => rfl
  | cons entry rest ih =>
    rw [List.map_cons, get?, get?, ih]
    split <;> rfl

theorem mem_of_get? {t : Table α} (h : t.get? name = some value) : (name, value) ∈ t := by
  induction t with
  | nil => cases h
  | cons entry rest ih =>
    rw [get?] at h
    split at h
    · rename_i hn
      cases h
      exact hn ▸ List.mem_cons_self ..
    · exact List.mem_cons_of_mem _ (ih h)

theorem mem_set {t : Table α} {entry : String × α} (h : entry ∈ t.set name value) :
    entry = (name, value) ∨ entry ∈ t := by
  induction t with
  | nil => exact .inl (List.mem_singleton.1 h)
  | cons first rest ih =>
    rw [set] at h
    split at h
    · rename_i hn
      rcases List.mem_cons.1 h with rfl | h
      · exact .inl (hn ▸ rfl)
      · exact .inr (List.mem_cons_of_mem _ h)
    · rcases List.mem_cons.1 h with rfl | h
      · exact .inr (List.mem_cons_self ..)
      · exact (ih h).imp_right (List.mem_cons_of_mem _)

/-- Entering the value that a name has. -/
theorem set_of_get? {t : Table α} (h : t.get? name = some value) : t.set name value = t := by
  induction t with
  | nil => cases h
  | cons first rest ih =>
    rw [get?] at h
    rw [set]
    split
    · rename_i hname
      rw [if_pos hname, Option.some.injEq] at h
      rw [← h]
    · rename_i hname
      rw [if_neg hname] at h
      rw [ih h]

/-- Entering entries one after the other: the last one for a name counts. -/
theorem get?_foldl_set (entries : List (String × α)) (t : Table α) (name : String) :
    (entries.foldl (fun t e => t.set e.1 e.2) t).get? name =
      ((entries.reverse.find? fun e => e.1 = name).map Prod.snd).or (t.get? name) := by
  induction entries generalizing t with
  | nil => rfl
  | cons entry rest ih =>
    rw [List.foldl_cons, ih, get?_set, List.reverse_cons, List.find?_append]
    cases rest.reverse.find? fun e => e.1 = name with
    | some found => rfl
    | none => by_cases hn : entry.1 = name <;> simp [hn]

theorem get?_ofEntries (entries : List (String × α)) (name : String) :
    (ofEntries entries).get? name =
      (entries.reverse.find? fun e => e.1 = name).map Prod.snd := by
  rw [ofEntries, get?_foldl_set]
  exact Option.or_none

/-- The last entry for a name is its value. -/
theorem get?_ofEntries_of_last {before after : List (String × α)}
    (h : ∀ entry ∈ after, entry.1 ≠ name) :
    (ofEntries (before ++ (name, value) :: after)).get? name = some value := by
  have hafter : after.reverse.find? (fun e => e.1 = name) = none := by simpa using h
  rw [get?_ofEntries, List.reverse_append, List.reverse_cons, List.append_assoc,
    List.find?_append, hafter]
  simp

/-- A name whose entries all have one value has that value. -/
theorem get?_ofEntries_of_forall (hmem : (name, value) ∈ entries)
    (hall : ∀ entry ∈ entries, entry.1 = name → entry.2 = value) :
    (ofEntries entries).get? name = some value := by
  rw [get?_ofEntries]
  cases hfind : entries.reverse.find? fun e => e.1 = name with
  | none => simpa using List.find?_eq_none.1 hfind (name, value) (List.mem_reverse.2 hmem)
  | some entry =>
    have hentry := hall entry (List.mem_reverse.1 (List.mem_of_find?_eq_some hfind))
      (by simpa using List.find?_some hfind)
    rw [Option.map_some, hentry]

/-- Among entries with different names, the one for a name is found in any order. -/
theorem find?_perm {entries others : List (String × α)} (h : entries.Perm others)
    (hnodup : (entries.map Prod.fst).Nodup) (name : String) :
    (entries.find? fun e => e.1 = name) = others.find? fun e => e.1 = name := by
  induction h with
  | nil => rfl
  | cons entry _ ih => rw [List.find?_cons, List.find?_cons, ih (List.nodup_cons.1 hnodup).2]
  | swap x y rest =>
    have hne : y.1 ≠ x.1 := by
      rw [List.map_cons, List.map_cons, List.nodup_cons] at hnodup
      exact fun heq => hnodup.1 (heq ▸ List.mem_cons_self ..)
    rw [List.find?_cons, List.find?_cons, List.find?_cons, List.find?_cons]
    by_cases hx : x.1 = name
    · simp [hx, show y.1 ≠ name from hx ▸ hne]
    · simp [hx]
  | trans h _ ih ih' => rw [ih hnodup, ih' ((h.map Prod.fst).nodup_iff.1 hnodup)]

/-- The order of the last entries does not matter, if they have different names. -/
theorem get?_ofEntries_perm (before : List (String × α)) {entries others : List (String × α)}
    (h : entries.Perm others) (hnodup : (entries.map Prod.fst).Nodup) (name : String) :
    (ofEntries (before ++ entries)).get? name = (ofEntries (before ++ others)).get? name := by
  have hreverse : entries.reverse.Perm others.reverse :=
    (entries.reverse_perm.trans h).trans others.reverse_perm.symm
  have hnodup' : (entries.reverse.map Prod.fst).Nodup :=
    (entries.reverse_perm.map Prod.fst).nodup_iff.2 hnodup
  rw [get?_ofEntries, get?_ofEntries, List.reverse_append, List.reverse_append, List.find?_append,
    List.find?_append, find?_perm hreverse hnodup']

theorem mem_ofEntries {entry : String × α} (h : entry ∈ ofEntries entries) : entry ∈ entries := by
  suffices hfold : ∀ t : Table α, entry ∈ entries.foldl (fun t e => t.set e.1 e.2) t →
      entry ∈ entries ∨ entry ∈ t from (hfold [] h).resolve_right (by simp)
  intro t ht
  clear h
  induction entries generalizing t with
  | nil => exact .inr ht
  | cons first rest ih =>
    rcases ih _ ht with hrest | hset
    · exact .inl (List.mem_cons_of_mem _ hrest)
    · rcases mem_set hset with rfl | hin
      · exact .inl (List.mem_cons_self ..)
      · exact .inr hin

theorem nodup_set {t : Table α} (h : (t.map Prod.fst).Nodup) (name : String) (value : α) :
    ((t.set name value).map Prod.fst).Nodup := by
  induction t with
  | nil => simp [set]
  | cons first rest ih =>
    obtain ⟨hfirst, hrest⟩ := List.nodup_cons.1 h
    rw [set]
    split
    · exact h
    · rename_i hne
      refine List.nodup_cons.2 ⟨fun hmem => ?_, ih hrest⟩
      obtain ⟨entry, hentry, hname⟩ := List.mem_map.1 hmem
      rcases mem_set hentry with rfl | hentry
      · exact hne hname.symm
      · exact hfirst (hname ▸ List.mem_map_of_mem hentry)

/-- No name is in a table twice. -/
theorem nodup_ofEntries (entries : List (String × α)) :
    ((ofEntries entries).map Prod.fst).Nodup := by
  suffices hfold : ∀ t : Table α, (t.map Prod.fst).Nodup →
      ((entries.foldl (fun t e => t.set e.1 e.2) t).map Prod.fst).Nodup from hfold [] List.nodup_nil
  intro t ht
  induction entries generalizing t with
  | nil => exact ht
  | cons entry rest ih => exact ih _ (nodup_set ht entry.1 entry.2)

/-! ## Related tables -/

/-- The tables have the same names, in the same order, and related values. -/
def Rel {β : Type} (R : α → β → Prop) (t : Table α) (u : Table β) : Prop :=
  List.Forall₂ (fun x y => x.1 = y.1 ∧ R x.2 y.2) t u

namespace Rel

variable {β : Type} {R : α → β → Prop} {t : Table α} {u : Table β} {others : List (String × β)}

theorem get? (h : Rel R t u) (name : String) : Option.Rel R (t.get? name) (u.get? name) := by
  induction h with
  | nil => exact .none
  | @cons x y t u hxy _ ih =>
    rw [Table.get?, Table.get?, hxy.1]
    split
    · exact .some hxy.2
    · exact ih

theorem set (h : Rel R t u) (name : String) {a : α} {b : β} (hab : R a b) :
    Rel R (t.set name a) (u.set name b) := by
  induction h with
  | nil => exact .cons ⟨rfl, hab⟩ .nil
  | @cons x y t u hxy hrest ih =>
    rw [Table.set, Table.set, hxy.1]
    split
    · exact .cons ⟨rfl, hab⟩ hrest
    · exact .cons ⟨rfl, hxy.2⟩ ih

theorem map_left {f : α → α} (h : Rel R t u) (hf : ∀ a b, R a b → R (f a) b) :
    Rel R (t.map fun entry => (entry.1, f entry.2)) u := by
  rw [Rel, List.forall₂_map_left_iff]
  exact h.imp fun _ _ hxy => ⟨hxy.1, hf _ _ hxy.2⟩

theorem map_right {f : β → β} (h : Rel R t u) (hf : ∀ a b, R a b → R a (f b)) :
    Rel R t (u.map fun entry => (entry.1, f entry.2)) := by
  rw [Rel, List.forall₂_map_right_iff]
  exact h.imp fun _ _ hxy => ⟨hxy.1, hf _ _ hxy.2⟩

theorem foldl_set (h : Rel R entries others) (htu : Rel R t u) :
    Rel R (entries.foldl (fun t e => t.set e.1 e.2) t)
      (others.foldl (fun u e => u.set e.1 e.2) u) := by
  induction h generalizing t u with
  | nil => exact htu
  | cons hxy _ ih =>
    rw [List.foldl_cons, List.foldl_cons, hxy.1]
    exact ih (htu.set _ hxy.2)

theorem ofEntries (h : Rel R entries others) :
    Rel R (Table.ofEntries entries) (Table.ofEntries others) :=
  foldl_set h .nil

end Rel

end Table

/-! ## Related lists -/

section Lists

variable {α β : Type} {R : α → β → Prop} {as : List α} {bs : List β}
  (h : List.Forall₂ R as bs) {a : α} {b : β}

include h

theorem rel_getElem?_of_forall₂ (i : Nat) : Option.Rel R as[i]? bs[i]? := by
  induction h generalizing i with
  | nil => exact .none
  | cons hab _ ih =>
    cases i with
    | zero => exact .some hab
    | succ i => exact ih i

theorem forall₂_set (i : Nat) (hab : R a b) : List.Forall₂ R (as.set i a) (bs.set i b) := by
  induction h generalizing i with
  | nil => exact .nil
  | cons hxy hrest ih =>
    cases i with
    | zero => exact .cons hab hrest
    | succ i => exact .cons hxy (ih i)

theorem forall₂_set_right {i : Nat} (ha : as[i]? = some a) (hab : R a b) :
    List.Forall₂ R as (bs.set i b) := by
  have hset := forall₂_set h i hab
  obtain ⟨hi, rfl⟩ := List.getElem?_eq_some_iff.1 ha
  rwa [List.set_getElem_self] at hset

end Lists

end RaisingEffects
