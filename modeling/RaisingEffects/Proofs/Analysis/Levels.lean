import RaisingEffects.Proofs.Analysis.Frame

/-!
# Scopes counted from the outside

The scopes around a place are listed from the inside out, and opening one moves the others. Counted
from the outside they stay where they are: `Env.meaning env level name` is what the name means in
the scope with the number `level`, where the outermost scope has the number 0.

* `Env.level? env name` is the number of the scope in which the name is found, so that name and
  number together tell variables apart (`Env.lookup_eq`).
* The lemmas `meaning_define`, `meaning_rebind` and `meaning_follow` say what each change of the
  scopes does to all meanings.
-/

namespace RaisingEffects

namespace Env

/-- What a name means in one of the scopes, which are counted from the outside. -/
def meaning : Env → Nat → String → Option Binding
  | [], _, _ => none
  | scope :: outer, level, name =>
    if level = outer.length then scope.get? name else meaning outer level name

/-- The scope in which a name is found, counted from the outside. -/
def level? : Env → String → Option Nat
  | [], _ => none
  | scope :: outer, name =>
    if (scope.get? name).isSome then some outer.length else level? outer name

variable {env : Env} {level : Nat} {name : String}

/-! ## Numbers of scopes -/

theorem meaning_of_length_le (h : env.length ≤ level) : env.meaning level name = none := by
  induction env with
  | nil => rfl
  | cons scope outer ih =>
    rw [List.length_cons] at h
    rw [meaning, if_neg (by omega), ih (by omega)]

theorem lt_of_meaning {b : Binding} (h : env.meaning level name = some b) :
    level < env.length := by
  by_contra hlevel
  rw [meaning_of_length_le (Nat.le_of_not_lt hlevel)] at h
  cases h

theorem lt_of_level? (h : env.level? name = some level) : level < env.length := by
  induction env with
  | nil => cases h
  | cons scope outer ih =>
    rw [level?] at h
    rw [List.length_cons]
    split at h
    · cases h
      exact Nat.lt_succ_self _
    · exact Nat.lt_succ_of_lt (ih h)

/-- A name means what it means in the scope in which it is found. -/
theorem lookup_eq (env : Env) (name : String) :
    env.lookup name = (env.level? name).bind fun level => env.meaning level name := by
  induction env with
  | nil => rfl
  | cons scope outer ih =>
    rw [lookup_cons, level?]
    cases hscope : scope.get? name with
    | some b => rw [Option.isSome_some, if_pos rfl, Option.bind_some, meaning, if_pos rfl, hscope,
        Option.some_or]
    | none =>
      rw [Option.isSome_none, if_neg Bool.false_ne_true, Option.none_or, ih]
      cases hlevel : level? outer name with
      | none => rfl
      | some level =>
        have hlt := lt_of_level? hlevel
        rw [Option.bind_some, Option.bind_some, meaning, if_neg (Nat.ne_of_lt hlt)]

theorem exists_level_of_lookup {b : Binding} (h : env.lookup name = some b) :
    ∃ level, env.level? name = some level ∧ env.meaning level name = some b := by
  rw [lookup_eq] at h
  exact Option.bind_eq_some_iff.1 h

theorem lookup_of_level? (h : env.level? name = some level) :
    env.lookup name = env.meaning level name := by
  rw [lookup_eq, h, Option.bind_some]

/-! ## Changes of the scopes -/

theorem meaning_enter (env : Env) (level : Nat) (name : String) :
    meaning ([] :: env) level name = env.meaning level name := by
  rw [meaning]
  split
  · rename_i h
    rw [meaning_of_length_le (Nat.le_of_eq h.symm)]
    rfl
  · rfl

/-- Closing a scope leaves the meanings in the others. -/
theorem meaning_leave (h : level + 1 < env.length) :
    meaning (env.drop 1) level name = env.meaning level name := by
  cases env with
  | nil => rfl
  | cons scope outer =>
    rw [List.length_cons] at h
    rw [meaning, if_neg (by omega)]
    rfl

theorem meaning_of_leave {b : Binding} (h : meaning (env.drop 1) level name = some b) :
    env.meaning level name = some b := by
  have hlt := lt_of_meaning h
  rw [List.length_drop] at hlt
  rwa [← meaning_leave (by omega)]

variable (env : Env)

theorem meaning_define (x : String) (b : Binding) (level : Nat) (name : String) :
    (env.define x b).meaning level name =
      if level = env.length - 1 ∧ x = name then some b else env.meaning level name := by
  cases env with
  | nil =>
    by_cases hlevel : level = 0 <;> by_cases hname : x = name <;>
      simp [define, meaning, Table.get?, hlevel, hname]
  | cons scope outer =>
    rw [define, meaning, meaning, Table.get?_set, List.length_cons, Nat.add_sub_cancel]
    by_cases hlevel : level = outer.length <;> by_cases hname : x = name <;> simp [hlevel, hname]

theorem length_define (x : String) (b : Binding) : (env.define x b).length = max env.length 1 := by
  cases env with
  | nil => rfl
  | cons scope outer => simp [define]

theorem length_rebind (x : String) (b : Binding) : (env.rebind x b).length = env.length := by
  induction env with
  | nil => rfl
  | cons scope outer ih =>
    rw [rebind]
    split
    · rfl
    · rw [List.length_cons, List.length_cons, ih]

/-- Rebinding a name changes the variable that is found, and no other. -/
theorem meaning_rebind (x : String) (b : Binding) (level : Nat) (name : String) :
    (env.rebind x b).meaning level name =
      if env.level? x = some level ∧ x = name then some b else env.meaning level name := by
  induction env with
  | nil => simp [rebind, level?]
  | cons scope outer ih =>
    rw [rebind, level?]
    by_cases hscope : (scope.get? x).isSome = true
    · rw [if_pos hscope, if_pos hscope, meaning, meaning, Table.get?_set]
      by_cases hlevel : level = outer.length
      · subst hlevel
        by_cases hname : x = name <;> simp [hname]
      · simp [hlevel, Ne.symm hlevel]
    · rw [if_neg hscope, if_neg hscope, meaning, meaning, length_rebind, ih]
      by_cases hlevel : level = outer.length
      · have hfound : level? outer x ≠ some level := by
          intro h
          exact absurd hlevel (Nat.ne_of_lt (lt_of_level? h))
        rw [if_pos hlevel, if_pos hlevel, if_neg fun h => hfound h.1]
      · rw [if_neg hlevel, if_neg hlevel]

theorem length_follow (id : Nat) (e : Effect) : (env.follow id e).length = env.length :=
  List.length_map ..

theorem meaning_follow (id : Nat) (e : Effect) (level : Nat) (name : String) :
    (env.follow id e).meaning level name = (env.meaning level name).map fun b =>
      if b.aggregate = some id then { b with effect := e } else b := by
  induction env with
  | nil => rfl
  | cons scope outer ih =>
    rw [follow_cons, meaning, meaning, length_follow, Table.get?_map fun b : Binding =>
      if b.aggregate = some id then { b with effect := e } else b, ih]
    split <;> rfl

end Env

end RaisingEffects
