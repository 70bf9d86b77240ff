import RaisingEffects.Config.Override
import RaisingEffects.Proofs.Parse.Declarations

/-!
# Looking up what overrides enter

Entering a value for a name changes the look-up of that name only (`Mapping.get?_set`) and adds at
most one key (`Mapping.filter_keys_set`). What a name stands for in the copy of a mapping is changed
along the path of an override, whatever it shares with the mapping (`Overlay.get?_change`), also
after other overrides (`Mapping.override_concat`).
-/

namespace RaisingEffects

theorem Value.isText_iff {name : String} {key : Value} :
    key.isText name = true ↔ key = .text name := by
  cases key <;> simp [Value.isText]

namespace Mapping

theorem get?_set (m : Mapping) (name other : String) (value : Value) :
    get? other (m.set name value) = if name = other then some value else m.get? other := by
  induction m with
  | nil => by_cases h : name = other <;> simp [set, get?, Value.isText, h]
  | cons entry m ih =>
    obtain ⟨key, v⟩ := entry
    by_cases hkey : key.isText name = true
    · rw [set, if_pos hkey]
      by_cases h : name = other
      · rw [if_pos h, get?, if_pos (h ▸ hkey)]
      · have hother : ¬ key.isText other = true := by
          rw [Value.isText_iff.1 hkey, Value.isText_iff]
          simpa using h
        rw [if_neg h, get?, if_neg hother, get?, if_neg hother]
    · rw [set, if_neg hkey, get?, get?, ih]
      by_cases h : name = other
      · subst h
        rw [if_neg hkey, if_pos rfl, if_pos rfl]
      · rw [if_neg h, if_neg h]

/-- The keys stay, and the name may become a key. -/
theorem filter_keys_set {p : Value → Bool} (m : Mapping) (name : String) (value : Value)
    (hname : p (.text name) = false) :
    ((m.set name value).map Prod.fst).filter p = (m.map Prod.fst).filter p := by
  induction m with
  | nil => simp [set, hname]
  | cons entry m ih =>
    obtain ⟨key, v⟩ := entry
    rw [set]
    split
    · rfl
    · rw [List.map_cons, List.map_cons, List.filter_cons, List.filter_cons, ih]

theorem get?_changeEntries (m : Mapping) (n : Nat) (f : Mapping → Mapping) (name : String) :
    get? name (Value.changeEntries n f m) = (m.get? name).map (Value.change n f) := by
  induction m with
  | nil => rfl
  | cons entry m ih =>
    rw [Value.changeEntries, get?, get?]
    split
    · rfl
    · exact ih

end Mapping

theorem Value.alter_of_sharedOn {f : List String → Mapping → Mapping} {path rest : List String}
    {v : Value} {n : Nat} (h : v.sharedOn path = some (n, rest)) :
    v.alter f path = v.change n (f rest) := by
  simp only [alter, h]

/-- A mapping is changed itself, whether or not it stands in several places. -/
theorem Value.alter_map (f : List String → Mapping → Mapping) (name : String) (es : Mapping)
    (number : Option Nat) :
    (Value.map es number).alter f [name] = .map (f [name] es) number := by
  cases number <;> simp [alter, sharedOn, change]

/-- Why an override cannot be applied, if it cannot. -/
def Override.fault? (read : Value.Reader) (text : String) : Option OverrideFault :=
  match parse text with
  | .error fault => some fault
  | .ok v =>
    match read v.raw with
    | .error fault => some (.value fault)
    | .ok _ => none

namespace Overlay

variable {read : Value.Reader}

/-- Overrides are applied up to the first that cannot be applied. -/
theorem applyAll_snd (read : Value.Reader) (o : Overlay) (texts : List String) :
    (o.applyAll read texts).2 = texts.findSome? (Override.fault? read) := by
  induction texts generalizing o with
  | nil => rfl
  | cons text texts ih =>
    rw [applyAll, List.findSome?_cons, Override.fault?]
    cases Override.parse text with
    | error fault => rfl
    | ok v =>
      cases hvalue : read v.raw with
      | error fault => simp [hvalue]
      | ok value => simpa [hvalue] using ih _

/-- What a name stands for is changed along the path. -/
theorem get?_change (o : Overlay) (f : List String → Mapping → Mapping) (name next : String)
    (path : List String) :
    Mapping.get? name (o.change f (name :: next :: path)).result =
      some (((o.result.get? name).getD .null).alter f (next :: path)) := by
  simp only [change]
  split
  · cases hshared : ((o.result.get? name).getD .null).sharedOn (next :: path) with
    | none => exact (Mapping.get?_set ..).trans (if_pos rfl)
    | some place =>
      rw [Value.alter_of_sharedOn hshared]
      refine (Mapping.get?_changeEntries ..).trans ?_
      cases hv : o.result.get? name with
      | none =>
        rw [hv] at hshared
        cases hshared
      | some v => rfl
  · exact (Mapping.get?_set ..).trans (if_pos rfl)

theorem applyAll_append {o o' : Overlay} {texts : List String}
    (h : o.applyAll read texts = (o', none)) (more : List String) :
    o.applyAll read (texts ++ more) = o'.applyAll read more := by
  induction texts generalizing o with
  | nil =>
    cases h
    rfl
  | cons text texts ih =>
    rw [applyAll] at h
    rw [List.cons_append, applyAll]
    cases hv : Override.parse text with
    | error fault =>
      rw [hv] at h
      cases h
    | ok v =>
      rw [hv] at h
      dsimp only at h ⊢
      cases hvalue : read v.raw with
      | error fault =>
        rw [hvalue] at h
        cases h
      | ok value =>
        rw [hvalue] at h
        exact ih h

theorem applyAll_singleton (o : Overlay) {text : String} {v : Override} {value : Value}
    (hv : Override.parse text = .ok v) (hvalue : read v.raw = .ok value) :
    o.applyAll read [text] = (o.write v.path value, none) := by
  simp only [applyAll, hv, hvalue]

end Overlay

theorem Override.beforeBlank_concat {texts : List (Option String)} {text : String}
    (h : texts.contains none = false) :
    Override.beforeBlank (texts ++ [some text]) = Override.beforeBlank texts ++ [text] := by
  induction texts with
  | nil => rfl
  | cons first texts ih =>
    cases first with
    | none => simp at h
    | some first => exact congrArg (List.cons first) (ih (by simpa using h))

namespace Mapping

variable {read : Value.Reader} {text : String} {v : Override} {value : Value}
  (hv : Override.parse text = .ok v) (hvalue : read v.raw = .ok value)

include hv hvalue

/-- An override writes its value. -/
theorem override_singleton (m : Mapping) :
    m.override read [text] = .ok ((Overlay.ofMapping m).write v.path value).result := by
  rw [Mapping.override, Overlay.applyAll_singleton _ hv hvalue]

/-- An override after others writes its value into what they result in. -/
theorem override_concat {m m' : Mapping} {texts : List String}
    (h : m.override read texts = .ok m') :
    ∃ o : Overlay, o.result = m' ∧
      m.override read (texts ++ [text]) = .ok (o.write v.path value).result := by
  unfold Mapping.override at h ⊢
  split at h
  · cases h
  · rename_i o hrun
    cases h
    exact ⟨o, rfl, by rw [Overlay.applyAll_append hrun, Overlay.applyAll_singleton o hv hvalue]⟩

/-- Where none of the overrides is blank, one more is applied to what the others result in. -/
theorem overrideUnlessBlank_concat {m m' : Mapping} {texts : List (Option String)}
    (h : m.overrideUnlessBlank read texts = .ok m') :
    ∃ o : Overlay, o.result = m' ∧
      m.overrideUnlessBlank read (texts ++ [some text]) = .ok (o.write v.path value).result := by
  obtain ⟨m₁, hm, h⟩ := except_bind_eq_ok h
  cases hblank : texts.contains none with
  | true =>
    rw [hblank] at h
    cases h
  | false =>
    rw [hblank] at h
    cases h
    have hblank' : (texts ++ [some text]).contains none = false := by
      simpa using hblank
    obtain ⟨o, ho, hrun⟩ := override_concat hv hvalue hm
    refine ⟨o, ho, ?_⟩
    rw [overrideUnlessBlank, Override.beforeBlank_concat hblank, hrun]
    simp only [hblank', Bind.bind, Except.bind]
    rfl

end Mapping

end RaisingEffects
