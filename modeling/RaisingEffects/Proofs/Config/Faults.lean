import Mathlib.Logic.Basic
import RaisingEffects.Config.Settings
import RaisingEffects.Proofs.Config.Overrides

/-!
# Faults of a configuration that are not reported

Settings are read, or there is a fault. A fault of the configuration is reported as such, with two
exceptions (`Settings.load_unreported_iff`): the value of an override is no document, or the options
have a key that is not a text, and so cannot be listed among the unknown options. Apart from them,
there are paths that lead to no file, and scalars on which the reading of documents itself breaks
down.
-/

namespace RaisingEffects

/-- The mapping that the options stand in, if there is one. -/
def Mapping.section? (m : Mapping) : Option Mapping :=
  match m.get? "analysis" with
  | none => some m
  | some (.map es _) => some es
  | some _ => none

/-- There is a key that is not a text. -/
def Mapping.HasOddKey (m : Mapping) : Prop := ∃ e ∈ m, ∀ s, e.1 ≠ .text s

/-- Nothing can be read: there is no file, or a scalar in it cannot be dealt with. -/
def Found.Breaks (found : Found) (read : Value.Reader) : Prop :=
  found = .directory ∨ found = .tooLong ∨ ∃ bytes text fault, found = .file bytes ∧
    fileText bytes = .ok text ∧ read text = .error fault ∧ fault.isOfValue = false

namespace ConfigFault

/-- There is a fault, and it is not reported. -/
def Escapes {α : Type} (r : Except ConfigFault α) : Prop :=
  ∃ fault, r = .error fault ∧ fault.isReported = false

variable {α β ε : Type} {r : Except ConfigFault α} {k : α → Except ConfigFault β}

@[simp] theorem mapError_ok (f : ε → ConfigFault) (a : α) : Except.mapError f (.ok a) = .ok a := rfl

@[simp] theorem mapError_error (f : ε → ConfigFault) (e : ε) :
    Except.mapError f (.error e : Except ε α) = .error (f e) := rfl

@[simp] theorem escapes_error {fault : ConfigFault} :
    Escapes (.error fault : Except ConfigFault α) ↔ fault.isReported = false :=
  ⟨fun ⟨_, h, hfault⟩ => Except.error.inj h ▸ hfault, fun h => ⟨fault, rfl, h⟩⟩

@[simp] theorem escapes_ok {a : α} : Escapes (.ok a : Except ConfigFault α) ↔ False :=
  iff_of_false (fun ⟨_, h, _⟩ => nomatch h) id

theorem escapes_bind : Escapes (r >>= k) ↔ Escapes r ∨ ∃ a, r = .ok a ∧ Escapes (k a) := by
  cases r with
  | error fault => simp [Bind.bind, Except.bind]
  | ok a => simp [Bind.bind, Except.bind]

theorem escapes_mapError {f : ε → ConfigFault} {r : Except ε α} :
    Escapes (r.mapError f) ↔ ∃ e, r = .error e ∧ (f e).isReported = false := by
  cases r <;> simp

theorem not_escapes (h : ∀ fault, r = .error fault → fault.isReported = true) : ¬ Escapes r := by
  rintro ⟨fault, hr, hfault⟩
  rw [h fault hr] at hfault
  cases hfault

end ConfigFault

open ConfigFault

/-! ## Options -/

namespace Settings

/-- Unknown options are not reported if one of them is not a text. -/
theorem unknownOptions_unreported_iff {keys : List Value} (hkeys : keys ≠ []) :
    (unknownOptions keys).isReported = false ↔ ∃ k ∈ keys, ∀ s, k ≠ .text s := by
  unfold unknownOptions
  dsimp only
  split
  · rename_i hall
    refine iff_of_false (by simp [isReported]) ?_
    rintro ⟨k, hk, hodd⟩
    have htext := List.filterMap_length_eq_length.1 hall k hk
    cases k <;> simp_all
  · rename_i hodd
    have hkey : ∃ k ∈ keys, ∀ s, k ≠ .text s := by
      simp only [List.filterMap_length_eq_length, not_forall] at hodd
      obtain ⟨k, hk, htext⟩ := hodd
      exact ⟨k, hk, fun s hs => htext (by simp [hs])⟩
    refine iff_of_true ?_ hkey
    generalize hkinds : List.map Value.kindName _ = kinds
    cases kinds with
    | cons first rest =>
      dsimp only
      split <;> rfl
    | nil =>
      -- keys that are all numbers have a least one
      rw [List.map_eq_nil_iff] at hkinds
      split at hkinds
      · rename_i hnumbers
        rw [Option.toList_eq_nil_iff, Option.map_eq_none_iff, List.head?_eq_none_iff,
          ← List.length_eq_zero_iff, List.length_mergeSort, hnumbers] at hkinds
        exact absurd (List.length_eq_zero_iff.1 hkinds) hkeys
      · exact absurd hkinds hkeys

theorem policyIn_reported (m : Mapping) : ¬ Escapes (policyIn m) := by
  refine not_escapes fun fault h => ?_
  unfold policyIn at h
  split at h
  · cases h
  · split at h
    · split at h <;> cases h
      rfl
    · cases h
      unfold wrong
      split <;> rfl

theorem checkBodiesIn_reported (m : Mapping) : ¬ Escapes (checkBodiesIn m) := by
  refine not_escapes fun fault h => ?_
  unfold checkBodiesIn at h
  split at h <;> cases h
  unfold wrong
  split <;> rfl

theorem ofSection_escapes_iff (m : Mapping) : Escapes (ofSection m) ↔ m.HasOddKey := by
  have hodd : m.HasOddKey ↔ ∃ k ∈ (m.map Prod.fst).filter (!isOption ·), ∀ s, k ≠ .text s := by
    refine ⟨fun ⟨e, he, hk⟩ => ⟨e.1, ?_, hk⟩, fun ⟨k, hmem, hk⟩ => ?_⟩
    · refine List.mem_filter.2 ⟨List.mem_map_of_mem he, ?_⟩
      cases hkey : e.1 with
      | text s => exact absurd hkey (hk s)
      | _ => rfl
    · obtain ⟨e, he, rfl⟩ := List.mem_map.1 (List.mem_filter.1 hmem).1
      exact ⟨e, he, hk⟩
  rw [hodd]
  unfold ofSection
  split
  · rename_i hnone
    simp [escapes_bind, policyIn_reported, checkBodiesIn_reported, hnone, Pure.pure, Except.pure]
  · rename_i hkeys
    exact escapes_error.trans (unknownOptions_unreported_iff fun h => hkeys h)

theorem ofMapping_escapes_iff (m : Mapping) :
    Escapes (ofMapping m) ↔ ∃ es, m.section? = some es ∧ es.HasOddKey := by
  unfold ofMapping Mapping.section?
  cases m.get? "analysis" with
  | none => simpa using ofSection_escapes_iff m
  | some v =>
    cases v with
    | map es number => simpa using ofSection_escapes_iff es
    | _ => simp [isReported]

/-! ## Overrides -/

theorem override_unreported_iff (fault : OverrideFault) :
    (ConfigFault.override fault).isReported = false ↔
      ∃ f, fault = .value f ∧ (f = .malformed ∨ f.isOfValue = false) := by
  cases fault with
  | value f => cases f <;> simp [isReported, Yaml.Fault.isOfValue]
  | _ => simp [isReported]

theorem ofOverrides_escapes_iff (read : Value.Reader) (m : Mapping) (texts : List String) :
    Escapes (ofOverrides read m texts) ↔
      (∃ f, texts.findSome? (Override.fault? read) = some (.value f) ∧
        (f = .malformed ∨ f.isOfValue = false)) ∨
      ∃ m' es, m.override read texts = .ok m' ∧ m'.section? = some es ∧ es.HasOddKey := by
  rw [← Overlay.applyAll_snd read (.ofMapping m) texts, ofOverrides, Mapping.override,
    escapes_bind, escapes_mapError]
  obtain ⟨o, _ | fault⟩ := (Overlay.ofMapping m).applyAll read texts
  · simp [ofMapping_escapes_iff]
  · simp [override_unreported_iff]

end Settings

/-! ## Files -/

theorem Config.ofText_escapes_iff (read : Value.Reader) (text : String) :
    Escapes (ofText read text) ↔ ∃ f, read text = .error f ∧ f.isOfValue = false := by
  unfold ofText
  split <;> simp_all [isReported]

theorem Config.load_escapes_iff (read : Value.Reader) (path : Path) (found : Found) :
    Escapes (Config.load read path found) ↔ found.Breaks read := by
  rw [load, escapes_bind, escapes_mapError]
  cases found with
  | nothing => simp [Found.Breaks, Found.bytes?, isReported]
  | directory | tooLong => simp [Found.Breaks, Found.bytes?, isReported]
  | file bytes =>
    cases htext : fileText bytes <;>
      simp [Found.Breaks, Found.bytes?, escapes_bind, isReported, htext, ofText_escapes_iff]

/-- **Settings are read, or a fault of the configuration is reported,** whatever reads the
documents, unless there is no file where its path leads, a scalar in it cannot be dealt with, the
first override that cannot be applied has a value that is no document or has such a scalar, or the
options with the overrides have a key that is not a text. -/
theorem Settings.load_unreported_iff (read : Value.Reader) (file : Option (Path × Found))
    (texts : List String) :
    (∃ fault, load read file texts = .error fault ∧ fault.isReported = false) ↔
      (∃ f ∈ file, f.2.Breaks read) ∨
      ∃ m, (file.elim (.ok []) fun f => Config.load read f.1 f.2) = .ok m ∧
        ((∃ f, texts.findSome? (Override.fault? read) = some (.value f) ∧
          (f = .malformed ∨ f.isOfValue = false)) ∨
        ∃ m' es, m.override read texts = .ok m' ∧ m'.section? = some es ∧ es.HasOddKey) := by
  change Escapes (load read file texts) ↔ _
  cases file with
  | none =>
    have hload : load read none texts = ofOverrides read [] texts := rfl
    simp [hload, ofOverrides_escapes_iff]
  | some f =>
    have hload : load read (some f) texts =
      (Config.load read f.1 f.2 >>= (ofOverrides read · texts)) := rfl
    simp [hload, escapes_bind, Config.load_escapes_iff, ofOverrides_escapes_iff]

/-- The message of a fault, and whether it is reported. -/
def ConfigFault.view {α : Type} : Except ConfigFault α → Option (String × Bool)
  | .error fault => some (fault.message, fault.isReported)
  | .ok _ => none

/-- A key that is a number is not reported as an unknown option, and neither is an override whose
value is no document. -/
theorem Settings.load_unreported :
    view (load Value.ofYaml (some (⟨"", ["config.yaml"]⟩, .file "1: x".toUTF8.toList)) []) =
        some ("sequence item 0: expected str instance, int found", false) ∧
      view (load Value.ofYaml none ["policy=["]) = some ("malformed document", false) := by
  decide +kernel

end RaisingEffects
