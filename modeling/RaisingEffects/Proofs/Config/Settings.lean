import RaisingEffects.CommandLine.Run
import RaisingEffects.Proofs.Config.Overrides
import RaisingEffects.Proofs.Parse.Declarations

/-!
# Choosing a policy

A policy is chosen by an override of `analysis.policy`. If the mapping that settings are read from
has a section `analysis`, the override changes the policy in it, and the other option stays. If it
has none, because the options stand in the mapping itself, the override makes a section with nothing
but the policy, from which the settings are then read, so the other option has its default
(`Settings.ofOverrides_policy`).
-/

namespace RaisingEffects

/-- The override that chooses a policy. -/
def Policy.override (p : Policy) : String := "analysis.policy=" ++ p.name

namespace Policy

theorem parse_override (p : Policy) :
    Override.parse p.override = .ok ⟨["analysis", "policy"], p.name⟩ := by
  cases p <;> rfl

theorem ofName?_name (p : Policy) : ofName? p.name = some p := by
  cases p <;> decide +kernel

/-- The name of a policy is a document by itself. -/
theorem ofYaml_name (p : Policy) : Value.ofYaml p.name = .ok (.text p.name) := by
  cases p <;> rfl

end Policy

namespace Settings

variable {settings : Settings}

/-- Entering a policy in a section changes the policy only. -/
theorem ofSection_set_policy {m : Mapping} (h : ofSection m = .ok settings) (p : Policy) :
    ofSection (m.set "policy" (.text p.name)) = .ok { settings with policy := p } := by
  have hkeys := Mapping.filter_keys_set (p := (!isOption ·)) m "policy" (.text p.name) rfl
  have hpolicy : policyIn (m.set "policy" (.text p.name)) = .ok p := by
    rw [policyIn, Mapping.get?_set, if_pos rfl]
    simp only [p.ofName?_name]
  have hbodies : checkBodiesIn (m.set "policy" (.text p.name)) = checkBodiesIn m := by
    rw [checkBodiesIn, checkBodiesIn, Mapping.get?_set, if_neg (by decide)]
  unfold ofSection at h ⊢
  rw [hkeys, hpolicy, hbodies]
  split at h
  · obtain ⟨old, -, h⟩ := except_bind_eq_ok h
    obtain ⟨b, hcheck, h⟩ := except_bind_eq_ok h
    cases h
    rw [hcheck]
    rfl
  · cases h

/-- A policy is entered in the section, which is made if there is none. -/
theorem ofMapping_write_policy {o : Overlay} (h : ofMapping o.result = .ok settings) (p : Policy) :
    ofMapping (o.write ["analysis", "policy"] (.text p.name)).result =
      .ok { policy := p
            checkBodies := if o.result.has "analysis" then settings.checkBodies else true } := by
  rw [ofMapping, Overlay.write, Overlay.get?_change, Mapping.has]
  unfold ofMapping at h
  cases hsection : o.result.get? "analysis" with
  | none => exact ofSection_set_policy (m := []) rfl p
  | some v =>
    rw [hsection] at h
    cases v with
    | map es number =>
      rw [Option.getD_some, Value.alter_map]
      exact ofSection_set_policy h p
    | _ => cases h

variable {read : Value.Reader} {p : Policy} (hp : read p.name = .ok (.text p.name))

include hp

theorem ofOverrides_eq {m : Mapping} (h : ofMapping m = .ok settings) :
    ofOverrides read m [p.override] =
      .ok { policy := p
            checkBodies := if m.has "analysis" then settings.checkBodies else true } := by
  rw [ofOverrides, Mapping.override_singleton p.parse_override hp]
  exact ofMapping_write_policy (o := .ofMapping m) h p

/-- The policy may be chosen after other overrides. -/
theorem exists_of_overrideUnlessBlank {m : Mapping} {texts : List (Option String)}
    (h : ((m.overrideUnlessBlank read texts).mapError .override >>= ofMapping) = .ok settings) :
    ∃ m', ofMapping m' = .ok settings ∧
      ((m.overrideUnlessBlank read (texts ++ [some p.override])).mapError .override >>= ofMapping) =
        ofOverrides read m' [p.override] := by
  cases hm : m.overrideUnlessBlank read texts with
  | error fault =>
    rw [hm] at h
    cases h
  | ok m' =>
    rw [hm] at h
    obtain ⟨o, rfl, hrun⟩ := Mapping.overrideUnlessBlank_concat p.parse_override hp hm
    refine ⟨o.result, h, ?_⟩
    rw [hrun, ofOverrides_eq hp h]
    exact ofMapping_write_policy h p

/-- The option for the policy overrides it in the mapping that settings are otherwise read from. -/
theorem settings_policy {i : CommandLine.Invocation} {find : Path → Found} (hi : i.policy = none)
    (h : i.settings read find = .ok settings) :
    ∃ m, ofMapping m = .ok settings ∧
      CommandLine.Invocation.settings { i with policy := some p.name } read find =
        ofOverrides read m [p.override] := by
  have hflag : some s!"analysis.policy={p.name}" = some p.override := by cases p <;> rfl
  obtain ⟨config, overrides, policy, logConfig, verbosity, command⟩ := i
  obtain rfl : policy = none := hi
  unfold CommandLine.Invocation.settings at h ⊢
  dsimp only [Option.map_none, Option.map_some, Option.toList_none, Option.toList_some] at h ⊢
  rw [List.append_nil] at h
  rw [hflag]
  cases config with
  | absent => exact exists_of_overrideUnlessBlank hp h
  | blank => cases h
  | value path =>
    dsimp only at h ⊢
    obtain ⟨m, hload, h⟩ := except_bind_eq_ok h
    rw [hload]
    exact exists_of_overrideUnlessBlank hp h

omit hp

/-- **Choosing a policy** in a mapping from which settings can be read succeeds with that policy. It
keeps whether bodies are compared with their signatures if the mapping has a section for the
analysis, and otherwise they are compared. This is what the option for the policy on the command
line comes to, for the mapping that settings are read from without it. All that matters of the
reader of documents is that it reads the name of the policy as that text. -/
theorem ofOverrides_policy {read : Value.Reader} {p : Policy} {m : Mapping} {settings : Settings}
    (hp : read p.name = .ok (.text p.name)) (h : ofMapping m = .ok settings) :
    ofOverrides read m [p.override] =
        .ok { policy := p
              checkBodies := if m.has "analysis" then settings.checkBodies else true } ∧
      ∀ (i : CommandLine.Invocation) (find : Path → Found) (settings : Settings),
        i.policy = none → i.settings read find = .ok settings →
        ∃ m, ofMapping m = .ok settings ∧
          CommandLine.Invocation.settings { i with policy := some p.name } read find =
            ofOverrides read m [p.override] := by
  exact ⟨ofOverrides_eq hp h, fun i find settings hi hsettings => settings_policy hp hi hsettings⟩

theorem ofOverrides_policy_section :
    let m : Mapping :=
      [(.text "analysis", .map [(.text "check_bodies", .bool false)]), (.text "other", .null)]
    ofMapping m = .ok { checkBodies := false } ∧
      ofOverrides Value.ofYaml m [Policy.precise.override] =
        .ok { policy := .precise, checkBodies := false } := by
  intro m
  have h : ofMapping m = .ok { checkBodies := false } := rfl
  exact ⟨h, (ofOverrides_policy (Policy.ofYaml_name _) h).1⟩

end Settings

/-- Options that stand in the mapping itself are lost when a policy is chosen. -/
theorem policy_hides_options :
    let m : Mapping := [(.text "check_bodies", .bool false)]
    Settings.ofMapping m = .ok { checkBodies := false } ∧
      Settings.ofOverrides Value.ofYaml m [Policy.precise.override] =
        .ok { policy := .precise, checkBodies := true } :=
  ⟨rfl, rfl⟩

end RaisingEffects
