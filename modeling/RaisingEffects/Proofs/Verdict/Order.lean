import RaisingEffects.Proofs.Verdict.Alone

/-!
# The order of functions

Functions may be declared in any order, since all signatures are read before any body. The bodies
share the scope with the declarations, though, and an assignment that does not fit changes it for
the bodies after it. `Program.check_order` says that this is all that can make a difference: a
program whose check reports assignments to the names of functions only where these are names of
local variables gets the same verdict with its functions in any other order.
`reassigned_function_order` is a source where the order matters.
-/

namespace RaisingEffects

open Analysis

/-- The verdicts agree in all but the order of functions and the numbers of collections: the notes
at functions, those of their effects and of the effects of their bodies among them, the effects in
the tables, and the diagnostics, as often as each of them is reported. -/
structure Verdict.Agrees (v v' : Verdict) : Prop where
  functions : (v.program.functions.map (·.map Note.unnumbered)).Perm
    (v'.program.functions.map (·.map Note.unnumbered))
  effects : ∀ name, v.effects.get? name = v'.effects.get? name
  diagnostics : v.diagnostics.Perm v'.diagnostics

/-! ## The scope with the declarations -/

namespace Program

variable (isError : String → Bool)

def scope (p : Program Span) : Table Binding := .ofEntries (p.declarations isError)

theorem scope_declares (p : Program Span) :
    (p.scope isError).Declares (p.functions.map FunDecl.name) where
  plain := by
    intro entry hentry
    rcases List.mem_append.1 (Table.mem_ofEntries hentry) with h | h
    · obtain ⟨d, -, rfl⟩ := List.mem_map.1 h
      rfl
    · obtain ⟨g, -, rfl⟩ := List.mem_map.1 h
      exact g.binding_aggregate isError
  callables := by
    intro name b hb hkind
    rcases List.mem_append.1 (Table.mem_ofEntries (Table.mem_of_get? hb)) with h | h
    · obtain ⟨d, -, heq⟩ := List.mem_map.1 h
      cases heq
      cases hkind
    · obtain ⟨g, hg, heq⟩ := List.mem_map.1 h
      cases heq
      exact List.mem_map_of_mem hg

variable {p : Program Span} {gs : List (FunDecl Span)}

/-- Whatever the order of the functions, their bodies are checked in a scope with the same meanings,
and start with the first. -/
theorem seeded_awaits (hnodup : (p.functions.map FunDecl.name).Nodup)
    (hperm : gs.Perm p.functions) (skipped : List Ambiguity) :
    (Program.seeded isError { p with functions := gs } skipped).Awaits isError (p.scope isError) 0
      gs where
  env := by
    refine ⟨_, Env.defineAll_cons [] [] _, fun name => ?_⟩
    refine (Table.get?_ofEntries_perm _ (hperm.symm.map _) ?_ name).symm
    rwa [List.map_map]
  candidates := rfl
  bound := by
    rw [Nat.zero_add]
    exact Nat.le_refl _
  aggregates := by
    intro i _
    rw [Nat.zero_add]
    rfl

/-- **Every order of the functions gives the verdict that each function gets alone,** if each of
them leaves the scope with the declarations as it was. -/
theorem check_alone (hnodup : (p.functions.map FunDecl.name).Nodup) (settings : Settings)
    (skipped : List Ambiguity) (hperm : gs.Perm p.functions)
    (hleaves : ∀ g ∈ p.functions, g.LeavesScope { policy := settings.policy, isError }
      settings.checkBodies (p.scope isError)) :
    ∃ v, Program.check { p with functions := gs } settings isError skipped = .ok v ∧
      v.program.interfaces = p.interfaces.map (Interface.noted isError) ∧
      v.program.functions.map (fun g => some (g.map Note.unnumbered)) = gs.map
        (FunDecl.outcome? { policy := settings.policy, isError } settings.checkBodies
          (p.scope isError)) ∧
      v.log = p.openingLog isError skipped ++ signatureLog isError gs ++ gs.flatMap
        (FunDecl.aloneLog { policy := settings.policy, isError } settings.checkBodies
          (p.scope isError)) := by
  have hc : Context.Collects { policy := settings.policy, isError } := ⟨rfl, fun _ => rfl⟩
  obtain ⟨gs', t', hrun, hlog, houtcome⟩ := checkFunctions_alone hc settings.checkBodies
    (p.scope_declares isError) (fun g hg => hleaves g (hperm.mem_iff.1 hg))
    (seeded_awaits isError hnodup hperm skipped)
  exact ⟨_, check_eq_of_run hrun, rfl, houtcome.symm, hlog⟩

end Program

/-! ## Verdicts -/

/-- Tables of effects agree if the functions do. -/
theorem Analysis.effectTable_perm {interfaces : List (Interface Note)}
    {gs gs' : List (FunDecl Note)}
    (h : (gs.map (·.map Note.unnumbered)).Perm (gs'.map (·.map Note.unnumbered)))
    (hnodup : (gs.map FunDecl.name).Nodup) (name : String) :
    (effectTable interfaces gs).get? name = (effectTable interfaces gs').get? name := by
  have hentries := h.map fun g => (g.name, g.loc.effect.getD .nothrow)
  rw [List.map_map, List.map_map] at hentries
  refine Table.get?_ofEntries_perm _ hentries ?_ name
  rwa [List.map_map]

namespace Program

variable {isError : String → Bool} {settings : Settings} {p : Program Span}
  {skipped : List Ambiguity} {v : Verdict}

/-- If each function for which an assignment to the name of a function is reported leaves the scope
with the declarations as it was, then so do all functions. -/
theorem leavesScope_of_check (hnodup : (p.functions.map FunDecl.name).Nodup)
    (hv : p.check settings isError skipped = .ok v)
    (hquiet : ∀ d ∈ v.diagnostics, ∀ g ∈ p.functions, d.cause.reassigned? = some g.name →
      ∀ f ∈ p.functions, d.function = some f.name → f.LeavesScope
        { policy := settings.policy, isError } settings.checkBodies (p.scope isError)) :
    ∀ g ∈ p.functions, g.LeavesScope { policy := settings.policy, isError }
      settings.checkBodies (p.scope isError) := by
  have hc : Context.Collects { policy := settings.policy, isError } := ⟨rfl, fun _ => rfl⟩
  obtain ⟨gs', t', hrun, -⟩ := p.derives settings isError skipped
  cases (check_eq_of_run hrun).symm.trans hv
  refine leavesScope_of_run hc settings.checkBodies (p.scope_declares isError)
    (seeded_awaits isError hnodup (.refl _) skipped) hrun ?_
  rintro f hf ⟨w, hw, name, hname, hcause⟩
  obtain ⟨g, hg, rfl⟩ := List.mem_map.1 hname
  exact hquiet _ (mem_diagnosticsOf.2 ⟨_, w, hw, rfl⟩) g hg hcause f hf rfl

theorem agrees_of_leavesScope (hnodup : (p.functions.map FunDecl.name).Nodup)
    (hleaves : ∀ g ∈ p.functions, g.LeavesScope { policy := settings.policy, isError }
      settings.checkBodies (p.scope isError))
    {gs : List (FunDecl Span)} (hperm : gs.Perm p.functions) {v' : Verdict}
    (hv : p.check settings isError skipped = .ok v)
    (hcovers : v.Covers isError settings.checkBodies p)
    (hv' : Program.check { p with functions := gs } settings isError skipped = .ok v')
    (hcovers' : v'.Covers isError settings.checkBodies { p with functions := gs }) :
    v.Agrees v' := by
  obtain ⟨w, hw, hinterfaces, hfunctions, hlog⟩ :=
    check_alone isError hnodup settings skipped (.refl _) hleaves
  cases hv.symm.trans hw
  obtain ⟨w', hw', hinterfaces', hfunctions', hlog'⟩ :=
    check_alone isError hnodup settings skipped hperm hleaves
  cases hv'.symm.trans hw'
  have hsame : (v.program.functions.map (·.map Note.unnumbered)).Perm
      (v'.program.functions.map (·.map Note.unnumbered)) := by
    have houtcomes := hperm.symm.map (FunDecl.outcome? { policy := settings.policy, isError }
      settings.checkBodies (p.scope isError))
    rw [← hfunctions, ← hfunctions'] at houtcomes
    simpa only [List.filterMap_map, Function.comp_def, id, List.filterMap_eq_map'] using
      houtcomes.filterMap id
  have hlogs : v.log.Perm v'.log := by
    rw [hlog, hlog']
    exact ((List.Perm.refl _).append (hperm.symm.flatMap_right _)).append
      (hperm.symm.flatMap_right _)
  refine ⟨hsame, fun name => ?_, hlogs.filterMap _⟩
  rw [hcovers.effects, hcovers'.effects, hinterfaces, hinterfaces']
  exact effectTable_perm hsame (hcovers.names ▸ hnodup) name

end Program

/-- **The order of functions does not matter, unless an assignment to the name of a function is
reported,** by a function that has not bound the name itself. -/
theorem Program.check_order {source : String} {r : Reading} (h : Program.parse source = .ok r)
    (settings : Settings) (isError : String → Bool) {gs : List (FunDecl Span)}
    (hperm : gs.Perm r.program.functions) :
    ∃ v v', r.program.check settings isError r.skipped = .ok v ∧
      Program.check { r.program with functions := gs } settings isError r.skipped = .ok v' ∧
      ((∀ d ∈ v.diagnostics, ∀ g ∈ r.program.functions, d.cause.reassigned? = some g.name →
        ∀ f ∈ r.program.functions, d.function = some f.name → f.LeavesScope
          { policy := settings.policy, isError } settings.checkBodies (r.program.scope isError)) →
        v.Agrees v') := by
  have hnodup := (Program.parse_wellNamed h).nodup
  obtain ⟨v, hv, hcovers⟩ := r.program.check_run settings isError r.skipped
  obtain ⟨v', hv', hcovers'⟩ := Program.check_run { r.program with functions := gs } settings
    isError r.skipped
  refine ⟨v, v', hv, hv', fun hquiet => ?_⟩
  exact agrees_of_leavesScope hnodup (leavesScope_of_check hnodup hv hquiet) hperm hv hcovers hv'
    hcovers'

/-! ## Sources -/

/-- A source with collections, one of them a parameter, whose functions report a value that does not
fit a collection, a body that raises, and an assignment to a local name, which is also the name of a
function. -/
def hooksSource : String :=
  "error E;
fn risky() raises(E) \x7b raise E(); \x7d
fn collect(hooks: list<fn() raises(E)>) \x7b
  hooks.append(risky);
  for hook in hooks \x7b try \x7b hook(); \x7d catch \x7b print(1); \x7d \x7d
\x7d
fn reckless() \x7b let hooks = [|| 1]; hooks.append(risky); risky(); \x7d
fn main() \x7b let collect = || 1; collect = risky; \x7d"

set_option maxRecDepth 8192 in
theorem Program.check_order_hooks :
    ∃ r v v', Program.parse hooksSource = .ok r ∧
      r.program.check {} r.program.declaresError r.skipped = .ok v ∧
      Program.check { r.program with functions := r.program.functions.reverse } {}
        r.program.declaresError r.skipped = .ok v' ∧
      v.diagnostics.map (fun d => d.cause.reassigned?) = [none, none, some "collect"] ∧
      "collect" ∈ r.program.functions.map FunDecl.name ∧ v.Agrees v' := by
  obtain ⟨r, v, hr, hv, hcauses, hmem, hleaves⟩ := Program.exists_verdict hooksSource {}
    (fun r v => v.diagnostics.map (fun d => d.cause.reassigned?) = [none, none, some "collect"] ∧
      "collect" ∈ r.program.functions.map FunDecl.name ∧ ∀ f ∈ r.program.functions,
        f.LeavesScope { policy := .compatibility, isError := r.program.declaresError } true
          (r.program.scope r.program.declaresError)) rfl (by decide +kernel)
  obtain ⟨w, v', hw, hv', hagrees⟩ := Program.check_order hr {} r.program.declaresError
    r.program.functions.reverse_perm
  cases hv.symm.trans hw
  exact ⟨r, v, v', hr, hv, hv', hcauses, hmem, hagrees fun _ _ _ _ _ f hf _ => hleaves f hf⟩

/-! ## An assignment to a function -/

/-- A function that assigns a value which does not fit to the name of another, and a third that
calls the other. -/
def reassignedSource : String :=
  "error E;
fn h() \x7b print(1); \x7d
fn b() \x7b h = || \x7b raise E(); \x7d; \x7d
fn c() \x7b h(); \x7d"

/-- The order of functions changes the effect of a function, and what is reported. -/
theorem reassigned_function_order :
    ∃ r v v', Program.parse reassignedSource = .ok r ∧
      r.program.check {} r.program.declaresError r.skipped = .ok v ∧
      Program.check { r.program with functions := r.program.functions.reverse } {}
        r.program.declaresError r.skipped = .ok v' ∧
      v.effects.get? "c" = some .raisesAny ∧ v'.effects.get? "c" = some .nothrow ∧
      ¬v.diagnostics.Perm v'.diagnostics := by
  obtain ⟨r, v, hr, hv, v', hv', horder⟩ := Program.exists_verdict reassignedSource {} (fun r v =>
    ∃ v', Program.check { r.program with functions := r.program.functions.reverse } {}
        r.program.declaresError r.skipped = .ok v' ∧
      v.effects.get? "c" = some .raisesAny ∧ v'.effects.get? "c" = some .nothrow ∧
      ¬v.diagnostics.Perm v'.diagnostics) rfl (by decide +kernel)
  exact ⟨r, v, v', hr, hv, hv', horder⟩

end RaisingEffects
