import RaisingEffects.Proofs.Verdict.Bodies

/-!
# The types that a verdict names

Every effect that a verdict records names a type of errors, with one exception: the target of a
forwarding function that converts is taken as it is written. `Program.check_names_errors` says so,
and says what becomes of clauses that name something else. `conversion_names_no_error` is a source
in which the exception occurs, and nothing is reported.
-/

namespace RaisingEffects

open Analysis

/-- The first type in a clause that is refused, because it is no error. -/
def Clause.refused? {α : Type} (isError : String → Bool) (clause : Clause α) : Option String :=
  clause.types.find? fun type => type != neverType && !isError type

/-- Every effect that a verdict records at a function, at a member, in a body or in the table names
a type only if it has the property. -/
structure Verdict.NamesOnly (T : String → Prop) (v : Verdict) : Prop where
  table : ∀ name e, v.effects.get? name = some e → e.Names T
  function : ∀ g ∈ v.program.functions, (Node.function g).Carries (Effect.Names T)
  member : ∀ i ∈ v.program.interfaces, ∀ m ∈ i.members, (Node.member m).Carries (Effect.Names T)
  body : ∀ n ∈ v.program.walk, n.inBody = true → n.Carries (Effect.Names T)

/-- What a verdict makes of clauses that name something which is no error. Members and functions
that forward nothing are reported at the clause and raise anything. A function that forwards
converts to the type, or else its rule is reported, and it raises anything. -/
structure Verdict.RefusesClauses (isError : String → Bool) (v : Verdict) : Prop where
  member : ∀ i ∈ v.program.interfaces, ∀ m ∈ i.members, ∀ clause type, m.clause = some clause →
    clause.refused? isError = some type →
    m.loc.effect = some .raisesAny ∧
      ⟨.clauseNotError type, some (memberName i.name m.name), some clause.loc.span.start⟩ ∈
        v.diagnostics
  function : ∀ g ∈ v.program.functions, ∀ clause type, g.forwards = [] → g.clause = some clause →
    clause.refused? isError = some type →
    g.loc.effect = some .raisesAny ∧ v.effects.get? g.name = some .raisesAny ∧
      ⟨.clauseNotError type, some g.name, some clause.loc.span.start⟩ ∈ v.diagnostics
  forwarding : ∀ g ∈ v.program.functions, ∀ clause type, g.forwards ≠ [] → g.clause = some clause →
    clause.types.head? = some type → isError type = false →
    ((g.map Note.span).conversionTarget? isError = some type ∧
      (g.loc.effect = some (.raises type) ∨ g.loc.effect = some .raisesAny)) ∨
    (g.loc.effect = some .raisesAny ∧ v.effects.get? g.name = some .raisesAny ∧
      ∃ d ∈ v.diagnostics, d.cause.ofForwarding = true ∧ d.function = some g.name)

/-! ## Clauses -/

section Clauses

variable {isError : String → Bool} {type : String}

theorem Effect.ofClause_of_refused {α : Type} {clause : Clause α}
    (h : clause.refused? isError = some type) :
    Effect.ofClause isError ((some clause).map Clause.types) = .error type := by
  unfold Clause.refused? at h
  rw [Option.map_some]
  unfold Effect.ofClause
  split
  · contradiction
  · rename_i heq
    rw [Option.some.inj heq] at h
    cases h
  · rename_i heq
    obtain rfl := Option.some.inj heq
    rw [h]

theorem Clause.declared_of_refused {α : Type} {clause : Clause α}
    (h : clause.refused? isError = some type) :
    Clause.declared isError (some clause) = .raisesAny := by
  unfold Clause.declared
  rw [Effect.ofClause_of_refused h]

theorem Clause.fault?_of_refused {clause : Clause Span} (h : clause.refused? isError = some type) :
    Clause.fault? isError (some clause) =
      some { cause := .clauseNotError type, pos := some clause.loc.start } := by
  unfold Clause.fault?
  rw [Effect.ofClause_of_refused h]
  rfl

end Clauses

namespace Verdict.Bodies

variable {isError : String → Bool} {settings : Settings} {p : Program Span}
  {skipped : List Ambiguity} {v : Verdict} (h : v.Bodies isError settings p skipped)

include h

/-- What is noted about the signature of a function is reported in the end. -/
theorem mem_log {g : FunDecl Span} (hg : g ∈ p.functions) {entry : LogEntry}
    (hentry : entry ∈ g.entries isError) : (some g.name, entry) ∈ v.log := by
  refine h.log.subset (List.mem_append_right _ ?_)
  exact List.mem_flatMap.2 ⟨g, hg, List.mem_map_of_mem hentry⟩

theorem mem_log_member {i : Interface Span} (hi : i ∈ p.interfaces) {m : Member Span}
    (hm : m ∈ i.members) {w : Violation} (hw : Clause.fault? isError m.clause = some w) :
    (some (memberName i.name m.name), .violation w) ∈ v.log := by
  refine h.log.subset (List.mem_append_left _ (List.mem_append_right _ ?_))
  refine List.mem_flatMap.2 ⟨i, hi, List.mem_flatMap.2 ⟨m, hm, ?_⟩⟩
  rw [Member.log, hw]
  exact List.mem_singleton.2 rfl

theorem effect_of_raisesAny {g : FunDecl Note} (hg : g ∈ v.program.functions)
    (hbinding : ((g.map Note.span).binding isError).effect = .raisesAny) :
    g.loc.effect = some .raisesAny := by
  obtain ⟨b, -, heffect, -⟩ := (h.judged g hg).effects
  rw [heffect, hbinding, Effect.judged_raisesAny]

theorem namesOnly (hcovers : v.Covers isError settings.checkBodies p) (hp : p.WellNamed) :
    v.NamesOnly (ErrorType isError p.functions) := by
  have hfunction {g : FunDecl Note} (hg : g ∈ v.program.functions) :
      (Node.function g).Carries (Effect.Names (ErrorType isError p.functions)) := by
    intro e he
    obtain ⟨b, -, heffect, -⟩ := (h.judged g hg).effects
    cases heffect.symm.trans he
    have hmem := hcovers.mem_functions hg
    have hsound : ((g.map Note.span).binding isError).Sound (.all isError p.functions []) :=
      .of_function hmem (hp.functions _ hmem)
    rcases Effect.judged_eq_or settings.checkBodies
      ((g.map Note.span).binding isError).effect b with hj | hj
    · rw [hj]
      exact hsound.names.mono fun _ => And.right
    · rw [hj]
      exact .raisesAny
  have hmember {i : Interface Note} (hi : i ∈ v.program.interfaces) {m : Member Note}
      (hm : m ∈ i.members) :
      (Node.member m).Carries (Effect.Names (ErrorType isError p.functions)) := by
    intro e he
    rw [h.interfaces] at hi
    obtain ⟨i, -, rfl⟩ := List.mem_map.1 hi
    obtain ⟨m, -, rfl⟩ := List.mem_map.1 hm
    obtain rfl : _ = e := Option.some.inj he
    exact (Clause.declared_names m.clause).mono fun _ h => .inl h.1
  refine ⟨fun name e he => ?_, fun g hg => hfunction hg, fun i hi m hm => hmember hi hm, ?_⟩
  · rw [hcovers.effects] at he
    rcases List.mem_append.1 (Table.mem_ofEntries (Table.mem_of_get? he)) with hmem | hmem
    · obtain ⟨i, hi, hmem⟩ := List.mem_flatMap.1 hmem
      obtain ⟨m, hm, heq⟩ := List.mem_map.1 hmem
      obtain ⟨-, rfl⟩ := Prod.mk.inj heq
      exact .getD (hmember hi hm)
    · obtain ⟨g, hg, heq⟩ := List.mem_map.1 hmem
      obtain ⟨-, rfl⟩ := Prod.mk.inj heq
      exact .getD (hfunction hg)
  · intro n hn hbody
    refine fun e he => ((h.walked.noted n (Program.mem_bodies hn hbody) ?_).1 e he).mono
      fun _ => And.right
    cases hsig : n.ofSignature with
    | false => rfl
    | true =>
      rw [Node.inBody_of_ofSignature hsig] at hbody
      cases hbody

theorem refusesClauses (hcovers : v.Covers isError settings.checkBodies p) (hp : p.WellNamed) :
    v.RefusesClauses isError where
  member := by
    intro i hi m hm clause type hclause hrefused
    rw [h.interfaces] at hi
    obtain ⟨i, hi', rfl⟩ := List.mem_map.1 hi
    obtain ⟨m, hm', rfl⟩ := List.mem_map.1 hm
    obtain ⟨clause, hclause', rfl⟩ := Option.map_eq_some_iff.1 hclause
    have hrefused' : clause.refused? isError = some type := hrefused
    constructor
    · show some (Clause.declared isError m.clause) = _
      rw [hclause', Clause.declared_of_refused hrefused']
    · have hfault := Clause.fault?_of_refused hrefused'
      rw [← hclause'] at hfault
      exact mem_diagnosticsOf.2 ⟨_, _, h.mem_log_member hi' hm' hfault, rfl⟩
  function := by
    intro g hg clause type hforwards hclause hrefused
    have hclause' : (g.map Note.span).clause = some (clause.map Note.span) := by
      rw [FunDecl.map, hclause]
      rfl
    have hrefused' : (clause.map Note.span).refused? isError = some type := hrefused
    have heffect : ((g.map Note.span).binding isError).effect = .raisesAny := by
      rw [FunDecl.binding_effect_of_clause isError hforwards, hclause',
        Clause.declared_of_refused hrefused']
    have hg' := h.effect_of_raisesAny hg heffect
    have hfault := Clause.fault?_of_refused hrefused'
    rw [← hclause'] at hfault
    have hentry := FunDecl.mem_entries_of_clause isError hforwards hfault
    refine ⟨hg', hcovers.get?_effects hg hp hg', ?_⟩
    exact mem_diagnosticsOf.2 ⟨_, _, h.mem_log (hcovers.mem_functions hg) hentry, rfl⟩
  forwarding := by
    intro g hg clause type hforwards hclause hhead herror
    cases hresolve : resolveFunction (g.map Note.span) ((g.map Note.span).declaredEffects isError)
      with
    | error w =>
      have hg' := h.effect_of_raisesAny hg
        (FunDecl.binding_effect_of_error isError hforwards hresolve)
      have hentry := FunDecl.mem_entries_of_error isError hforwards hresolve
      refine .inr ⟨hg', hcovers.get?_effects hg hp hg', .ofViolation (some g.name) w, ?_,
        ofForwarding_of_error hresolve, rfl⟩
      exact mem_diagnosticsOf.2 ⟨_, _, h.mem_log (hcovers.mem_functions hg) hentry, rfl⟩
    | ok resolved =>
      obtain ⟨f, e⟩ := resolved
      have htarget : f.target = some type := by
        rw [Forwarding.target_of_ofFunction (resolveFunction_eq_ok hresolve).1, FunDecl.map,
          hclause]
        exact hhead
      -- a type that is passed through is an error
      have hconverts : f.converts = true := by
        cases hf : f.converts with
        | true => rfl
        | false =>
          rw [Forwarding.isError_of_passed hresolve htarget hf] at herror
          cases herror
      refine .inl ⟨(Forwarding.conversionTarget?_of_converts hresolve hconverts).trans htarget, ?_⟩
      have heffect := FunDecl.binding_effect_of_ok isError hforwards hresolve
      rw [Forwarding.eq_raises_of_resolve htarget (resolveFunction_eq_ok hresolve).2] at heffect
      obtain ⟨b, -, hg', -⟩ := (h.judged g hg).effects
      rw [heffect] at hg'
      rw [hg']
      exact (Effect.judged_eq_or settings.checkBodies _ b).imp (congrArg some) (congrArg some)

end Verdict.Bodies

/-! ## Sources -/

/-- **Recorded effects name types of errors, or targets of conversions.** -/
theorem Program.check_names_errors {source : String} {r : Reading}
    (h : Program.parse source = .ok r) (settings : Settings) (isError : String → Bool) :
    ∃ v, r.program.check settings isError r.skipped = .ok v ∧
      v.program.map Note.span = r.program ∧
      v.NamesOnly (ErrorType isError r.program.functions) ∧ v.RefusesClauses isError := by
  have hp := Program.parse_wellNamed h
  obtain ⟨v, hv, hcovers, hbodies⟩ := Program.check_bodies hp settings isError r.skipped
  exact ⟨v, hv, hcovers.shape, hbodies.namesOnly hcovers hp, hbodies.refusesClauses hcovers hp⟩

/-- A source with clauses that name a type which is no error: at a member, at a function, at one
that passes a parameter through, and at one that converts. -/
def refusedSource : String :=
  "error E; type X;
interface Source \x7b fn next() raises(X); \x7d
fn plain() raises(X) \x7b print(1); \x7d
fn pass(g: fn() raises(E)) forwards(g) raises(X) \x7b g(); \x7d
fn convert(g: fn() raises(E)) forwards(g) raises(X) \x7b
  try \x7b g(); \x7d catch \x7b print(1); \x7d
\x7d"

set_option maxRecDepth 8192 in
theorem Program.check_names_errors_refused :
    ∃ r v, Program.parse refusedSource = .ok r ∧ r.program.declaresError "X" = false ∧
      r.program.check {} r.program.declaresError r.skipped = .ok v ∧
      v.effects.get? "convert" = some (.raises "X") ∧
      ErrorType r.program.declaresError r.program.functions "X" ∧
      v.RefusesClauses r.program.declaresError := by
  obtain ⟨r, v, hr, hv, hX, hconvert⟩ := Program.exists_verdict refusedSource {} (fun r v =>
    r.program.declaresError "X" = false ∧ v.effects.get? "convert" = some (.raises "X")) rfl
      (by decide +kernel)
  obtain ⟨v', hv', -, hnames, hrefuses⟩ :=
    Program.check_names_errors hr {} r.program.declaresError
  cases hv.symm.trans hv'
  exact ⟨r, v, hr, hX, hv, hconvert, hnames.table _ _ hconvert _ rfl, hrefuses⟩

/-! ## A conversion to no error -/

/-- A function that converts to a type which is no error. -/
def conversionSource : String :=
  "error E; type X;
fn f(g: fn() raises(E)) forwards(g) raises(X) \x7b
  try \x7b g(); \x7d catch \x7b print(1); \x7d
\x7d"

/-- A recorded effect names a type that is no error, and nothing is reported. -/
theorem conversion_names_no_error :
    ∃ r v, Program.parse conversionSource = .ok r ∧
      r.program.check {} r.program.declaresError r.skipped = .ok v ∧
      v.effects.get? "f" = some (.raises "X") ∧ r.program.declaresError "X" = false ∧
      v.diagnostics = [] :=
  Program.exists_verdict conversionSource {} _ rfl (by decide +kernel)

end RaisingEffects
