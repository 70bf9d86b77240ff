import RaisingEffects.Proofs.Analysis.Lookups
import RaisingEffects.Proofs.Verdict.Bodies

/-!
# Names that have a meaning

What a source must declare to be read is what its check knows: wherever a body mentions a name, the
check has a meaning for it, unless the name is known without a declaration or is only the name of an
interface member there. The reader lets members be called by their bare names, but the check never
gives these names a meaning, so that such a call counts as one that raises nothing
(`member_without_meaning`).
-/

namespace RaisingEffects

open Analysis

/-! ## Functions -/

section Functions

variable {c : Context} {pairs : List (FunDecl Span × Signature)}

/-- Names stay bound while functions are analysed, and each function finds the names that it
mentions, if those that it relies on are bound before the first. -/
theorem FunDecl.AnalysedAll.resolved {checkBodies : Bool} {s s' : AnalysisState} {vs : List Visit}
    {gs : List (FunDecl Note)} (hc : c.Collects) (h : AnalysedAll c checkBodies s pairs vs gs s')
    {free known : List String} (hs : s.env.Binds free known) (hpairs : ∀ pair ∈ pairs,
      pair.1.WellFormed known ∧ pair.2.params.length = pair.1.params.length) :
    ∀ v ∈ vs, ∃ pair ∈ pairs, v.context.function = some pair.1.name ∧
      ∀ free known, pair.1.WellFormed known → s.env.Binds free known → v.Resolves free := by
  induction h with
  | nil => simp
  | @cons s s₁ _ g sig _ _ _ _ _ hbody _ ih =>
    obtain ⟨⟨hg, hsig⟩, hrest⟩ := List.forall_mem_cons.1 hpairs
    have hresolved {free known : List String} (hg : g.WellFormed known)
        (hs : s.env.Binds free known) := hbody.resolved (hc.within g.name) hg.body
      (hs.enter.defineAll (by simpa using hsig) : (s.opened _).env.Binds free _)
    have hgrows : s.env.Grows s₁.closed.env :=
      ((hresolved hg hs).after_quiet (s := s.opened []) (.defineAll _ _)).grows.pop
    have hcourse : Course _ _ [] 1 _ s₁ _ _ := hbody.course (hc.within g.name) 1 (by simp)
    refine List.forall_mem_append.2 ⟨fun v hv => ?_, fun v hv => ?_⟩
    · refine ⟨_, List.mem_cons_self, by rw [hcourse.contexts v hv], fun free known hg hs => ?_⟩
      exact (hresolved hg hs).found v hv
    · obtain ⟨pair, hpair, hfunction, hfound⟩ := ih (hs.mono hgrows) hrest v hv
      exact ⟨pair, List.mem_cons_of_mem _ hpair, hfunction,
        fun free known hg hs => hfound free known hg (hs.mono hgrows)⟩

theorem FunDecl.visited (hc : c.Collects) (checkBodies : Bool) {pair : FunDecl Span × Signature}
    (hpair : pair ∈ pairs) {n : Node Span} (hn : n ∈ pair.1.body.walk)
    (hsig : n.ofSignature = false) (s : AnalysisState) :
    ∃ v ∈ FunDecl.visitsAll c checkBodies pairs s,
      v.context = { c with function := some pair.1.name } ∧ v.node = n := by
  induction pairs generalizing s with
  | nil => cases hpair
  | cons first rest ih =>
    rcases List.mem_cons.1 hpair with rfl | hpair
    · obtain ⟨v, hv, h⟩ := Block.visited (hc.within pair.1.name) hn hsig _
      exact ⟨v, List.mem_append_left _ hv, h⟩
    · obtain ⟨v, hv, h⟩ := ih hpair _
      exact ⟨v, List.mem_append_right _ hv, h⟩

end Functions

/-! ## Programs -/

namespace Program

variable {isError : String → Bool} {p : Program Span}

theorem exists_signed (isError : String → Bool) {g : FunDecl Span} (hg : g ∈ p.functions) :
    ∃ sig, (g, sig) ∈ p.signed isError := by
  rw [← map_fst_signed p] at hg
  obtain ⟨⟨_, sig⟩, hmem, rfl⟩ := List.mem_map.1 hg
  exact ⟨sig, hmem⟩

/-- The declarations of a program give a meaning to all that it makes known but for the names of
members. -/
theorem seeded_binds (p : Program Span) (skipped : List Ambiguity) (known : List String) :
    (p.seeded isError skipped).env.Binds (known.filter (· ∉ p.declared)) known := by
  intro name hknown
  by_cases hname : name ∈ p.declared
  · refine .inr (Env.isSome_defineAll [[]] ?_)
    simp only [declarations, declared, List.map_append, List.map_map, List.mem_append] at hname ⊢
    exact (or_assoc.1 hname).symm
  · exact .inl (List.mem_filter.2 ⟨hknown, decide_eq_true hname⟩)

/-- The visits of a check resolve the names that their functions rely on. -/
theorem visits_resolved (hp : p.WellFormed) (settings : Settings) (skipped : List Ambiguity) :
    ∀ w ∈ p.visits isError settings skipped, ∃ g ∈ p.functions,
      w.context.function = some g.name ∧
        ∀ known, g.WellFormed known → w.Resolves (known.filter (· ∉ p.declared)) := by
  have hpairs : ∀ pair ∈ p.signed isError, pair.1.WellFormed (p.globals ++ builtins) ∧
      pair.2.params.length = pair.1.params.length := by
    intro pair hpair
    obtain ⟨hmem, id, hsig⟩ := of_mem_signed hpair
    exact ⟨hp.functions pair.1 hmem, by rw [hsig]; exact Param.length_bindings _ id _⟩
  obtain ⟨gs, s, -, h⟩ := p.derives settings isError skipped
  intro w hw
  obtain ⟨pair, hpair, hfunction, hfound⟩ :=
    h.resolved ⟨rfl, fun _ => rfl⟩ (p.seeded_binds skipped _) hpairs w hw
  exact ⟨pair.1, (of_mem_signed hpair).1, hfunction,
    fun known hg => hfound _ known hg (p.seeded_binds skipped known)⟩

end Program

/-- **The check has a meaning for every name that it comes to.** Every part of a body that mentions
a name is visited as part of its function, and where a visited part looks its name up, the name is
bound, unless it is known without a declaration or is the name of an interface member. The name of
a member is bound too if it is also that of a declaration, or if its function relies on no
declaration of it. -/
theorem Program.check_resolves {source : String} {r : Reading} (h : Program.parse source = .ok r)
    (settings : Settings) (isError : String → Bool) :
    (∃ v, r.program.check settings isError r.skipped = .ok v) ∧
    (∀ g ∈ r.program.functions, ∀ n ∈ g.body.walk, n.mention?.isSome →
      ∃ w ∈ r.program.visits isError settings r.skipped,
        w.context.function = some g.name ∧ w.node = n) ∧
    ∀ w ∈ r.program.visits isError settings r.skipped, ∀ name ∈ w.node.mention?,
      name ∉ builtins →
      (name ∈ r.program.memberNames → name ∈ r.program.declared ∨
        ∀ g ∈ r.program.functions, w.context.function = some g.name →
          g.WellFormed ((r.program.globals ++ builtins).filter (· ≠ name))) →
      (w.scopes.lookup name).isSome := by
  obtain ⟨tokens, hlex, hread⟩ := Program.exists_tokens h
  have hp := Program.ofTokens_wellFormed hlex hread
  obtain ⟨v, hv, -⟩ := r.program.check_run settings isError r.skipped
  refine ⟨⟨v, hv⟩, fun g hg n hn hmention => ?_, fun w hw name hname hbuiltin hmember => ?_⟩
  · have hsig : n.ofSignature = false := by
      cases n with
      | clause => cases hmention
      | type => cases hmention
      | _ => rfl
    obtain ⟨sig, hpair⟩ := exists_signed isError hg
    obtain ⟨w, hw, hcontext, hnode⟩ := FunDecl.visited
      (c := { policy := settings.policy, isError }) ⟨rfl, fun _ => rfl⟩ settings.checkBodies hpair
      hn hsig (r.program.seeded isError r.skipped)
    exact ⟨w, hw, by rw [hcontext], hnode⟩
  · obtain ⟨g, hg, hfunction, hfound⟩ := visits_resolved hp settings r.skipped w hw
    -- The name is bound, or one of the names that the function relies on is only a member's.
    have hresolves {known : List String} (hwf : g.WellFormed known)
        (hno : name ∉ known ∨ name ∈ r.program.declared) : (w.scopes.lookup name).isSome := by
      refine (hfound known hwf name hname).resolve_left fun hmem => ?_
      obtain ⟨hknown, hfree⟩ := List.mem_filter.1 hmem
      exact hno.elim (fun h => h hknown) fun h => absurd h (by simpa using hfree)
    have hown := hp.functions g hg
    by_cases hmem : name ∈ r.program.memberNames
    · rcases hmember hmem with hdeclared | hwf
      · exact hresolves hown (.inr hdeclared)
      · exact hresolves (hwf g hg hfunction) (.inl (by simp))
    · by_cases hdeclared : name ∈ r.program.declared
      · exact hresolves hown (.inr hdeclared)
      · exact hresolves hown (.inl (by simp [Program.globals, hmem, hdeclared, hbuiltin]))

/-! ## Sources -/

/-- A source that mentions a function before its declaration, an error, parameters, a loop variable,
a caught error, names that `let` shadows, and the name of a member, once where something else is
bound to it. -/
def shadowSource : String := "error E; interface I \x7b fn m(); \x7d
fn main(xs) raises \x7b
  for x in xs \x7b let xs = [x, m]; xs.append(later); len(xs); \x7d
  try \x7b raise E(); \x7d catch e \x7b let f = |a| a; f = later; f(e); raise e; \x7d
\x7d
fn later() \x7b let m = main; m(later); \x7d"

set_option maxRecDepth 8192 in
theorem Program.check_resolves_shadow :
    ∃ r w, Program.parse shadowSource = .ok r ∧
      w ∈ r.program.visits r.program.declaresError {} r.skipped ∧
      w.context.function = some "later" ∧ w.node.mention? = some "m" ∧ "m" ∉ builtins ∧
      (∀ g ∈ r.program.functions, w.context.function = some g.name →
        g.WellFormed ((r.program.globals ++ builtins).filter (· ≠ "m"))) ∧
      (w.scopes.lookup "m").isSome := by
  obtain ⟨r, hr, w, hw, hfunction, hname, hown⟩ := Program.exists_reading shadowSource (fun r =>
    ∃ w ∈ r.program.visits r.program.declaresError {} r.skipped,
      w.context.function = some "later" ∧ w.node.mention? = some "m" ∧
      ∀ g ∈ r.program.functions, w.context.function = some g.name →
        g.WellFormed ((r.program.globals ++ builtins).filter (· ≠ "m"))) rfl (by decide +kernel)
  have hbuiltin : "m" ∉ builtins := by decide
  obtain ⟨-, -, hbound⟩ := Program.check_resolves hr {} r.program.declaresError
  exact ⟨r, w, hr, hw, hfunction, hname, hbuiltin, hown,
    hbound w hw "m" hname hbuiltin fun _ => .inr hown⟩

/-- A call of a member that raises. -/
def memberCallSource : String :=
  "error E; interface I \x7b fn m() raises(E); \x7d fn f() \x7b m(); \x7d"

/-- A member's name has no meaning where it is called, and nothing is reported: its effect is
lost. -/
theorem member_without_meaning :
    ∃ r v w, Program.parse memberCallSource = .ok r ∧
      r.program.check {} r.program.declaresError r.skipped = .ok v ∧
      w ∈ r.program.visits r.program.declaresError {} r.skipped ∧
      w.node.mention? = some "m" ∧ "m" ∉ builtins ∧ w.scopes.lookup "m" = none ∧
      v.effects.get? "I.m" = some (.raises "E") ∧ v.effects.get? "f" = some .nothrow ∧
      v.diagnostics = [] := by
  obtain ⟨r, v, hr, hv, w, hw, hmention⟩ := Program.exists_verdict memberCallSource {} (fun r v =>
    ∃ w ∈ r.program.visits r.program.declaresError {} r.skipped,
      w.node.mention? = some "m" ∧ "m" ∉ builtins ∧ w.scopes.lookup "m" = none ∧
      v.effects.get? "I.m" = some (.raises "E") ∧ v.effects.get? "f" = some .nothrow ∧
      v.diagnostics = []) rfl (by decide +kernel)
  exact ⟨r, v, w, hr, hv, hw, hmention⟩

end RaisingEffects
