import RaisingEffects.Proofs.Verdict.Bodies

/-!
# What diagnostics say

A diagnostic names functions, parameters and types, and makes none of them up: whatever it names is
written in the program, or is the name of a member made from two such names. So a property that the
written words have, and that making names of members keeps, holds of all that is said in the
diagnostics of a check (`Program.check_spelt`).

What is said about bodies was followed through the walk over them (`Program.checkFunctions_sound`).
What is left are the entries that the log has before.

* `Program.Worded W p skipped`: the words of the program have the property `W`.
* `Diagnostic.Spelt V d`: what the diagnostic says is in the vocabulary.
-/

namespace RaisingEffects

open Analysis

/-! ## Vocabularies of programs -/

/-- The words that are written in the program have the property, and so have those that were
skipped in it, the nouns of collections, and the names of members. -/
structure Program.Worded (W : String → Prop) (p : Program Span) (skipped : List Ambiguity) :
    Prop where
  names : ∀ x ∈ p.nodes.flatMap Node.names, W x
  skipped : ∀ a ∈ skipped, W a.word
  noun : ∀ kind : CollectionKind, W kind.noun
  member : ∀ interface name, W interface → W name → W (memberName interface name)

theorem Program.nodes_of_function {p : Program Span} {g : FunDecl Span} (hg : g ∈ p.functions) :
    g.nodes ⊆ p.nodes := by
  intro n hn
  simp only [Program.nodes, List.mem_cons, List.mem_append, List.mem_flatMap]
  exact .inr (.inl (.inl (.inl ⟨g, hg, hn⟩)))

theorem Program.nodes_of_interface {p : Program Span} {i : Interface Span}
    (hi : i ∈ p.interfaces) : i.nodes ⊆ p.nodes := by
  intro n hn
  simp only [Program.nodes, List.mem_cons, List.mem_append, List.mem_flatMap]
  exact .inr (.inr ⟨i, hi, hn⟩)

theorem Program.Worded.names_of_subset {W : String → Prop} {p : Program Span}
    {skipped : List Ambiguity} (h : p.Worded W skipped) {ns : List (Node Span)}
    (hns : ns ⊆ p.nodes) : ∀ x ∈ ns.flatMap Node.names, W x := by
  intro x hx
  obtain ⟨n, hn, hx⟩ := List.mem_flatMap.1 hx
  exact h.names x (List.mem_flatMap.2 ⟨n, hns hn, hx⟩)

/-- The vocabulary of a program, once its signatures are read. -/
def Program.Worded.vocabulary {W : String → Prop} {p : Program Span} {skipped : List Ambiguity}
    (h : p.Worded W skipped) (isError : String → Bool) : Vocabulary isError where
  functions := p.functions
  log := (p.seeded isError skipped).log
  Word := W
  named := fun _ hg => h.names_of_subset (Program.nodes_of_function hg)
  noun := h.noun

/-- What the diagnostic says, and of which function, is in the vocabulary. -/
structure Diagnostic.Spelt {isError : String → Bool} (V : Vocabulary isError) (d : Diagnostic) :
    Prop where
  function : ∀ f ∈ d.function, V.Word f
  cause : d.cause.Spelt V

/-! ## Signatures -/

section Signatures

variable {isError : String → Bool} {V : Vocabulary isError} {g : FunDecl Span}

theorem Analysis.spelt_of_error (hg : g ∈ V.functions) {v : Violation}
    (h : resolveFunction g (g.declaredEffects isError) = .error v) : v.cause.Spelt V := by
  have hwords : ∀ x ∈ g.name :: g.forwards, V.Word x := (Vocabulary.knows_cons.1 (V.named g hg)).1
  obtain ⟨hname, hforwards⟩ := List.forall_mem_cons.1 hwords
  rcases resolveFunction_eq_error h with rfl | ⟨f, hrule, hresolve⟩
  · exact hname
  · obtain ⟨target, name, e, htarget, hused, hv⟩ := Forwarding.resolve_eq_error hresolve
    obtain ⟨p, hp, -, rfl, rfl⟩ := Forwarding.exists_of_mem_raisingEffects hused
    have hparam : V.Word p.name := by
      rw [(Forwarding.ofFunction_eq_ok hrule).1] at hp
      obtain ⟨name, hname, rfl⟩ := List.mem_map.1 hp
      exact hforwards name hname
    have heffect : (Forwarding.effectOf (g.declaredEffects isError) p).Names V.Error := by
      rw [Forwarding.effectOf_of_ofFunction hrule hp]
      exact Forwarding.param_type hg hrule hp
    have hspelt : V.Word f.function ∧ V.Word p.name ∧ V.Word target ∧
        (Forwarding.effectOf (g.declaredEffects isError) p).Names V.Error :=
      ⟨Forwarding.function_of_ofFunction hrule ▸ hname, hparam,
        Forwarding.target_word hg hrule htarget, heffect⟩
    rcases hv with ⟨-, -, rfl⟩ | rfl
    · exact hspelt
    · exact hspelt

theorem FunDecl.entries_spelt (hg : g ∈ V.functions) :
    ∀ entry ∈ g.entries isError, entry.Spelt V := by
  have hknows : V.Knows g.nodes := V.named g hg
  intro entry hentry
  rcases List.mem_append.1 hentry with hparam | hrule
  · obtain ⟨p, hp, hentry⟩ := List.mem_flatMap.1 hparam
    have hnodes : p.nodes ⊆ g.nodes := by
      intro n hn
      refine List.mem_cons_of_mem _ (List.mem_append_left _ (List.mem_append_left _ ?_))
      exact List.mem_flatMap.2 ⟨p, hp, hn⟩
    exact (Param.entries_fair hknows hnodes entry hentry).2
  · unfold FunDecl.ruleEntries at hrule
    split at hrule
    · obtain ⟨v, hv, rfl⟩ := List.mem_map.1 hrule
      refine Clause.fault?_spelt hknows (fun c hc => ?_) (Option.mem_toList.1 hv)
      simp [FunDecl.nodes, FunDecl.signatureNodes, Option.mem_def.1 hc]
    · split at hrule
      · rcases List.mem_append.1 hrule with hjoin | hresolved
        · exact (Forwarding.joinEntries_fair hjoin).2
        · rw [List.mem_singleton.1 hresolved]
          trivial
      · rename_i hresolve
        rw [List.mem_singleton.1 hrule]
        exact spelt_of_error hg hresolve

theorem Member.clause_spelt {i : Interface Span} (hi : V.Knows i.nodes) {m : Member Span}
    (hm : m ∈ i.members) {v : Violation} (hv : Clause.fault? isError m.clause = some v) :
    v.cause.Spelt V := by
  refine Clause.fault?_spelt hi (fun c hc => ?_) hv
  refine List.mem_cons_of_mem _ (List.mem_flatMap.2 ⟨m, hm, ?_⟩)
  simp [Member.nodes, Option.mem_def.1 hc]

end Signatures

/-! ## Programs -/

section Programs

variable {W : String → Prop} {p : Program Span} {skipped : List Ambiguity}
  (h : p.Worded W skipped) (isError : String → Bool)

/-- What is noted before the bodies are analysed is in the vocabulary. -/
theorem Program.Worded.seeded_spelt {function : Option String} {entry : LogEntry}
    (hentry : (function, entry) ∈ (p.seeded isError skipped).log) :
    (∀ f ∈ function, W f) ∧ entry.Spelt (h.vocabulary isError) := by
  have hwords {ns : List (Node Span)} (hns : ns ⊆ p.nodes) : (h.vocabulary isError).Knows ns :=
    h.names_of_subset hns
  rcases List.mem_append.1 hentry with hopening | hsignature
  · rcases List.mem_append.1 hopening with hskipped | hmember
    · obtain ⟨a, ha, heq⟩ := List.mem_map.1 hskipped
      cases heq
      exact ⟨by simp, h.skipped a ha⟩
    · obtain ⟨i, hi, hmember⟩ := List.mem_flatMap.1 hmember
      obtain ⟨m, hm, hlog⟩ := List.mem_flatMap.1 hmember
      obtain ⟨v, hv, heq⟩ := List.mem_map.1 hlog
      cases heq
      have hknows := hwords (Program.nodes_of_interface hi)
      refine ⟨?_, Member.clause_spelt hknows hm (Option.mem_toList.1 hv)⟩
      have hinterface : W i.name :=
        hknows.name (n := .interface i) (List.mem_cons_self ..) (List.mem_singleton.2 rfl)
      have hname : W m.name := by
        refine hknows.name (n := .member m) ?_ (List.mem_singleton.2 rfl)
        exact List.mem_cons_of_mem _ (List.mem_flatMap.2 ⟨m, hm, List.mem_cons_self ..⟩)
      simpa using h.member _ _ hinterface hname
  · obtain ⟨g, hg, hentries⟩ := List.mem_flatMap.1 hsignature
    obtain ⟨entry, hentry, heq⟩ := List.mem_map.1 hentries
    cases heq
    have hname : W g.name := (hwords (Program.nodes_of_function hg)).name (n := .function g)
      (List.mem_cons_self ..) (List.mem_cons_self ..)
    exact ⟨by simpa using hname,
      FunDecl.entries_spelt (V := h.vocabulary isError) hg entry hentry⟩

/-- **Diagnostics say nothing but words of the program.** -/
theorem Program.check_spelt (hp : p.WellNamed) (settings : Settings) :
    ∃ v, p.check settings isError skipped = .ok v ∧
      ∀ d ∈ v.diagnostics, d.Spelt (h.vocabulary isError) := by
  obtain ⟨functions, s, hrun, hsound, -⟩ :=
    Program.checkFunctions_sound (V := h.vocabulary isError) hp rfl rfl settings
  refine ⟨_, check_eq_of_run hrun, fun d hd => ?_⟩
  obtain ⟨new, hlog, hnew⟩ := hsound.log
  obtain ⟨function, w, hw, rfl⟩ := mem_diagnosticsOf.1 hd
  rw [hlog] at hw
  rcases List.mem_append.1 hw with hbefore | hafter
  · obtain ⟨hfunction, hcause⟩ := h.seeded_spelt isError hbefore
    exact ⟨hfunction, hcause⟩
  · obtain ⟨hfunction, -, hcause⟩ := hnew _ hafter
    exact ⟨hfunction, hcause⟩

end Programs

end RaisingEffects
