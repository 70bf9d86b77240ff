import RaisingEffects.Proofs.Analysis.Upward
import RaisingEffects.Proofs.Verdict.Bodies

/-!
# The course of a check

The bodies of a program are analysed one after the other, each with its parameters in a scope of its
own. `Checks` says of the whole check what `Course` says of the analysis of a body: it is a run of
changes with the visits between them, the nodes of the bodies are what the visited nodes are
analysed to, and a violation is reported by a visited node, or is about a function as a whole.

`Program.check_course` is the statement about every check. Before the first body all meanings follow
their aggregates (`Program.seeded_linked`), so they do in every state that the check comes through.
-/

namespace RaisingEffects

open Analysis

def Cause.ofFunction : Cause → Bool
  | .functionRaises .. => true
  | _ => false

theorem Cause.topic_of_ofFunction {cause : Cause} (h : cause.ofFunction = true) :
    cause.topic = .raises := by
  cases cause with
  | functionRaises => rfl
  | _ => cases h

/-- What a node is at fault for is not about a function as a whole. -/
theorem Analysis.Faults.ofFunction_eq_false {c : Context} {s : AnalysisState} {n : Node Span}
    {w : Violation} (h : Faults c s n w) : w.cause.ofFunction = false := by
  cases h with
  | rule _ _ _ _ htopic =>
    apply Bool.eq_false_iff.2
    intro hown
    rw [Cause.topic_of_ofFunction hown] at htopic
    cases htopic
  | element | letElement | inserted => rfl
  | _ => simp_all [Cause.ofFunction]

namespace Analysis

/-- What the check of functions goes through from one state to another. -/
structure Checks (c : Context) (s s' : AnalysisState) (visits : List Visit)
    (nodes : List (Node Note)) : Prop where
  run : Run c.policy [] 0 s visits 0 s'
  contexts : ∀ v ∈ visits, v.context = { c with function := v.context.function }
  returned : ∀ n ∈ nodes, n.ofSignature = false → ∃ v ∈ visits, v.Returns n
  reported : ∃ new, s'.log = s.log ++ new ∧ ∀ function w, (function, .violation w) ∈ new →
    w.cause.ofFunction = true ∨ ∃ v ∈ visits, v.Reports function w

variable {c : Context}

/-- The body of a function, under its parameters. -/
theorem functionBody_course (hc : c.Collects) {entries : List (String × Binding)}
    {s s₁ : AnalysisState} {b : Block Span} {b' : Block Note} {vs : List Visit}
    (hentries : ∀ entry ∈ entries, entry.2.Follows s.aggregates)
    (h : Analysed c { s.opened entries with candidates := [] } (.block b) vs (.block b') s₁) :
    Course c (fun _ => False) [] 0 s (AnalysisState.closed { s₁ with candidates := s.candidates })
      vs b'.walk := by
  have hcourse : Course c _ [] 1 _ s₁ vs _ := h.course hc 1 (by simp)
  exact Course.inScope (.cons (.quiet (.defineAll 0 hentries) rfl)
    (hcourse.collecting (s := s.opened entries)))

end Analysis

/-- The check of functions, one after the other. The aggregates of parameters are declared, so they
stay as they are while other bodies are analysed. -/
theorem FunDecl.AnalysedAll.checks {c : Context} {checkBodies : Bool} {s s' : AnalysisState}
    {pairs : List (FunDecl Span × Signature)} {vs : List Visit} {gs : List (FunDecl Note)}
    (hc : c.Collects) (h : AnalysedAll c checkBodies s pairs vs gs s')
    (hparams : ∀ pair ∈ pairs, ∀ b ∈ pair.2.params, b.Declared s.aggregates) :
    Checks c s s' vs (gs.flatMap fun g => g.body.walk) := by
  induction h with
  | nil s => exact ⟨.refl 0 s, by simp, by simp, [], by simp, by simp⟩
  | @cons s s₁ _ g sig _ _ _ _ _ hbody _ ih =>
    obtain ⟨hpair, hrest⟩ := List.forall_mem_cons.1 hparams
    have hcourse := functionBody_course (hc.within g.name)
      (fun entry hentry => (hpair _ (List.of_mem_zip hentry).2).follows) hbody
    have hjudged : Run c.policy [] 0 s _ 0 (s.behind s₁ checkBodies g sig) :=
      hcourse.run.snoc (.log 0 _ _)
    have h₂ := ih fun pair hp b hb => hjudged.declared (hrest pair hp b hb)
    refine ⟨hjudged.trans h₂.run, ?_, ?_, ?_⟩
    · intro v hv
      rcases List.mem_append.1 hv with hv | hv
      · rw [hcourse.contexts v hv]
      · exact h₂.contexts v hv
    · intro n hn hsig
      rcases List.mem_append.1 hn with hn | hn
      · obtain ⟨v, hv, hreturns⟩ := hcourse.returned n hn hsig
        exact ⟨v, List.mem_append_left _ hv, hreturns⟩
      · obtain ⟨v, hv, hreturns⟩ := h₂.returned n hn hsig
        exact ⟨v, List.mem_append_right _ hv, hreturns⟩
    · obtain ⟨new, hlog, hnew⟩ := hcourse.reported
      obtain ⟨more, hlog', hmore⟩ := h₂.reported
      refine ⟨new ++ (g.judgement checkBodies sig.binding.effect (.joinAll s₁.candidates)).map
        (fun entry => (some g.name, entry)) ++ more, ?_, fun function w hw => ?_⟩
      · rw [hlog', AnalysisState.behind, AnalysisState.logged]
        simp only [hlog, List.append_assoc]
      · simp only [List.mem_append, List.mem_map] at hw
        rcases hw with (hw | ⟨entry, hentry, heq⟩) | hw
        · obtain ⟨v, hv, hreports⟩ := (hnew function w hw).resolve_left fun hown => hown.2
          exact .inr ⟨v, List.mem_append_left _ hv, hreports⟩
        · cases heq
          unfold FunDecl.judgement at hentry
          split at hentry
          · cases List.mem_singleton.1 hentry
            exact .inl rfl
          · cases hentry
        · refine (hmore function w hw).imp_right fun hv => ?_
          obtain ⟨v, hv, hreports⟩ := hv
          exact ⟨v, List.mem_append_right _ hv, hreports⟩

/-! ## Programs -/

/-- A meaning in scopes where names were bound is one of theirs, or was there before. -/
theorem Env.mem_of_meaning_defineAll {env : Env} {entries : List (String × Binding)} {level : Nat}
    {name : String} {b : Binding} (h : (env.defineAll entries).meaning level name = some b) :
    (∃ entry ∈ entries, entry.2 = b) ∨ env.meaning level name = some b := by
  induction entries generalizing env with
  | nil => exact .inr h
  | cons entry entries ih =>
    rcases ih h with ⟨e, he, rfl⟩ | hbefore
    · exact .inl ⟨e, List.mem_cons_of_mem _ he, rfl⟩
    · rw [Env.meaning_define] at hbefore
      split at hbefore
      · cases hbefore
        exact .inl ⟨entry, List.mem_cons_self .., rfl⟩
      · exact .inr hbefore

theorem Binding.Declared.append {aggregates : List Aggregate} {b : Binding}
    (h : b.Declared aggregates) (new : List Aggregate) : b.Declared (aggregates ++ new) := by
  intro id hid
  obtain ⟨hkind, a, ha, heffect⟩ := h id hid
  exact ⟨hkind, a, Aggregate.getElem?_append ha new, heffect⟩

namespace Program

variable {isError : String → Bool}

/-- Declarations have no aggregates. -/
theorem seeded_linked (p : Program Span) (skipped : List Ambiguity) :
    (p.seeded isError skipped).Linked := by
  intro level name b hb
  rcases Env.mem_of_meaning_defineAll hb with ⟨entry, hentry, rfl⟩ | hnone
  · refine .of_none ?_
    rcases List.mem_append.1 hentry with hentry | hentry
    · obtain ⟨d, -, rfl⟩ := List.mem_map.1 hentry
      rfl
    · obtain ⟨g, -, rfl⟩ := List.mem_map.1 hentry
      exact g.binding_aggregate isError
  · rw [Env.meaning] at hnone
    split at hnone <;> cases hnone

/-- The aggregates of the parameters of all functions are declared before the first body. -/
theorem signatures_declared (gs : List (FunDecl Span)) (before : List Aggregate) :
    ∀ pair ∈ gs.zip (FunDecl.signatures isError before.length gs), ∀ b ∈ pair.2.params,
      b.Declared (before ++ gs.flatMap (FunDecl.aggregates isError)) := by
  induction gs generalizing before with
  | nil => simp
  | cons g gs ih =>
    have hrest := ih (before ++ g.aggregates isError)
    rw [List.length_append, List.append_assoc] at hrest
    rw [FunDecl.signatures, List.zip_cons_cons, List.flatMap_cons]
    refine List.forall_mem_cons.2 ⟨fun b hb => ?_, hrest⟩
    have hparams := Param.bindings_declared isError g.params before b hb
    rw [← List.append_assoc]
    exact hparams.append _

/-- What is reported before the first body: the fault of a forwarding rule, a clause that names
something that is no error, or a word that was skipped. -/
theorem cause_of_mem_seeded {p : Program Span} {skipped : List Ambiguity}
    {function : Option String} {w : Violation}
    (h : (function, .violation w) ∈ (p.seeded isError skipped).log) :
    w.cause.ofForwarding = true ∨ (∃ type, w.cause = .clauseNotError type) ∨
      ∃ word, w.cause = .ambiguous word := by
  simp only [seeded, openingLog, signatureLog, List.mem_append, List.mem_flatMap,
    List.mem_map] at h
  rcases h with (⟨a, -, heq⟩ | ⟨i, -, m, -, hm⟩) | ⟨g, -, entry, hentry, heq⟩
  · cases heq
    exact .inr (.inr ⟨a.word, rfl⟩)
  · obtain ⟨v, hv, heq⟩ := List.mem_map.1 hm
    cases heq
    exact .inr (.inl (Clause.cause_of_fault? (Option.mem_toList.1 hv)))
  · cases heq
    rcases List.mem_append.1 hentry with hparam | hrule
    · exact .inr (.inl (Param.cause_of_mem_entries hparam))
    · unfold FunDecl.ruleEntries at hrule
      split at hrule
      · obtain ⟨v, hv, heq⟩ := List.mem_map.1 hrule
        cases heq
        exact .inr (.inl (Clause.cause_of_fault? (Option.mem_toList.1 hv)))
      · split at hrule
        · rcases List.mem_append.1 hrule with hjoin | hresolved
          · unfold Forwarding.joinEntries at hjoin
            split at hjoin <;> simp at hjoin
          · simp at hresolved
        · rename_i v hresolve
          cases List.mem_singleton.1 hrule
          exact .inl (ofForwarding_of_error hresolve)

/-- **The course of a check.** -/
theorem check_course (p : Program Span) (settings : Settings) (isError : String → Bool)
    (skipped : List Ambiguity) :
    ∃ v s', p.check settings isError skipped = .ok v ∧
      v.aggregates = s'.aggregates ∧ v.log = s'.log ∧
      Checks { policy := settings.policy, isError } (p.seeded isError skipped) s'
        (p.visits isError settings skipped) v.program.bodies := by
  have hparams : ∀ pair ∈ p.signed isError, ∀ b ∈ pair.2.params,
      b.Declared (p.seeded isError skipped).aggregates := signatures_declared p.functions []
  obtain ⟨gs', s', hrun, h⟩ := p.derives settings isError skipped
  exact ⟨_, s', check_eq_of_run hrun, rfl, rfl, h.checks ⟨rfl, fun _ => rfl⟩ hparams⟩

end Program

end RaisingEffects
