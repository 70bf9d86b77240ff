import RaisingEffects.Proofs.Analysis.Trace
import RaisingEffects.Proofs.Parse.WellFormed
import RaisingEffects.Proofs.Verdict.Signatures

/-!
# A check runs to its end

The functions are checked one after the other, in the state that the signatures leave. Each check
returns, whatever violations it meets, and leaves sound notes at the nodes it goes through.

* `FunDecl.AnalysedAll` says what the check of functions does, with a derivation for each body. A
  proof about a check is one induction over it.
* `FunDecl.Checked` is what a function carries after its check.
* `Program.check_run` is the whole: every check ends with a verdict on the program that was given.
* `Program.exists_verdict`: what is decided of the verdict on a source holds of it.
-/

namespace RaisingEffects

/-! ## One function -/

/-- The effect that a function is left with, where `body` is the effect of its body. -/
def Effect.judged (checkBodies : Bool) (declared body : Effect) : Effect :=
  if checkBodies && !body.fits declared then .raisesAny else declared

theorem Effect.judged_raisesAny (checkBodies : Bool) (body : Effect) :
    judged checkBodies .raisesAny body = .raisesAny := ite_self _

theorem Effect.judged_eq_or (checkBodies : Bool) (declared body : Effect) :
    judged checkBodies declared body = declared ∨
      judged checkBodies declared body = .raisesAny := by
  unfold judged
  split
  · exact .inr rfl
  · exact .inl rfl

/-- What is reported about a function whose body has the effect `body`. -/
def FunDecl.judgement (checkBodies : Bool) (g : FunDecl Span) (declared body : Effect) :
    List LogEntry :=
  if checkBodies && !body.fits declared then
    [.violation (.at_ (.functionRaises g.name declared body) g.loc.start)]
  else []

namespace Analysis

variable {c : Context}

/-- What happens before the body of a function. -/
def enterFunction (g : FunDecl Span) (sig : Signature) : Analysis Unit := do
  enter
  defineAll ((g.params.map Param.name).zip sig.params)
  setApart

theorem enterFunction_final (g : FunDecl Span) (sig : Signature) (s : AnalysisState) :
    (enterFunction g sig).final c s =
      { s.opened ((g.params.map Param.name).zip sig.params) with candidates := [] } := by
  obtain ⟨_, _, hrun, rfl⟩ := defineAll_yields (c := c) ((g.params.map Param.name).zip sig.params)
    { s with env := [] :: s.env }
  rw [enterFunction, final_bind (show enter c s = (.ok (), _) from rfl), final_bind hrun]
  rfl

/-- A function with what is noted at it: the effect `e`, that of its body, and the rule of its
signature. -/
def notedFunction (g : FunDecl Span) (sig : Signature) (body : Block Note) (b e : Effect) :
    FunDecl Note :=
  { g.map Note.blank with
    loc := { span := g.loc, effect := some e, bodyEffect := some b,
             forwarding := sig.binding.forwarding }
    body }

theorem notedFunction_map_span (sig : Signature) (b e : Effect) {g : FunDecl Span}
    {body : Block Note} (hbody : body.map Note.span = g.body) :
    (notedFunction g sig body b e).map Note.span = g := by
  simp only [notedFunction, FunDecl.map, hbody, Param.list_map_span_blank,
    Clause.option_map_span_blank, TypeExpr.option_map_span_blank]

/-- A function is left with its judgement once its body is analysed. -/
theorem checkFunction_eq {g : FunDecl Span} {sig : Signature} {s s' : AnalysisState}
    {body : Block Note} {b : Effect}
    (h : (inScope do
        defineAll ((g.params.map Param.name).zip sig.params)
        bodyEffect g.body) c s = (.ok (body, b), s')) (checkBodies : Bool) :
    checkFunction checkBodies g sig c s =
      (.ok (notedFunction g sig body b (.judged checkBodies sig.binding.effect b)),
        s'.logged c.function (g.judgement checkBodies sig.binding.effect b)) := by
  refine (bind_eq_of_ok h).trans ?_
  unfold Effect.judged FunDecl.judgement
  dsimp only
  split
  · rfl
  · exact AnalysisState.eq_logged_nil ..

end Analysis

/-! ## All functions -/

open Analysis

/-- What the check of a function comes to. -/
def FunDecl.visits (c : Context) (g : FunDecl Span) (sig : Signature) (s : AnalysisState) :
    List Visit :=
  g.body.visits { c with function := some g.name }
    ((enterFunction g sig).final { c with function := some g.name } s)

/-- What the check of functions comes to. -/
def FunDecl.visitsAll (c : Context) (checkBodies : Bool) :
    List (FunDecl Span × Signature) → AnalysisState → List Visit
  | [], _ => []
  | (g, sig) :: rest, s =>
    g.visits c sig s ++ FunDecl.visitsAll c checkBodies rest
      ((within g.name (checkFunction checkBodies g sig)).final c s)

/-- The state behind the check of a function whose body is analysed up to the state `s₁`. -/
def AnalysisState.behind (s s₁ : AnalysisState) (checkBodies : Bool) (g : FunDecl Span)
    (sig : Signature) : AnalysisState :=
  (AnalysisState.closed { s₁ with candidates := s.candidates }).logged (some g.name)
    (g.judgement checkBodies sig.binding.effect (.joinAll s₁.candidates))

/-- In the context `c`, the check of functions that starts in the first state comes through the
visits, returns the functions with their notes and ends in the second state. -/
inductive FunDecl.AnalysedAll (c : Context) (checkBodies : Bool) :
    AnalysisState → List (FunDecl Span × Signature) → List Visit → List (FunDecl Note) →
      AnalysisState → Prop
  | nil (s) : AnalysedAll c checkBodies s [] [] [] s
  | cons {s s₁ s' g sig rest body vs ws gs}
      (hbody : Analysed { c with function := some g.name }
        { s.opened ((g.params.map Param.name).zip sig.params) with candidates := [] }
        (.block g.body) vs (.block body) s₁)
      (hrest : AnalysedAll c checkBodies (s.behind s₁ checkBodies g sig) rest ws gs s') :
      AnalysedAll c checkBodies s ((g, sig) :: rest) (vs ++ ws)
        (notedFunction g sig body (.joinAll s₁.candidates)
          (.judged checkBodies sig.binding.effect (.joinAll s₁.candidates)) :: gs) s'

/-- **The check of functions has a derivation.** -/
theorem Analysis.checkFunctions_derives {c : Context} (hc : c.Collects) (checkBodies : Bool)
    (pairs : List (FunDecl Span × Signature)) (s : AnalysisState) :
    Yields c s (checkFunctions checkBodies pairs) fun gs s' =>
      FunDecl.AnalysedAll c checkBodies s pairs (FunDecl.visitsAll c checkBodies pairs s) gs
        s' := by
  induction pairs generalizing s with
  | nil => exact .pure (.nil s)
  | cons pair rest ih =>
    obtain ⟨g, sig⟩ := pair
    obtain ⟨⟨body, b⟩, _, hbody, s₁, rfl, rfl, h⟩ := functionBody_derives (hc.within g.name)
      ((g.params.map Param.name).zip sig.params) g.body s
    have hg : within g.name (checkFunction checkBodies g sig) c s = _ :=
      checkFunction_eq hbody checkBodies
    refine .after hg ((ih _).bind fun gs s' hrest => .pure ?_)
    rw [FunDecl.visitsAll, final_eq hg, FunDecl.visits, enterFunction_final]
    exact .cons h hrest

/-- What a function carries after its check. -/
structure FunDecl.Checked (isError : String → Bool) (checkBodies : Bool) (g : FunDecl Note) :
    Prop where
  effects : ∃ b e, g.loc.bodyEffect = some b ∧ g.loc.effect = some e ∧
    (checkBodies = true → b.fits e = true)
  forwarding : ∀ f, g.loc.forwarding = some f →
    ∃ e, Analysis.resolveFunction (g.map Note.span)
      ((g.map Note.span).declaredEffects isError) = .ok (f, e)

theorem Effect.fits_judged {checkBodies : Bool} (hcheck : checkBodies = true)
    (declared b : Effect) : b.fits (.judged checkBodies declared b) = true := by
  subst hcheck
  unfold judged
  cases h : b.fits declared
  · exact Effect.fits_raisesAny b
  · exact h

/-- The functions come out of their check as they were, with sound notes. -/
theorem FunDecl.AnalysedAll.traced {c : Context} {checkBodies : Bool} {s s' : AnalysisState}
    {pairs : List (FunDecl Span × Signature)} {vs : List Visit} {gs : List (FunDecl Note)}
    (h : AnalysedAll c checkBodies s pairs vs gs s')
    (hpairs : ∀ pair ∈ pairs, ∃ id, pair.2 = pair.1.signature c.isError id) :
    gs.map (·.map Note.span) = pairs.map Prod.fst ∧ (∀ g ∈ gs, g.Checked c.isError checkBodies) ∧
      Traced s s' (gs.flatMap FunDecl.walk) [] := by
  induction h with
  | nil s => exact ⟨rfl, by simp, .refl s⟩
  | @cons s s₁ s' g sig rest body vs ws gs hbody _ ih =>
    obtain ⟨hblock, hwalk⟩ := hbody.traced
    have hcaught : Traced s (s.behind s₁ checkBodies g sig) body.walk [] :=
      hwalk.caught (Nat.le_refl _) rfl rfl
    obtain ⟨⟨id, hsig⟩, hrest⟩ := List.forall_mem_cons.1 hpairs
    obtain rfl : sig = g.signature c.isError id := hsig
    obtain ⟨hshapes, hchecked, htraced⟩ := ih hrest
    have hshape (e : Effect) := notedFunction_map_span (g.signature c.isError id)
      (.joinAll s₁.candidates) e (Part.block.inj hblock)
    refine ⟨congrArg₂ List.cons (hshape _) hshapes, List.forall_mem_cons.2 ⟨⟨?_, ?_⟩, hchecked⟩,
      Traced.trans (?_ : Traced _ _ _ []) htraced⟩
    · exact ⟨_, _, rfl, rfl, fun hcheck => Effect.fits_judged hcheck _ _⟩
    · rw [hshape]
      exact fun f hf => ⟨_, FunDecl.resolveFunction_of_binding _ hf⟩
    · refine .cons (.with_clause ?_ _) ⟨rfl, _, rfl, hwalk.joinsTo_candidates rfl⟩
      exact hcaught.relist fun n hn => (List.mem_append.1 hn).symm.imp_right fun hn =>
        .of_ofSignature (Node.ofSignature_of_mem_types hn)

/-! ## Interfaces -/

theorem Interface.sound_of_mem_noted {isError : String → Bool} {is : List (Interface Span)}
    {k : Nat} : ∀ n ∈ (is.map (Interface.noted isError)).flatMap Interface.walk, n.Sound k := by
  intro n hn
  simp only [List.mem_flatMap, List.mem_map, Interface.walk, Member.walk, List.mem_cons,
    List.mem_append] at hn
  obtain ⟨_, ⟨i, -, rfl⟩, rfl | ⟨m, hm, hn⟩⟩ := hn
  · trivial
  · obtain ⟨m, -, rfl⟩ := List.mem_map.1 hm
    rcases hn with rfl | hn | hn
    · rfl
    · exact .of_ofSignature (Node.ofSignature_of_mem_clauses (List.mem_map.2 hn))
    · exact .of_ofSignature (Node.ofSignature_of_mem_types (List.mem_flatMap.2 hn))

theorem Interface.noted_map_span (isError : String → Bool) (i : Interface Span) :
    (i.noted isError).map Note.span = i := by
  have hmember (m : Member Span) : (m.noted isError).map Note.span = m := by
    simp only [Member.noted, Member.map, Param.list_map_span_blank,
      Clause.option_map_span_blank, TypeExpr.option_map_span_blank]
  simp [Interface.noted, Interface.map, Note.blank, Function.comp_def, hmember]

/-! ## Programs -/

namespace Program

def signed (isError : String → Bool) (p : Program Span) :
    List (FunDecl Span × Signature) :=
  p.functions.zip (FunDecl.signatures isError 0 p.functions)

def visits (isError : String → Bool) (p : Program Span) (settings : Settings)
    (skipped : List Ambiguity) : List Visit :=
  FunDecl.visitsAll { policy := settings.policy, isError } settings.checkBodies (p.signed isError)
    (p.seeded isError skipped)

variable {isError : String → Bool}

theorem length_signatures (id : Nat) (gs : List (FunDecl Span)) :
    (FunDecl.signatures isError id gs).length = gs.length := by
  induction gs generalizing id with
  | nil => rfl
  | cons g gs ih => rw [FunDecl.signatures, List.length_cons, ih, List.length_cons]

theorem map_fst_signed (p : Program Span) : (p.signed isError).map Prod.fst = p.functions := by
  rw [signed, List.map_fst_zip (Nat.le_of_eq (length_signatures ..).symm)]

theorem of_mem_signed {id : Nat} {gs : List (FunDecl Span)} {pair : FunDecl Span × Signature}
    (h : pair ∈ gs.zip (FunDecl.signatures isError id gs)) :
    pair.1 ∈ gs ∧ ∃ id, pair.2 = pair.1.signature isError id := by
  refine ⟨(List.of_mem_zip h).1, ?_⟩
  induction gs generalizing id with
  | nil => cases h
  | cons g gs ih =>
    rcases List.mem_cons.1 h with rfl | h
    · exact ⟨id, rfl⟩
    · exact ih h

/-- The bodies of a program are checked in the state that the signatures leave. -/
theorem derives (p : Program Span) (settings : Settings) (isError : String → Bool)
    (skipped : List Ambiguity) :
    Yields { policy := settings.policy, isError } (p.seeded isError skipped)
      (checkFunctions settings.checkBodies (p.signed isError)) fun gs s' =>
        FunDecl.AnalysedAll { policy := settings.policy, isError } settings.checkBodies
          (p.seeded isError skipped) (p.signed isError) (p.visits isError settings skipped) gs s' :=
  checkFunctions_derives ⟨rfl, fun _ => rfl⟩ ..

/-- A check ends as the check of the bodies does. -/
theorem check_eq_of_run {p : Program Span} {settings : Settings} {skipped : List Ambiguity}
    {functions : List (FunDecl Note)} {s : AnalysisState}
    (h : checkFunctions settings.checkBodies (p.signed isError)
      { policy := settings.policy, isError } (p.seeded isError skipped) = (.ok functions, s)) :
    p.check settings isError skipped = .ok
      { program := { p.map Note.blank with
          functions, interfaces := p.interfaces.map (Interface.noted isError) }
        aggregates := s.aggregates
        effects := effectTable (p.interfaces.map (Interface.noted isError)) functions
        log := s.log } := by
  have hrun := (checkProgram_eq (c := { policy := settings.policy, isError }) rfl rfl
    settings.checkBodies p skipped).trans (bind_eq_of_ok h)
  rw [Program.check, hrun]
  rfl

end Program

/-! ## Verdicts -/

/-- What a verdict says about the program that was checked. -/
structure Verdict.Covers (isError : String → Bool) (checkBodies : Bool) (p : Program Span)
    (v : Verdict) : Prop where
  shape : v.program.map Note.span = p
  functions : ∀ g ∈ v.program.functions, g.Checked isError checkBodies
  sound : ∀ n ∈ v.program.walk, n.Sound v.aggregates.length
  effects : v.effects = Analysis.effectTable v.program.interfaces v.program.functions

/-- **Every check ends with a verdict.** -/
theorem Program.check_run (p : Program Span) (settings : Settings) (isError : String → Bool)
    (skipped : List Ambiguity) :
    ∃ v, p.check settings isError skipped = .ok v ∧ v.Covers isError settings.checkBodies p := by
  obtain ⟨gs, s', hrun, h⟩ := p.derives settings isError skipped
  obtain ⟨hshape, hfunctions, htraced⟩ := h.traced fun pair hpair => (of_mem_signed hpair).2
  rw [p.map_fst_signed] at hshape
  refine ⟨_, check_eq_of_run hrun, ?_, hfunctions, fun n hn => ?_, rfl⟩
  · have hinterfaces : (p.interfaces.map (Interface.noted isError)).map (·.map Note.span) =
        p.interfaces := by simp [Function.comp_def, Interface.noted_map_span]
    simp only [Program.map, hshape, hinterfaces, NameDecl.list_map_span_blank]
  · simp only [Program.walk, List.mem_cons, List.mem_append, List.mem_map] at hn
    obtain rfl | ((hn | ⟨d, -, rfl⟩) | ⟨d, -, rfl⟩) | hn := hn
    · trivial
    · exact htraced.sound n hn
    · trivial
    · trivial
    · exact Interface.sound_of_mem_noted n hn

instance decidableExistsBothOk {ε δ α β : Type} (x : Except ε α) (y : α → Except δ β)
    (P : α → β → Prop) [∀ a b, Decidable (P a b)] :
    Decidable (∃ a b, x = .ok a ∧ y a = .ok b ∧ P a b) :=
  decidable_of_iff (∃ a, x = .ok a ∧ ∃ b, y a = .ok b ∧ P a b) (by simp)

/-- The verdict on a source is as the verdict on its characters is found to be. -/
theorem Program.exists_verdict (source : String) (settings : Settings)
    (P : Reading → Verdict → Prop) {cs : List Char} (hsource : source = String.ofList cs)
    (h : ∃ r v, Program.ofChars cs = .ok r ∧
      r.program.check settings r.program.declaresError r.skipped = .ok v ∧ P r v) :
    ∃ r v, Program.parse source = .ok r ∧
      r.program.check settings r.program.declaresError r.skipped = .ok v ∧ P r v :=
  parse_eq_ofChars source hsource ▸ h

end RaisingEffects
