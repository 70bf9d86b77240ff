import RaisingEffects.Proofs.Analysis.Filing
import RaisingEffects.Proofs.Verdict.ForwardingFaults

/-!
# The occasions of a program

Every diagnostic of a check has an occasion of its own: a word that was skipped, or something at a
node of the program. `Program.check_reports` puts together what the signatures report, which is
known beforehand, and what the bodies report. The fault of a forwarding rule is one of the function
that forwards, and stands at its signature or at a call in its body.
-/

namespace RaisingEffects

open Analysis

def Diagnostic.site (d : Diagnostic) : Site := ⟨d.cause.topic, d.pos⟩

theorem sites_diagnosticsOf (log : List (Option String × LogEntry)) :
    (diagnosticsOf log).map Diagnostic.site = sitesIn (log.map Prod.snd) := by
  rw [diagnosticsOf, sitesIn, List.map_filterMap, List.filterMap_map]
  refine List.filterMap_congr fun entry _ => ?_
  obtain ⟨function, entry⟩ := entry
  cases entry <;> rfl

theorem Cause.ofForwarding_iff (cause : Cause) :
    cause.ofForwarding = true ↔ cause.topic = .rule := by
  cases cause with
  | misfit m => by_cases hindex : m.index.isSome = true <;> simp [ofForwarding, topic, hindex]
  | _ => simp [ofForwarding, topic]

/-- The occasion to report the rule of a function, at its signature or at a call in its body. -/
def FunDecl.ruleOccasion (g : FunDecl Span) : Occasion :=
  ⟨.rule, g.loc.start :: Node.starts g.body.nodes⟩

/-- The occasions of a program and of the words that were skipped in it. -/
def Program.occasions (p : Program Span) (skipped : List Ambiguity) : List Occasion :=
  (skipped.map fun a => ⟨.word, [a.pos]⟩) ++ p.functions.map FunDecl.ruleOccasion ++
    occasionsIn p.nodes

/-! ## Places of raise paths -/

/-- The path of a call stands where the call starts. -/
theorem Block.start_of_mem_raisePaths {names : List String} {p : RaisePath} {b : Block Span}
    (h : p ∈ b.raisePaths names) :
    ∃ pos ∈ Node.starts b.nodes, p.span.map Span.start = some pos := by
  rw [show b.raisePaths names = _ from (Part.block b).raisePaths_eq names false] at h
  obtain ⟨x, hx, hp⟩ := List.mem_filterMap.1 h
  obtain ⟨span, args, rfl, -, hspan⟩ := RaisePath.of?_eq_some hp
  have hnode := ((Part.block b).flagged_sublist false).subset (List.mem_map_of_mem hx)
  exact ⟨span.start, Node.mem_starts hnode rfl, by rw [hspan]; rfl⟩

/-- The fault of the rule of a function stands at its signature or at a call in its body. -/
theorem FunDecl.site_of_error {g : FunDecl Span} {effects : Table Effect} {v : Violation}
    (h : resolveFunction g effects = .error v) : v.site ∈ g.ruleOccasion.sites := by
  have hsite {pos : Pos} (htopic : v.cause.topic = .rule) (hpos : v.pos = some pos)
      (hmem : pos ∈ g.ruleOccasion.places) : v.site ∈ g.ruleOccasion.sites :=
    List.mem_map.2 ⟨pos, hmem, by rw [Violation.site, htopic, hpos]; rfl⟩
  rcases resolveFunction_eq_error h with rfl | ⟨f, hrule, hresolve⟩
  · exact hsite rfl rfl (List.mem_cons_self ..)
  · have hspan := Forwarding.span_of_ofFunction hrule
    obtain ⟨target, name, e, -, -, ⟨p, hp, rfl⟩ | rfl⟩ := Forwarding.resolve_eq_error hresolve
    · rw [(Forwarding.ofFunction_eq_ok hrule).2] at hp
      obtain ⟨pos, hmem, hpos⟩ := Block.start_of_mem_raisePaths hp
      obtain ⟨span, hp', rfl⟩ := Option.map_eq_some_iff.1 hpos
      exact hsite rfl (by rw [hp']; rfl) (List.mem_cons_of_mem _ hmem)
    · exact hsite rfl (by rw [hspan]; rfl) (List.mem_cons_self ..)

/-! ## Signatures -/

theorem sitesIn_flatMap {ι : Type} (is : List ι) (log : ι → List (Option String × LogEntry)) :
    sitesIn ((is.flatMap log).map Prod.snd) =
      is.flatMap fun i => sitesIn ((log i).map Prod.snd) := by
  rw [List.map_flatMap, sitesIn, List.filterMap_flatMap]
  rfl

theorem occasionsIn_flatMap {ι : Type} (is : List ι) (nodes : ι → List (Node Span)) :
    occasionsIn (is.flatMap nodes) = is.flatMap fun i => occasionsIn (nodes i) :=
  List.flatMap_assoc

section Signatures

variable (isError : String → Bool)

/-- What is noted about a signature has its occasions at the parameters, at the clause, and in the
rule of the function. -/
theorem FunDecl.entries_reports (g : FunDecl Span) :
    Reports (g.ruleOccasion :: occasionsIn g.signatureNodes) (sitesIn (g.entries isError)) := by
  have hparams := Param.flatMap_entries_reports isError g.params
  have hclause : Reports (occasionsIn (g.clause.toList.map .clause))
      (sitesIn ((Clause.fault? isError g.clause).toList.map .violation)) :=
    Clause.fault?_reports isError fun c hc => List.mem_map_of_mem (Option.mem_toList.2 hc)
  have hrule : Reports (g.ruleOccasion :: occasionsIn (g.clause.toList.map .clause))
      (sitesIn (g.ruleEntries isError)) := by
    unfold FunDecl.ruleEntries
    split
    · exact hclause.mono fun P => (List.sublist_cons_self ..).countP_le ..
    · split
      · rename_i f effect _
        have hquiet : sitesIn (f.joinEntries effect ++ [.resolved g.name f.mode effect]) = [] := by
          unfold Forwarding.joinEntries
          split <;> rfl
        rw [hquiet]
        exact .nil _
      · rename_i v hresolve
        refine (Reports.one (FunDecl.site_of_error hresolve)).mono fun P => ?_
        exact (List.singleton_sublist.2 (List.mem_cons_self ..)).countP_le ..
  rw [FunDecl.entries, sitesIn_append]
  refine (hparams.append hrule).mono fun P => ?_
  simp only [FunDecl.signatureNodes, occasionsIn_append, List.countP_append, List.countP_cons]
  omega

theorem Member.log_reports (i : Interface Span) (m : Member Span) :
    Reports (occasionsIn m.nodes) (sitesIn ((m.log isError i).map Prod.snd)) := by
  rw [Member.log, List.map_map]
  refine Clause.fault?_reports isError fun c hc => ?_
  simp [Member.nodes, Option.mem_def.1 hc]

theorem Interface.log_reports (i : Interface Span) :
    Reports (occasionsIn i.nodes)
      (sitesIn ((i.members.flatMap (Member.log isError i)).map Prod.snd)) := by
  have hmembers : Reports (i.members.flatMap fun m => occasionsIn m.nodes)
      (i.members.flatMap fun m => sitesIn ((m.log isError i).map Prod.snd)) :=
    .flatMap fun m _ => m.log_reports isError i
  rw [sitesIn_flatMap, Interface.nodes, occasionsIn_cons, occasionsIn_flatMap]
  exact hmembers

/-- What is noted before the bodies. -/
theorem Program.seeded_reports (p : Program Span) (skipped : List Ambiguity) :
    Reports
      ((skipped.map fun a => ⟨.word, [a.pos]⟩) ++ occasionsIn (p.interfaces.flatMap Interface.nodes)
        ++ p.functions.flatMap fun g => g.ruleOccasion :: occasionsIn g.signatureNodes)
      (sitesIn ((p.seeded isError skipped).log.map Prod.snd)) := by
  have hskipped : Reports (skipped.map fun a => ⟨.word, [a.pos]⟩)
      (sitesIn ((skipped.map fun a =>
        ((none : Option String), .violation a.violation)).map Prod.snd)) := by
    have hentries : (skipped.map fun a =>
        ((none : Option String), LogEntry.violation a.violation)).map Prod.snd =
        (skipped.map Ambiguity.violation).map .violation := by
      rw [List.map_map, List.map_map]
      rfl
    rw [hentries, sitesIn_violations, List.map_map]
    exact .map fun a _ => List.mem_singleton.2 rfl
  have hinterfaces : Reports (occasionsIn (p.interfaces.flatMap Interface.nodes))
      (sitesIn ((p.interfaces.flatMap fun i => i.members.flatMap (Member.log isError i)).map
        Prod.snd)) := by
    rw [sitesIn_flatMap, occasionsIn_flatMap]
    exact .flatMap fun i _ => i.log_reports isError
  have hfunctions : Reports
      (p.functions.flatMap fun g => g.ruleOccasion :: occasionsIn g.signatureNodes)
      (sitesIn ((Program.signatureLog isError p.functions).map Prod.snd)) := by
    rw [Program.signatureLog, sitesIn_flatMap]
    refine .flatMap fun g _ => ?_
    rw [List.map_map]
    exact (List.map_id (g.entries isError)).symm ▸ g.entries_reports isError
  rw [Program.seeded, Program.openingLog, List.map_append, List.map_append, sitesIn_append,
    sitesIn_append]
  exact (hskipped.append hinterfaces).append hfunctions

end Signatures

/-! ## Bodies -/

theorem FunDecl.AnalysedAll.filed {c : Context} {checkBodies : Bool} {s s' : AnalysisState}
    {pairs : List (FunDecl Span × Signature)} {vs : List Visit} {gs : List (FunDecl Note)}
    (h : AnalysedAll c checkBodies s pairs vs gs s') :
    Filed (pairs.flatMap fun pair =>
      occasionsIn pair.1.body.nodes ++ [⟨.raises, [pair.1.loc.start]⟩]) s s' := by
  induction h with
  | nil => exact .quiet rfl
  | @cons s s₁ _ g sig _ _ _ _ _ hbody _ ih =>
    have hfiled : Filed (occasionsIn g.body.nodes) s
        (AnalysisState.closed { s₁ with candidates := s.candidates }) := hbody.filed
    have hjudged : Reports [⟨.raises, [g.loc.start]⟩] (sitesIn
        (g.judgement checkBodies sig.binding.effect (.joinAll s₁.candidates))) := by
      unfold FunDecl.judgement
      split
      · exact .one (List.mem_singleton.2 rfl)
      · exact .nil _
    exact (hfiled.trans (.logged hjudged)).trans ih

/-! ## Programs -/

/-- The occasions of functions are those of the signatures and those of the bodies. -/
theorem FunDecl.countP_occasions (gs : List (FunDecl Span)) (P : Occasion → Bool) :
    (gs.flatMap fun g => g.ruleOccasion :: occasionsIn g.signatureNodes).countP P +
        (gs.flatMap fun g => occasionsIn g.body.nodes ++ [⟨.raises, [g.loc.start]⟩]).countP P =
      (gs.map FunDecl.ruleOccasion).countP P +
        (occasionsIn (gs.flatMap FunDecl.nodes)).countP P := by
  induction gs with
  | nil => rfl
  | cons g gs ih =>
    simp only [List.flatMap_cons, List.map_cons, FunDecl.nodes, List.cons_append,
      occasionsIn_cons, occasionsIn_append, Node.occasions, List.countP_append, List.countP_cons,
      List.countP_nil] at ih ⊢
    omega

/-- **Every diagnostic has an occasion of its own.** -/
theorem Program.check_reports {p : Program Span} (hp : p.WellNamed) (settings : Settings)
    (isError : String → Bool) (skipped : List Ambiguity) :
    ∃ v, p.check settings isError skipped = .ok v ∧
      Reports (p.occasions skipped) (v.diagnostics.map Diagnostic.site) := by
  obtain ⟨v, hv, -, hbodies⟩ := Program.check_bodies hp settings isError skipped
  obtain ⟨functions, s, hrun, h⟩ := p.derives settings isError skipped
  obtain ⟨new, hlog, hnew⟩ := h.filed
  cases (check_eq_of_run hrun).symm.trans hv
  refine ⟨_, check_eq_of_run hrun, ?_⟩
  -- The rules were judged with the signatures, so no fault of a rule is left out in the bodies.
  have hrules : (sitesIn (new.map Prod.snd)).filter (fun site => site.topic ≠ .rule) =
      sitesIn (new.map Prod.snd) := by
    have hfaults := hbodies.faults
    rw [hlog, forwardingFaults_append, List.append_right_eq_self] at hfaults
    refine List.filter_eq_self.2 fun site hsite => ?_
    obtain ⟨entry, hentry, hsite⟩ := List.mem_filterMap.1 hsite
    obtain ⟨⟨function, entry⟩, hmem, rfl⟩ := List.mem_map.1 hentry
    have hentry := forwardingFaults_eq_nil_iff.1 hfaults _ hmem
    cases entry with
    | violation w =>
      cases hsite
      simp only [ne_eq, decide_not, Bool.not_eq_true', decide_eq_false_iff_not]
      exact fun htopic => Bool.eq_false_iff.1 hentry (w.cause.ofForwarding_iff.2 htopic)
    | _ => cases hsite
  have hpairs : ((p.signed isError).flatMap fun pair =>
        occasionsIn pair.1.body.nodes ++ [⟨.raises, [pair.1.loc.start]⟩]) =
      p.functions.flatMap fun g => occasionsIn g.body.nodes ++ [⟨.raises, [g.loc.start]⟩] := by
    rw [← p.map_fst_signed, List.flatMap_map]
  rw [hrules, hpairs] at hnew
  have hsites : (diagnosticsOf s.log).map Diagnostic.site =
      sitesIn ((p.seeded isError skipped).log.map Prod.snd) ++ sitesIn (new.map Prod.snd) := by
    rw [sites_diagnosticsOf, hlog, List.map_append, sitesIn_append]
  refine hsites ▸ (Reports.append (Program.seeded_reports isError p skipped) hnew).mono
    fun P => ?_
  have hfunctions := FunDecl.countP_occasions p.functions P
  simp only [Program.occasions, Program.nodes, occasionsIn_cons, occasionsIn_append,
    List.countP_append]
  omega

end RaisingEffects
