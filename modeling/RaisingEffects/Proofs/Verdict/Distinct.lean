import RaisingEffects.Proofs.Verdict.Places

/-!
# No violation is reported twice

The kind of a diagnostic and its particulars tell what it is about, and no two occasions on the same
topic share a place. So two diagnostics of a check differ in their kinds, in their positions or in
their particulars, and what is to be judged at a node is reported at most once.
-/

namespace RaisingEffects

variable {d : Diagnostic}

/-! ## What a report tells -/

def Diagnostic.key (d : Diagnostic) : String × Option Pos × List (String × Payload) :=
  (d.cause.kind, d.pos, d.cause.detail)

/-- The topic of a violation of the given kind with the given particulars. -/
def Topic.ofReport : String → List (String × Payload) → Topic
  | "AmbiguousModifier", _ => .word
  | "NotAnError", _ => .errorType
  | "UndeclaredRaise", _ => .raises
  | "EffectMismatch", ("index", .number _) :: _ => .element
  | "EffectMismatch", ("argument", .number position) :: _ => .argument position
  | "EffectMismatch", _ => .bound
  | _, _ => .rule

/-- Whether an element of a collection that is written out does not fit. -/
def Cause.ofElement : Cause → Bool
  | misfit m => m.index.isSome
  | _ => false

namespace Cause

variable (cause : Cause)

theorem ofReport_eq : Topic.ofReport cause.kind cause.detail = cause.topic := by
  cases cause with
  | misfit m =>
    obtain ⟨_ | index, element, kind, bound⟩ := m <;> rfl
  | _ => rfl

theorem topic_eq_errorType_iff : cause.topic = .errorType ↔ cause.kind = "NotAnError" := by
  cases cause with
  | misfit m => obtain ⟨_ | index, element, kind, bound⟩ := m <;> simp [topic, Cause.kind]
  | _ => simp [topic, kind]

theorem topic_eq_raises_iff : cause.topic = .raises ↔ cause.kind = "UndeclaredRaise" := by
  cases cause with
  | misfit m => obtain ⟨_ | index, element, kind, bound⟩ := m <;> simp [topic, Cause.kind]
  | _ => simp [topic, kind]

theorem topic_eq_element_iff : cause.topic = .element ↔ cause.ofElement = true := by
  cases cause with
  | misfit m => obtain ⟨_ | index, element, kind, bound⟩ := m <;> simp [topic, ofElement]
  | _ => simp [topic, ofElement]

end Cause

theorem Diagnostic.site_eq_of_key_eq {d e : Diagnostic} (h : d.key = e.key) : d.site = e.site := by
  simp only [key, Prod.mk.injEq] at h
  obtain ⟨hkind, hpos, hdetail⟩ := h
  rw [site, site, hpos, ← d.cause.ofReport_eq, ← e.cause.ofReport_eq, hkind, hdetail]

/-! ## At most one report for each occasion -/

section Apart

variable {os : List Occasion}

theorem placesOf_cons (t : Topic) (o : Occasion) (os : List Occasion) :
    placesOf t (o :: os) = placesOf t [o] ++ placesOf t os :=
  placesOf_append t [o] os

/-- There are no more occasions for a report than places for it. -/
theorem countP_sites_le (os : List Occasion) (t : Topic) (pos : Pos) :
    (os.countP fun o => o.sites.any fun site => site = ⟨t, some pos⟩) ≤
      (placesOf t os).count pos := by
  induction os with
  | nil => exact Nat.le_refl _
  | cons o os ih =>
    have hone : (if o.sites.any fun site => site = ⟨t, some pos⟩ then 1 else 0) ≤
        (placesOf t [o]).count pos := by
      split
      · rename_i hany
        obtain ⟨site, hsite, heq⟩ := List.any_eq_true.1 hany
        obtain ⟨pos', hpos', rfl⟩ := List.mem_map.1 hsite
        obtain ⟨rfl, ⟨⟩⟩ := Site.mk.inj (of_decide_eq_true heq)
        exact List.count_pos_iff.2 (mem_placesOf (List.mem_singleton.2 rfl) rfl hpos')
      · exact Nat.zero_le _
    rw [List.countP_cons, placesOf_cons, List.count_append]
    omega

/-- Only the occasion itself has places of its own. -/
theorem countP_meets_le_one {o : Occasion} (ho : o ∈ os) (hos : (placesOf o.topic os).Nodup) :
    (os.countP fun o' => o'.sites.any fun site => site ∈ o.sites) ≤ 1 := by
  obtain ⟨before, behind, rfl⟩ := List.append_of_mem ho
  have hown : placesOf o.topic [o] = o.places := by rw [placesOf_singleton, if_pos rfl]
  rw [placesOf_append, placesOf_cons, hown] at hos
  have hzero {others : List Occasion} (h : ∀ pos ∈ o.places, pos ∉ placesOf o.topic others) :
      (others.countP fun o' => o'.sites.any fun site => site ∈ o.sites) = 0 := by
    refine List.countP_eq_zero.2 fun o' ho' hany => ?_
    obtain ⟨site, hsite', hsite⟩ := List.any_eq_true.1 hany
    obtain ⟨pos, hpos, rfl⟩ := List.mem_map.1 (of_decide_eq_true hsite)
    obtain ⟨pos', hpos', heq⟩ := List.mem_map.1 hsite'
    obtain ⟨htopic, ⟨⟩⟩ := Site.mk.inj heq
    exact h pos hpos (mem_placesOf ho' htopic hpos')
  obtain ⟨-, hrest, hbefore⟩ := List.nodup_append.1 hos
  obtain ⟨-, -, hbehind⟩ := List.nodup_append.1 hrest
  rw [List.countP_append, List.countP_cons,
    hzero fun pos hpos hmem => hbefore pos hmem pos (List.mem_append_left _ hpos) rfl,
    hzero fun pos hpos hmem => hbehind pos hpos pos hmem rfl]
  split <;> omega

variable {sites : List Site}

/-- Reports on occasions that share no place are different. -/
theorem Reports.nodup (h : Reports os sites) (hos : ∀ t, (placesOf t os).Nodup) : sites.Nodup := by
  refine List.nodup_iff_count_le_one.2 fun site => ?_
  obtain ⟨t, _ | pos⟩ := site
  · have hnone : (⟨t, none⟩ : Site) ∉ sites := by
      intro hsite
      obtain ⟨o, -, hsite⟩ := h.exists_mem hsite
      obtain ⟨pos, -, heq⟩ := List.mem_map.1 hsite
      cases (Site.mk.inj heq).2
    rw [List.count_eq_zero.2 hnone]
    exact Nat.zero_le 1
  · have hcount : sites.count ⟨t, some pos⟩ = sites.countP (· = ⟨t, some pos⟩) := rfl
    rw [hcount]
    refine Nat.le_trans (h _) (Nat.le_trans (countP_sites_le os t pos) ?_)
    exact List.nodup_iff_count_le_one.1 (hos t) pos

/-- An occasion is taken at most once. -/
theorem Reports.countP_le_one (h : Reports os sites) (hos : ∀ t, (placesOf t os).Nodup)
    {o : Occasion} (ho : o ∈ os) : sites.countP (· ∈ o.sites) ≤ 1 :=
  Nat.le_trans (h _) (countP_meets_le_one ho (hos o.topic))

end Apart

/-! ## What a node yields -/

def Diagnostic.isAt (d : Diagnostic) (places : List Pos) : Bool :=
  places.any fun pos => d.pos = some pos

/-- Whether a diagnostic is the one that a node may yield: a type that is no error, of a clause or a
raise, an element of a collection that does not fit, or too much that is raised, of a closure or a
function. -/
def Node.yields : Node Span → Diagnostic → Bool
  | .clause c, d => d.cause.kind = "NotAnError" && d.isAt [c.loc.start]
  | .stmt (.raise _ value), d => d.cause.kind = "NotAnError" && d.isAt (Node.starts [.expr value])
  | .expr (.collection _ _ elements), d =>
    d.cause.ofElement && d.isAt (Node.starts (elements.map .expr))
  | .expr (.closure span ..), d => d.cause.kind = "UndeclaredRaise" && d.isAt [span.start]
  | .function g, d => d.cause.kind = "UndeclaredRaise" && d.isAt [g.loc.start]
  | _, _ => false

/-- Whether a diagnostic is one that a node yields. -/
def Diagnostic.ofNode (d : Diagnostic) : Bool :=
  d.cause.kind = "NotAnError" || d.cause.kind = "UndeclaredRaise" || d.cause.ofElement

theorem Diagnostic.site_mem_sites_iff {o : Occasion} :
    d.site ∈ o.sites ↔ d.cause.topic = o.topic ∧ d.isAt o.places = true := by
  simp only [Occasion.sites, List.mem_map, Diagnostic.site, Site.mk.injEq, isAt, List.any_eq_true,
    decide_eq_true_eq]
  constructor
  · rintro ⟨pos, hpos, htopic, heq⟩
    exact ⟨htopic.symm, pos, hpos, heq.symm⟩
  · rintro ⟨htopic, pos, hpos, heq⟩
    exact ⟨pos, hpos, htopic.symm, heq.symm⟩

section Sites

variable {d : Diagnostic} {places : List Pos}

theorem Diagnostic.errorType_iff :
    (d.cause.kind = "NotAnError" && d.isAt places) = true ↔
      d.site ∈ Occasion.sites ⟨.errorType, places⟩ := by
  rw [site_mem_sites_iff, d.cause.topic_eq_errorType_iff, Bool.and_eq_true, decide_eq_true_eq]

theorem Diagnostic.raises_iff :
    (d.cause.kind = "UndeclaredRaise" && d.isAt places) = true ↔
      d.site ∈ Occasion.sites ⟨.raises, places⟩ := by
  rw [site_mem_sites_iff, d.cause.topic_eq_raises_iff, Bool.and_eq_true, decide_eq_true_eq]

theorem Diagnostic.element_iff :
    (d.cause.ofElement && d.isAt places) = true ↔
      d.site ∈ Occasion.sites ⟨.element, places⟩ := by
  rw [site_mem_sites_iff, d.cause.topic_eq_element_iff, Bool.and_eq_true]

end Sites

/-- What a node yields is a report on its one occasion. -/
theorem Node.occasion_of_yields {n : Node Span} (h : n.yields d = true) :
    ∃ o ∈ n.occasions, ∀ e : Diagnostic, n.yields e = true → e.site ∈ o.sites := by
  cases n with
  | clause c =>
    exact ⟨_, List.mem_singleton.2 rfl, fun e he => Diagnostic.errorType_iff.1 he⟩
  | function g => exact ⟨_, List.mem_singleton.2 rfl, fun e he => Diagnostic.raises_iff.1 he⟩
  | expr e =>
    cases e with
    | closure span params clause body =>
      exact ⟨_, List.mem_singleton.2 rfl, fun e he => Diagnostic.raises_iff.1 he⟩
    | collection span kind elements =>
      exact ⟨_, List.mem_singleton.2 rfl, fun e he => Diagnostic.element_iff.1 he⟩
    | _ => cases h
  | stmt s =>
    cases s with
    | raise span value =>
      exact ⟨_, List.mem_singleton.2 rfl, fun e he => Diagnostic.errorType_iff.1 he⟩
    | _ => cases h
  | _ => cases h

/-- The topics of what nodes yield. -/
theorem Diagnostic.topic_of_ofNode (h : d.ofNode = true) :
    d.cause.topic = .errorType ∨ d.cause.topic = .raises ∨ d.cause.topic = .element := by
  simp only [ofNode, Bool.or_eq_true, decide_eq_true_eq] at h
  obtain (hkind | hkind) | helement := h
  · exact .inl (d.cause.topic_eq_errorType_iff.2 hkind)
  · exact .inr (.inl (d.cause.topic_eq_raises_iff.2 hkind))
  · exact .inr (.inr (d.cause.topic_eq_element_iff.2 helement))

/-- Whatever is reported on an occasion of a node and can be yielded is yielded by the node. -/
theorem Node.yields_of_mem {n : Node Span} {o : Occasion} (ho : o ∈ n.occasions)
    (hsite : d.site ∈ o.sites) (hd : d.ofNode = true) : n.yields d = true := by
  have htopic := Diagnostic.topic_of_ofNode hd
  rw [(Diagnostic.site_mem_sites_iff.1 hsite).1] at htopic
  cases n with
  | clause c =>
    cases List.mem_singleton.1 ho
    exact Diagnostic.errorType_iff.2 hsite
  | function g =>
    cases List.mem_singleton.1 ho
    exact Diagnostic.raises_iff.2 hsite
  | expr e =>
    cases e with
    | call span callee args =>
      obtain ⟨i, -, rfl⟩ := List.mem_map.1 ho
      simp at htopic
    | closure span params clause body =>
      cases List.mem_singleton.1 ho
      exact Diagnostic.raises_iff.2 hsite
    | collection span kind elements =>
      cases List.mem_singleton.1 ho
      exact Diagnostic.element_iff.2 hsite
    | _ => cases ho
  | stmt s =>
    cases s with
    | raise span value =>
      cases List.mem_singleton.1 ho
      exact Diagnostic.errorType_iff.2 hsite
    | let_ | assign | insert =>
      cases List.mem_singleton.1 ho
      simp at htopic
    | _ => cases ho
  | _ => cases ho

/-- **No violation is reported twice.** The diagnostics of a check differ in their kinds, their
positions or their particulars. A clause or a raise yields at most one type that is no error, a
collection at most one element that does not fit, and a closure or a function is reported at most
once for what it raises; all such diagnostics are yielded by nodes. -/
theorem Program.check_distinct {source : String} {r : Reading} (h : Program.parse source = .ok r)
    (settings : Settings) (isError : String → Bool) :
    ∃ v, r.program.check settings isError r.skipped = .ok v ∧
      (v.diagnostics.map Diagnostic.key).Nodup ∧
      (∀ n ∈ r.program.nodes, v.diagnostics.countP n.yields ≤ 1) ∧
      ∀ d ∈ v.diagnostics, d.ofNode = true → ∃ n ∈ r.program.nodes, n.yields d = true := by
  obtain ⟨tokens, stop, htokens, hlaid⟩ := Program.exists_laid h
  obtain ⟨v, hv, hreports⟩ :=
    Program.check_reports (Program.parse_wellNamed h) settings isError r.skipped
  have hordered := (Token.readAll_ordered htokens).sublist (List.sublist_append_left ..)
  have hplaces (t : Topic) : (placesOf t (r.program.occasions r.skipped)).Nodup := by
    refine List.nodup_iff_count_le_one.2 fun pos => Nat.le_trans (hlaid.count_placesOf t pos) ?_
    exact List.nodup_iff_count_le_one.1 hordered.nodup_pos pos
  refine ⟨v, hv, ?_, fun n hn => ?_, fun d hd hof => ?_⟩
  · have hsites := List.pairwise_map.1 (hreports.nodup hplaces)
    exact List.pairwise_map.2 (hsites.imp fun hne hkey => hne (Diagnostic.site_eq_of_key_eq hkey))
  · by_cases hnone : ∃ d, n.yields d = true
    · obtain ⟨d, hd⟩ := hnone
      obtain ⟨o, ho, hyields⟩ := Node.occasion_of_yields hd
      have hmem : o ∈ r.program.occasions r.skipped :=
        List.mem_append_right _ (List.mem_flatMap.2 ⟨n, hn, ho⟩)
      have hone := hreports.countP_le_one hplaces hmem
      rw [List.countP_map] at hone
      refine Nat.le_trans (List.countP_mono_left fun e _ he => ?_) hone
      exact decide_eq_true (hyields e he)
    · rw [List.countP_eq_zero.2 fun d _ hd => hnone ⟨d, hd⟩]
      exact Nat.zero_le 1
  · obtain ⟨o, ho, hsite⟩ := hreports.exists_mem (List.mem_map_of_mem hd)
    have htopic := Diagnostic.topic_of_ofNode hof
    rw [(Diagnostic.site_mem_sites_iff.1 hsite).1] at htopic
    rcases List.mem_append.1 ho with ho | ho
    · -- Skipped words and rules are other topics.
      rcases List.mem_append.1 ho with ho | ho
      · obtain ⟨a, -, rfl⟩ := List.mem_map.1 ho
        simp at htopic
      · obtain ⟨g, -, rfl⟩ := List.mem_map.1 ho
        simp [FunDecl.ruleOccasion] at htopic
    · obtain ⟨n, hn, ho⟩ := List.mem_flatMap.1 ho
      exact ⟨n, hn, Node.yields_of_mem ho hsite hof⟩

/-- Two arguments of one call are reported, and a clause inside the element that is reported. -/
theorem Program.check_distinct_faulty :
    ∃ r v, Program.parse faultySource = .ok r ∧
      r.program.check { policy := .precise } r.program.declaresError r.skipped = .ok v ∧
      (v.diagnostics.map fun d => (d.cause.kind, d.pos)) = faultyReports ∧
      (v.diagnostics.map Diagnostic.key).Nodup ∧
      (∀ n ∈ r.program.nodes, v.diagnostics.countP n.yields ≤ 1) ∧
      ∀ d ∈ v.diagnostics, d.ofNode = true → ∃ n ∈ r.program.nodes, n.yields d = true := by
  obtain ⟨r, v, hr, hv, hview⟩ := exists_verdict_faultySource
  obtain ⟨v', hv', hdistinct⟩ :=
    Program.check_distinct hr { policy := .precise } r.program.declaresError
  cases hv.symm.trans hv'
  exact ⟨r, v, hr, hv, hview, hdistinct⟩

end RaisingEffects
