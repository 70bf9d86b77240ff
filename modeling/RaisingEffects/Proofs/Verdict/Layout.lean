import RaisingEffects.Proofs.Parse.Moved
import RaisingEffects.Proofs.Verdict.Alone

/-!
# Layout does not count

Two texts that are cut into the same tokens, wherever these stand, are read as the same program and
checked with the same outcome: `Program.parse_layout`.

Both halves of this are about moving places. Reading moved tokens gives the same program apart from
places (`Program.ofTokens_move`), and checking a moved program gives the same effects and the moved
diagnostics (`Program.check_move`). Moving everything to one place leaves only what does not depend
on the layout.
-/

namespace RaisingEffects

open Analysis

/-! ## Checking moved programs -/

namespace Analysis

variable {c : Context} {ρ : Relabelling}

theorem noteSkipped_alike (as : List Ambiguity) :
    Alike c ρ (noteSkipped as) (noteSkipped (as.map (Ambiguity.move ρ.place))) fun u => u := by
  induction as with
  | nil => exact .pure rfl
  | cons a as ih => exact (Alike.note (.violation a.violation)).bind fun _ => ih

theorem declareTypes_alike (ds : List (NameDecl Span)) :
    Alike c ρ (declareTypes ds) (declareTypes (ds.map (·.map (Span.move ρ.place)))) fun u => u := by
  induction ds with
  | nil => exact .pure rfl
  | cons d ds ih => exact (Alike.define d.name { kind := .typeName }).bind fun _ => ih

theorem memberEffects_alike (hc : c.Collects) (i : Interface Span) (ms : List (Member Span)) :
    Alike c ρ (memberEffects i ms)
      (memberEffects (i.map (Span.move ρ.place)) (ms.map (·.map (Span.move ρ.place))))
      (List.map (Member.map (Note.relabel ρ))) := by
  induction ms with
  | nil => exact .pure rfl
  | cons m ms ih =>
    have hmember := hc.within (memberName i.name m.name)
    refine (Alike.within ((declaredEffect_mirrors m.clause).alike hmember.failFast)).bind fun e =>
      ih.bind fun rest => .pure ?_
    refine congrArg₂ List.cons ?_ rfl
    simp only [Member.map, Param.list_relabel_blank, Clause.option_relabel_blank,
      TypeExpr.option_relabel_blank]
    rfl

theorem interfaceEffects_alike (hc : c.Collects) (is : List (Interface Span)) :
    Alike c ρ (interfaceEffects is) (interfaceEffects (is.map (·.map (Span.move ρ.place))))
      (List.map (Interface.map (Note.relabel ρ))) := by
  induction is with
  | nil => exact .pure rfl
  | cons i is ih =>
    exact (memberEffects_alike hc i i.members).bind fun members => ih.bind fun rest => .pure rfl

theorem callableEffects_relabel (g : FunDecl Span) (bs : List Binding) :
    callableEffects (g.map (Span.move ρ.place)) (bs.map (Binding.relabel ρ)) =
      callableEffects g bs := by
  rw [callableEffects, callableEffects, FunDecl.map, Param.names_map, List.zip_map_right,
    List.filterMap_map]
  rfl

theorem resolveFunction_move (place : Pos → Pos) (g : FunDecl Span) (effects : Table Effect) :
    resolveFunction (g.map (Span.move place)) effects =
      ((resolveFunction g effects).map fun r => (r.1.move place, r.2)).mapError
        (Violation.move place) := by
  rw [resolveFunction, resolveFunction, Forwarding.ofFunction_move]
  cases Forwarding.ofFunction g effects with
  | error v => rfl
  | ok f =>
    have hresolve := f.resolve_move place effects
    simp only [Except.map, Except.mapError, Bind.bind, Except.bind, hresolve]
    cases f.resolve effects <;> rfl

theorem signature_alike (hc : c.failFast = false) (g : FunDecl Span) :
    Alike c ρ (signature g) (signature (g.map (Span.move ρ.place))) (Signature.relabel ρ) := by
  refine ((parameterBindings_mirrors g.params).alike hc).bind fun bs => ?_
  have hparams : (bs.map (Binding.relabel ρ)).map expectedEffect = bs.map expectedEffect :=
    List.map_map ..
  dsimp only
  rw [hparams, callableEffects_relabel, resolveFunction_move]
  refine .ite (fun _ => ?_) fun _ => ?_
  · exact ((declaredEffect_mirrors g.clause).alike hc).bind fun e => .pure rfl
  cases resolveFunction g (callableEffects g bs) with
  | ok r =>
    refine ((noteJoin_mirrors r.1 r.2).alike hc).bind fun _ => ?_
    exact (Alike.note (.resolved g.name r.1.mode r.2)).bind fun _ => .pure rfl
  | error v => exact (Alike.note (.violation v)).bind fun _ => .pure rfl

theorem signatures_alike (hc : c.Collects) (gs : List (FunDecl Span)) :
    Alike c ρ (signatures gs) (signatures (gs.map (·.map (Span.move ρ.place))))
      (List.map (Signature.relabel ρ)) := by
  induction gs with
  | nil => exact .pure rfl
  | cons g gs ih =>
    have hfunction := hc.within g.name
    refine (Alike.within (signature_alike hfunction.failFast g)).bind fun sig => ?_
    exact (Alike.define g.name sig.binding).bind fun _ => ih.bind fun sigs => .pure rfl

theorem checkFunctions_alike (hc : c.Collects) (checkBodies : Bool) (gs : List (FunDecl Span))
    (sigs : List Signature) :
    Alike c ρ (checkFunctions checkBodies (gs.zip sigs))
      (checkFunctions checkBodies
        ((gs.map (·.map (Span.move ρ.place))).zip (sigs.map (Signature.relabel ρ))))
      (List.map (FunDecl.map (Note.relabel ρ))) := by
  induction gs generalizing sigs with
  | nil => exact .pure rfl
  | cons g gs ih =>
    cases sigs with
    | nil => exact .pure rfl
    | cons sig sigs =>
      refine (Alike.within (checkFunction_alike (hc.within g.name) checkBodies g sig)).bind
        fun g' => ?_
      exact (ih sigs).bind fun gs' => .pure rfl

theorem checkProgram_alike (hc : c.Collects) (checkBodies : Bool) (p : Program Span)
    (skipped : List Ambiguity) :
    Alike c ρ (checkProgram checkBodies p skipped)
      (checkProgram checkBodies (p.map (Span.move ρ.place))
        (skipped.map (Ambiguity.move ρ.place))) (Program.map (Note.relabel ρ)) := by
  have hdeclared : (p.map (Span.move ρ.place)).errors ++ (p.map (Span.move ρ.place)).types =
      (p.errors ++ p.types).map (·.map (Span.move ρ.place)) := List.map_append.symm
  unfold checkProgram
  rw [hdeclared]
  refine (noteSkipped_alike skipped).bind fun _ => (declareTypes_alike _).bind fun _ => ?_
  refine (interfaceEffects_alike hc p.interfaces).bind fun interfaces => ?_
  refine (signatures_alike hc p.functions).bind fun sigs => ?_
  refine (checkFunctions_alike hc checkBodies p.functions sigs).bind fun functions => .pure ?_
  simp only [Program.map, List.map_map]
  rfl

end Analysis

theorem Analysis.effectTable_relabel (ρ : Relabelling) (interfaces : List (Interface Note))
    (functions : List (FunDecl Note)) :
    effectTable (interfaces.map (·.map (Note.relabel ρ)))
        (functions.map (·.map (Note.relabel ρ))) = effectTable interfaces functions := by
  rw [effectTable, effectTable, List.flatMap_map, List.map_map]
  simp only [Interface.map, List.map_map]
  rfl

/-- The diagnostic at its new place, if it has one. -/
def Diagnostic.move (place : Pos → Pos) (d : Diagnostic) : Diagnostic :=
  { d with pos := d.pos.map place }

/-- The places of a source are moved, and nothing else is changed. -/
def Relabelling.moving (place : Pos → Pos) : Relabelling where
  number := fun i => i
  injective := fun _ _ h => h
  place
  log := []
  log' := []
  before := []

theorem diagnosticsOf_move (place : Pos → Pos) (log : List (Option String × LogEntry)) :
    diagnosticsOf (log.map fun entry => (entry.1, entry.2.move place)) =
      (diagnosticsOf log).map (Diagnostic.move place) := by
  rw [diagnosticsOf, diagnosticsOf, List.filterMap_map, List.map_filterMap]
  congr 1
  funext entry
  obtain ⟨function, entry⟩ := entry
  cases entry <;> rfl

/-- **A moved program is checked with the same effects and the moved diagnostics.** -/
theorem Program.check_move (place : Pos → Pos) (p : Program Span) (settings : Settings)
    (isError : String → Bool) (skipped : List Ambiguity) :
    ∃ v v', p.check settings isError skipped = .ok v ∧
      (p.map (Span.move place)).check settings isError (skipped.map (Ambiguity.move place)) =
        .ok v' ∧
      v'.effects = v.effects ∧ v'.diagnostics = v.diagnostics.map (Diagnostic.move place) := by
  have hc : Context.Collects { policy := settings.policy, isError } := ⟨rfl, fun _ => rfl⟩
  have hstart : AnalysisState.Relabels (.moving place) {} {} :=
    { env := .cons (fun _ => rfl) .nil
      candidates := rfl
      aggregates := fun _ => rfl
      others := fun j h => absurd rfl (h j)
      next := rfl
      step := fun _ _ => rfl
      log := ⟨[], rfl, rfl⟩ }
  obtain ⟨q, s, t, hs, ht, hst⟩ :=
    checkProgram_alike hc settings.checkBodies p skipped {} {} hstart
  have hmoved : checkProgram settings.checkBodies (p.map (Span.move place))
      (skipped.map (Ambiguity.move place)) { policy := settings.policy, isError } {} = _ := ht
  refine ⟨_, _, by rw [check, hs], by rw [check, hmoved], effectTable_relabel .., ?_⟩
  obtain ⟨new, hnew, hlog⟩ := hst.log
  rw [Relabelling.moving, List.nil_append] at hnew hlog
  refine (congrArg diagnosticsOf hlog).trans ?_
  rw [diagnosticsOf_move, ← hnew]
  rfl

/-! ## Layout -/

/-- What a diagnostic says apart from its place. -/
def Diagnostic.content (d : Diagnostic) : Cause × Option String × Bool :=
  (d.cause, d.function, d.pos.isSome)

/-- Tokens that are the same apart from their places are the same in one place. -/
theorem Token.map_move_start {ts us : List Token} (h : ts.map content = us.map content) :
    ts.map (Token.move fun _ => .start) = us.map (Token.move fun _ => .start) := by
  have hmove : Token.move (fun _ => .start) =
      (fun c => Token.mk c.1 c.2 ⟨.start, .start⟩) ∘ content := rfl
  rw [hmove, ← List.map_map, ← List.map_map, h]

/-- Programs that are the same apart from places are the same in one place. -/
theorem Program.map_move_start {p p' : Program Span} (h : p.map unplaced = p'.map unplaced) :
    p.map (Span.move fun _ => .start) = p'.map (Span.move fun _ => .start) := by
  have hmove (p : Program Span) : p.map (Span.move fun _ => .start) =
      (p.map unplaced).map fun _ => (⟨.start, .start⟩ : Span) :=
    (p.map_map (fun _ => (⟨.start, .start⟩ : Span)) unplaced).symm
  rw [hmove, hmove, h]

theorem Program.declaresError_layout {p p' : Program Span} (h : p.map unplaced = p'.map unplaced) :
    p.declaresError = p'.declaresError := by
  have herrors (p : Program Span) :
      (p.map (Span.move fun _ => .start)).declaresError = p.declaresError :=
    funext fun name => List.any_map ..
  rw [← herrors, ← herrors p', map_move_start h]

/-- Programs that are the same apart from places are checked with the same outcome, apart from
places. -/
theorem Reading.check_layout {r r' : Reading}
    (hprogram : r.program.map unplaced = r'.program.map unplaced)
    (hskipped : r.skipped.map (Ambiguity.move fun _ => .start) =
      r'.skipped.map (Ambiguity.move fun _ => .start)) (settings : Settings)
    (isError : String → Bool) :
    ∃ v v', r.program.check settings isError r.skipped = .ok v ∧
      r'.program.check settings isError r'.skipped = .ok v' ∧ v.effects = v'.effects ∧
      v.diagnostics.map Diagnostic.content = v'.diagnostics.map Diagnostic.content := by
  obtain ⟨v, w, hv, hw, heffects, hdiagnostics⟩ :=
    r.program.check_move (fun _ => .start) settings isError r.skipped
  obtain ⟨v', w', hv', hw', heffects', hdiagnostics'⟩ :=
    r'.program.check_move (fun _ => .start) settings isError r'.skipped
  rw [Program.map_move_start hprogram, hskipped, hw', Except.ok.injEq] at hw
  subst hw
  refine ⟨v, v', hv, hv', heffects.symm.trans heffects', ?_⟩
  have hcontent : ∀ ds : List Diagnostic,
      ds.map Diagnostic.content =
        (ds.map (Diagnostic.move fun _ => .start)).map Diagnostic.content := by
    intro ds
    simp [Diagnostic.move, Diagnostic.content]
  rw [hcontent, hcontent v'.diagnostics, ← hdiagnostics, ← hdiagnostics']

/-- **Layout does not count.** Two texts with the same tokens, wherever these stand, are both read,
as the same program, with the same words skipped, and checked with the same effects and the same
diagnostics apart from their places; or both are refused for the same reason. -/
theorem Program.parse_layout {source other : String} {ts us : List Token}
    (hts : Token.readAll source = .ok ts) (hus : Token.readAll other = .ok us)
    (h : ts.map Token.content = us.map Token.content) :
    (∃ r r', parse source = .ok r ∧ parse other = .ok r' ∧
      r.program.map unplaced = r'.program.map unplaced ∧
      r.skipped.map Ambiguity.word = r'.skipped.map Ambiguity.word ∧
      r.program.declaresError = r'.program.declaresError ∧
      ∀ settings isError, ∃ v v', r.program.check settings isError r.skipped = .ok v ∧
        r'.program.check settings isError r'.skipped = .ok v' ∧ v.effects = v'.effects ∧
        v.diagnostics.map Diagnostic.content = v'.diagnostics.map Diagnostic.content) ∨
    (∃ why pos pos', parse source = .error (.fault why pos) ∧
      parse other = .error (.fault why pos')) ∨
    ∃ why, parse source = .error (.numeral why) ∧ parse other = .error (.numeral why) := by
  -- no function of places leads from one text to the other, so both are moved to one place
  have hsource := ofTokens_move (fun _ => .start) (Token.readAll_ended hts)
  have hother := ofTokens_move (fun _ => .start) (Token.readAll_ended hus)
  rw [← Token.map_move_start h] at hother
  rw [parse, parse, hts, hus]
  dsimp only
  rcases hsource with ⟨r, m, hr, hm, hprogram, hskipped⟩ | ⟨e, e₁, he, he₁, hsame⟩ <;>
    rcases hother with ⟨r', m', hr', hm', hprogram', hskipped'⟩ | ⟨e', e₁', he', he₁', hsame'⟩
  · cases hm.symm.trans hm'
    have hprograms := hprogram.symm.trans hprogram'
    have hmoved := hskipped.symm.trans hskipped'
    have hwords := congrArg (List.map Ambiguity.word) hmoved
    rw [List.map_map, List.map_map] at hwords
    exact .inl ⟨r, r', hr, hr', hprograms, hwords, declaresError_layout hprograms,
      Reading.check_layout hprograms hmoved⟩
  · cases hm.symm.trans he₁'
  · cases he₁.symm.trans hm'
  · cases he₁.symm.trans he₁'
    cases hsame with
    | fault why pos _ =>
      cases hsame' with
      | fault _ pos' _ => exact .inr (.inl ⟨why, pos, pos', he, he'⟩)
    | numeral why =>
      cases hsame' with
      | numeral => exact .inr (.inr ⟨why, he, he'⟩)

/-- A source without blanks, where a word is skipped. -/
def tightSource : String := "error E;fn f()raises E\x7braise E();\x7d"

def looseSource : String := "error E ; # E\n\nfn f ( ) raises E\n\x7b\n\traise E ( ) ;\n\x7d\n"

theorem Program.parse_layout_loose :
    ∃ ts us, Token.readAll tightSource = .ok ts ∧ Token.readAll looseSource = .ok us ∧
      ts.map Token.content = us.map Token.content ∧
      ∃ r r', parse tightSource = .ok r ∧ parse looseSource = .ok r' ∧
        r.program.map unplaced = r'.program.map unplaced ∧
        r.skipped.map Ambiguity.word = ["E"] ∧ r'.skipped.map Ambiguity.word = ["E"] ∧
        ∀ settings isError, ∃ v v', r.program.check settings isError r.skipped = .ok v ∧
          r'.program.check settings isError r'.skipped = .ok v' ∧ v.effects = v'.effects ∧
          v.diagnostics.map Diagnostic.content = v'.diagnostics.map Diagnostic.content := by
  obtain ⟨ts, hts, us, hus, hsame⟩ : ∃ ts, Token.readAll tightSource = .ok ts ∧
      ∃ us, Token.readAll looseSource = .ok us ∧ ts.map Token.content = us.map Token.content := by
    decide +kernel
  obtain ⟨r, hread, hskipped⟩ := Program.exists_reading tightSource
    (fun r => r.skipped.map Ambiguity.word = ["E"]) rfl (by decide +kernel)
  refine ⟨ts, us, hts, hus, hsame, ?_⟩
  rcases parse_layout hts hus hsame with
    ⟨q, q', hq, hq', hprogram, hwords, -, hcheck⟩ | ⟨why, pos, pos', hq, -⟩ | ⟨why, hq, -⟩
  · cases hread.symm.trans hq
    exact ⟨r, q', hread, hq', hprogram, hskipped, hwords.symm.trans hskipped, hcheck⟩
  · cases hread.symm.trans hq
  · cases hread.symm.trans hq

end RaisingEffects
