import RaisingEffects.Proofs.Analysis.Relabel

/-!
# Bodies depend on neither numbers nor places

`Mirrors c ρ m m' φ` says that `m'` is put together as `m` is, from the same steps at the places and
with the numbers that `ρ` gives, and that it returns what `φ` makes of what `m` returns. The walk
over a moved part of a body mirrors the walk over the part (`Part.mirrored`, by one induction). What
a proof needs to know of the steps is then shown once for each kind of step: `Mirrors.alike` follows
two runs that go on after a violation, from states that differ in numbers and places, and
`Analysis.bodyEffect_alike` is its consequence for a whole body.
-/

namespace RaisingEffects

/-- The context in which the first violation ends the analysis, or does not. -/
def Context.failing (c : Context) (failFast : Bool) : Context := { c with failFast }

/-- The closures that are known from before are known at their new places too. -/
def Context.Mirrored (c : Context) (ρ : Relabelling) : Prop :=
  ∀ span : Span, c.known (span.move ρ.place) = c.known span

open Analysis

variable {c : Context} {ρ : Relabelling}

namespace Analysis

/-! ## Mirrored analyses -/

/-- The second analysis takes the steps of the first, with other numbers and places. Neither of
them looks at whether the first violation ends the analysis, except where it reports one. -/
inductive Mirrors (c : Context) (ρ : Relabelling) :
    {α β : Type} → Analysis α → Analysis β → (α → β) → Prop
  | pure {α β : Type} {φ : α → β} {a : α} {b : β} (h : b = φ a) :
    Mirrors c ρ (Pure.pure a) (Pure.pure b) φ
  | bind {α β γ δ : Type} {m : Analysis α} {m' : Analysis β} {φ : α → β} {f : α → Analysis γ}
      {f' : β → Analysis δ} {ψ : γ → δ} (h : Mirrors c ρ m m' φ)
      (hf : ∀ a, Mirrors c ρ (f a) (f' (φ a)) ψ) : Mirrors c ρ (m >>= f) (m' >>= f') ψ
  | context {γ δ : Type} {f : Context → Analysis γ} {f' : Context → Analysis δ} {ψ : γ → δ}
      (hread : f (c.failing true) = f (c.failing false))
      (h : Mirrors c ρ (f (c.failing false)) (f' (c.failing false)) ψ) :
    Mirrors c ρ (context >>= f) (context >>= f') ψ
  | lookup (name : String) :
    Mirrors c ρ (lookup name) (lookup name) (Option.map (Binding.relabel ρ))
  | aggregate? (id : Nat) : Mirrors c ρ (aggregate? id) (aggregate? (ρ.number id)) fun a => a
  | note (entry : LogEntry) (h : ∀ v, entry ≠ .violation v) :
    Mirrors c ρ (note entry) (note (entry.move ρ.place)) fun u => u
  | report (v : Violation) : Mirrors c ρ (report v) (report (v.move ρ.place)) fun u => u
  | contribute (e : Effect) : Mirrors c ρ (contribute e) (contribute e) fun u => u
  | define (name : String) (b : Binding) :
    Mirrors c ρ (define name b) (define name (b.relabel ρ)) fun u => u
  | rebind (name : String) (b : Binding) :
    Mirrors c ρ (rebind name b) (rebind name (b.relabel ρ)) fun u => u
  | newAggregate (a : Aggregate) : Mirrors c ρ (newAggregate a) (newAggregate a) ρ.number
  | setAggregate (id : Nat) (a : Aggregate) :
    Mirrors c ρ (setAggregate id a) (setAggregate (ρ.number id) a) fun u => u
  | inScope {α β : Type} {m : Analysis α} {m' : Analysis β} {φ : α → β} (h : Mirrors c ρ m m' φ) :
    Mirrors c ρ (inScope m) (inScope m') φ
  | collecting {α β : Type} {m : Analysis α} {m' : Analysis β} {φ : α → β}
      (h : Mirrors c ρ m m' φ) :
    Mirrors c ρ (collecting m) (collecting m') fun r => (φ r.1, r.2)

namespace Mirrors

variable {α β : Type} {m m₁ m₂ : Analysis α} {m' m₁' m₂' : Analysis β} {φ : α → β}

theorem ite {p : Prop} [Decidable p] (h₁ : Mirrors c ρ m₁ m₁' φ) (h₂ : Mirrors c ρ m₂ m₂' φ) :
    Mirrors c ρ (if p then m₁ else m₂) (if p then m₁' else m₂') φ := by
  by_cases hp : p
  · rw [if_pos hp, if_pos hp]
    exact h₁
  · rw [if_neg hp, if_neg hp]
    exact h₂

/-- A violation that is reported before a value is returned. -/
theorem reported (v : Violation) {a : α} {b : β} (h : b = φ a) :
    Mirrors c ρ (Analysis.report v >>= fun _ => Pure.pure a)
      (Analysis.report (v.move ρ.place) >>= fun _ => Pure.pure b) φ :=
  (report v).bind fun _ => .pure h

/-- Runs that go on after a violation take related states to related states. -/
theorem alike (hc : c.failFast = false) (h : Mirrors c ρ m m' φ) : Alike c ρ m m' φ := by
  have hfailing : c.failing false = c := by rw [← hc]; rfl
  induction h with
  | pure h => exact .pure h
  | bind _ _ ih ihf => exact ih.bind ihf
  | context _ _ ih => exact .withContext (by rwa [hfailing] at ih)
  | lookup name => exact .lookup name
  | aggregate? id => exact .aggregate? id
  | note entry => exact .note entry
  | report v => exact .report hc v
  | contribute e => exact .contribute e
  | define name b => exact .define name b
  | rebind name b => exact .rebind name b
  | newAggregate a => exact .newAggregate a
  | setAggregate id a => exact .setAggregate id a
  | inScope _ ih => exact ih.inScope
  | collecting _ ih => exact ih.collecting

end Mirrors

/-! ## Declarations at other places -/

section Places

variable (place : Pos → Pos) (isError : String → Bool)

theorem elementClause?_move (type : Option (TypeExpr Span)) :
    (type.map (·.map (Span.move place))).bind elementClause? =
      (type.bind elementClause?).map (Option.map (·.map (Span.move place))) := by
  obtain _ | ⟨loc, name, args⟩ | ⟨loc, params, clause, _ | result⟩ := type
  · rfl
  · obtain _ | ⟨_ | ⟨loc', params, clause, _ | result⟩, _ | ⟨arg, args⟩⟩ := args
    any_goals rfl
    all_goals
      simp only [Option.map_some, Option.bind_some, TypeExpr.map, TypeExpr.mapAll, elementClause?]
      split <;> rfl
  · rfl
  · rfl

theorem errorType?_move (type : Option (TypeExpr Span)) :
    errorType? isError (type.map (·.map (Span.move place))) = errorType? isError type := by
  obtain _ | ⟨loc, name, args⟩ | ⟨loc, params, clause, _ | result⟩ := type <;> rfl

end Places

/-! ## Parameters -/

theorem declaredEffect_mirrors (clause : Option (Clause Span)) :
    Mirrors c ρ (declaredEffect clause) (declaredEffect (clause.map (·.map (Span.move ρ.place))))
      fun a => a := by
  refine .context rfl ?_
  have htypes : (clause.map (·.map (Span.move ρ.place))).map Clause.types =
      clause.map Clause.types := by cases clause <;> rfl
  have hpos : (clause.map (·.map (Span.move ρ.place))).map (fun c => c.loc.start) =
      (clause.map fun c => c.loc.start).map ρ.place := by cases clause <;> rfl
  rw [htypes, hpos]
  cases Effect.ofClause (c.failing false).isError (clause.map Clause.types) with
  | ok e => exact .pure rfl
  | error type =>
    have hreport : Mirrors c ρ _ _ _ :=
      .report ⟨.clauseNotError type, clause.map fun c => c.loc.start, true⟩
    exact hreport.bind fun _ => .pure rfl

theorem parameterBinding_mirrors (p : Param Span) :
    Mirrors c ρ (parameterBinding p) (parameterBinding (p.map (Span.move ρ.place)))
      (Binding.relabel ρ) := by
  obtain ⟨name, _ | ⟨loc, type, args⟩ | ⟨loc, params, clause, result⟩⟩ := p
  · exact .context rfl (.pure rfl)
  · have helement := elementClause?_move ρ.place (some (.named loc type args))
    unfold parameterBinding
    dsimp only [Param.map, Option.map_some, TypeExpr.map] at helement ⊢
    rw [helement]
    cases Option.bind (some (TypeExpr.named loc type args)) elementClause? with
    | some clause =>
      exact (declaredEffect_mirrors clause).bind fun e => (Mirrors.newAggregate _).bind fun id =>
        .pure rfl
    | none =>
      refine .context rfl ?_
      dsimp only [errorType?]
      split <;> exact .pure rfl
  · unfold parameterBinding
    dsimp only [Param.map, Option.map_some]
    rw [TypeExpr.map_fn]
    exact (declaredEffect_mirrors clause).bind fun e => .pure rfl

theorem parameterBindings_mirrors (ps : List (Param Span)) :
    Mirrors c ρ (parameterBindings ps) (parameterBindings (ps.map (·.map (Span.move ρ.place))))
      (List.map (Binding.relabel ρ)) := by
  induction ps with
  | nil => exact .pure rfl
  | cons p ps ih =>
    exact (parameterBinding_mirrors p).bind fun b => ih.bind fun bs => .pure rfl

theorem defineAll_mirrors (names : List String) (bs : List Binding) :
    Mirrors c ρ (defineAll (names.zip bs)) (defineAll (names.zip (bs.map (Binding.relabel ρ))))
      fun a => a := by
  induction names generalizing bs with
  | nil => exact .pure rfl
  | cons name names ih =>
    cases bs with
    | nil => exact .pure rfl
    | cons b bs => exact (Mirrors.define name b).bind fun _ => ih bs

theorem bindParams_mirrors (ps : List (Param Span)) :
    Mirrors c ρ (bindParams ps) (bindParams (ps.map (·.map (Span.move ρ.place)))) fun a => a := by
  unfold bindParams
  rw [Param.names_map]
  exact (parameterBindings_mirrors ps).bind fun bs => defineAll_mirrors _ bs

/-! ## Values and calls -/

theorem valueEffect_mirrors (e : Expr Note) :
    Mirrors c ρ (valueEffect e) (valueEffect (e.map (Note.relabel ρ))) fun a => a := by
  cases e with
  | name loc id => exact (Mirrors.lookup id).bind fun b => by cases b <;> exact .pure rfl
  | _ => exact .pure rfl

theorem valueEffects_mirrors (es : List (Expr Note)) :
    Mirrors c ρ (valueEffects es) (valueEffects (Expr.mapAll (Note.relabel ρ) es)) fun a => a := by
  induction es with
  | nil => exact .pure rfl
  | cons e es ih => exact (valueEffect_mirrors e).bind fun _ => ih.bind fun _ => .pure rfl

theorem aggregateOf_mirrors (kind : CollectionKind) (declared : Option Effect)
    (elements : List (Expr Note)) :
    Mirrors c ρ (aggregateOf kind declared elements)
      (aggregateOf kind declared (Expr.mapAll (Note.relabel ρ) elements)) fun a => a := by
  refine (valueEffects_mirrors elements).bind fun es => .context rfl ?_
  cases Aggregate.ofElements (c.failing false).policy declared kind.noun es with
  | ok a => exact .pure rfl
  | error m =>
    dsimp only
    rw [elementPos_relabel]
    exact .reported ⟨.misfit m, elementPos elements m.index, true⟩ rfl

theorem checkArguments_mirrors (callee : String) (pos : Pos) (arguments : List Effect)
    (position : Nat) (params : List (Option Effect)) :
    Mirrors c ρ (checkArguments callee pos arguments position params)
      (checkArguments callee (ρ.place pos) arguments position params) fun a => a := by
  induction params generalizing position with
  | nil => exact .pure rfl
  | cons expected rest ih =>
    have hrest (b : Bool) : Mirrors c ρ
        (do return b || (← checkArguments callee pos arguments (position + 1) rest))
        (do return b || (← checkArguments callee (ρ.place pos) arguments (position + 1) rest))
        fun a => a := (ih (position + 1)).bind fun _ => .pure rfl
    cases expected with
    | none => exact hrest false
    | some expected =>
      unfold checkArguments
      cases arguments[position]? with
      | none => exact hrest false
      | some actual =>
        refine .ite (hrest false) ?_
        exact (Mirrors.report (.at_ (.argumentMismatch callee position expected actual) pos)).bind
          fun _ => hrest true

theorem noteJoin_mirrors (f : Forwarding) (e : Effect) :
    Mirrors c ρ (noteJoin f e) (noteJoin (f.move ρ.place) e) fun a => a :=
  .ite (.note (.forwards f.function e) (by simp)) (.pure rfl)

theorem forwardedCall_mirrors (f : Forwarding) (pos : Pos) (arguments : List Effect) :
    Mirrors c ρ (forwardedCall f pos arguments)
      (forwardedCall (f.move ρ.place) (ρ.place pos) arguments) fun a => a := by
  have heffects : forwardedEffects (f.move ρ.place) arguments = forwardedEffects f arguments := rfl
  unfold forwardedCall
  dsimp only
  rw [heffects, Forwarding.callSite_move]
  cases f.callSite (forwardedEffects f arguments) with
  | ok e =>
    refine .ite ?_ (.pure rfl)
    exact (noteJoin_mirrors f e).bind fun _ => .pure rfl
  | error v =>
    dsimp only [Except.mapError]
    rw [← Violation.move_locate]
    exact .reported (v.locate pos) rfl

theorem callEffect_mirrors (callee : String) (pos : Pos) (args : List (Expr Note)) :
    Mirrors c ρ (callEffect callee pos args)
      (callEffect callee (ρ.place pos) (Expr.mapAll (Note.relabel ρ) args)) fun a => a := by
  refine (Mirrors.lookup callee).bind fun b => ?_
  cases b with
  | none => exact .pure rfl
  | some b =>
    refine .ite ?_ (.pure rfl)
    refine (valueEffects_mirrors args).bind fun arguments =>
      (checkArguments_mirrors callee pos arguments 0 _).bind fun mismatch => ?_
    dsimp only [Binding.relabel]
    cases b.forwarding with
    | none => exact .pure rfl
    | some f => exact .ite (.pure rfl) (forwardedCall_mirrors f pos arguments)

/-! ## Raised and bound values -/

theorem raisedType_mirrors (name : String) (pos : Pos) :
    Mirrors c ρ (raisedType name pos) (raisedType name (ρ.place pos)) fun a => a :=
  .context rfl (.ite (.pure rfl) (.reported (.at_ (.raisedNotError name) pos) rfl))

theorem raisedEffect_mirrors (e : Expr Note) :
    Mirrors c ρ (raisedEffect e) (raisedEffect (e.map (Note.relabel ρ))) fun a => a := by
  cases e with
  | call loc callee args =>
    refine (Mirrors.lookup callee).bind fun b => ?_
    cases b with
    | none => exact .pure rfl
    | some b =>
      exact .ite (raisedType_mirrors callee loc.span.start) (.pure rfl)
  | name loc id =>
    refine (Mirrors.lookup id).bind fun b => ?_
    cases b with
    | none => exact .pure rfl
    | some b =>
      dsimp only [Option.map_some, Binding.relabel]
      split
      · exact .pure rfl
      · exact raisedType_mirrors id loc.span.start
      · exact .pure rfl
  | _ => exact .pure rfl

theorem annotatedBinding_mirrors (type : Option (TypeExpr Span)) :
    Mirrors c ρ (annotatedBinding type) (annotatedBinding (type.map (·.map (Span.move ρ.place))))
      (Binding.relabel ρ) := by
  refine .context rfl ?_
  rw [errorType?_move]
  split <;> exact .pure rfl

theorem effectful?_relabel (b : Option Binding) :
    effectful? (b.map (Binding.relabel ρ)) = (effectful? b).map (Binding.relabel ρ) := by
  cases b with
  | none => rfl
  | some b =>
    rw [effectful?, effectful?, Option.map_some, Option.filter_some, Option.filter_some]
    exact (apply_ite (Option.map (Binding.relabel ρ)) _ (some b) none).symm

theorem bindingOfValue_mirrors (type : Option (TypeExpr Span)) (e : Expr Note) :
    Mirrors c ρ (bindingOfValue type e)
      (bindingOfValue (type.map (·.map (Span.move ρ.place))) (e.map (Note.relabel ρ)))
      (Binding.relabel ρ) := by
  cases e with
  | closure => exact .pure rfl
  | call loc callee args =>
    exact .context rfl (.ite (.pure rfl) (annotatedBinding_mirrors type))
  | name loc id =>
    refine (Mirrors.lookup id).bind fun b => ?_
    rw [effectful?_relabel]
    cases effectful? b with
    | none => exact annotatedBinding_mirrors type
    | some b => exact .pure rfl
  | _ => exact annotatedBinding_mirrors type

theorem closureEffect_mirrors (span : Span) (clause : Option (Clause Span))
    (candidates : List Effect) :
    Mirrors c ρ (closureEffect span clause candidates)
      (closureEffect (span.move ρ.place) (clause.map (·.map (Span.move ρ.place))) candidates)
      fun a => a := by
  cases clause with
  | none => exact .context rfl (.pure rfl)
  | some clause =>
    exact (declaredEffect_mirrors (some clause)).bind fun declared => .ite (.pure rfl)
      (.reported (.at_ (.closureRaises declared (.joinAll candidates)) span.start) rfl)

/-! ## Statements -/

theorem declaredFunction_mirrors (type : Option (TypeExpr Span)) :
    Mirrors c ρ (declaredFunction type) (declaredFunction (type.map (·.map (Span.move ρ.place))))
      fun a => a := by
  obtain _ | ⟨loc, name, args⟩ | ⟨loc, params, clause, result⟩ := type
  · exact .pure rfl
  · exact .pure rfl
  · rw [Option.map_some, TypeExpr.map_fn]
    exact (declaredEffect_mirrors clause).bind fun _ => .pure rfl

theorem declaredElement_mirrors (type : Option (TypeExpr Span)) :
    Mirrors c ρ (declaredElement type) (declaredElement (type.map (·.map (Span.move ρ.place))))
      fun a => a := by
  unfold declaredElement
  rw [elementClause?_move]
  cases type.bind elementClause? with
  | none => exact .pure rfl
  | some clause => exact (declaredEffect_mirrors clause).bind fun _ => .pure rfl

theorem bindValue_mirrors (name : String) (pos : Pos) (type : Option (TypeExpr Span))
    (declared : Option Effect) (value : Expr Note) :
    Mirrors c ρ (bindValue name pos type declared value)
      (bindValue name (ρ.place pos) (type.map (·.map (Span.move ρ.place))) declared
        (value.map (Note.relabel ρ))) fun a => a := by
  cases declared with
  | none =>
    exact (bindingOfValue_mirrors type value).bind fun b => (Mirrors.define name b).bind fun _ =>
      .pure rfl
  | some d =>
    refine (valueEffect_mirrors value).bind fun actual => .ite ?_ ?_
    · exact (Mirrors.define name (.callable d)).bind fun _ => .pure rfl
    · refine (Mirrors.report (.at_ (.letMismatch name d actual) pos)).bind fun _ => ?_
      exact (Mirrors.define name (.callable .raisesAny)).bind fun _ => .pure rfl

theorem assignValue_mirrors (target : String) (pos : Pos) (value : Expr Note) :
    Mirrors c ρ (assignValue target pos value)
      (assignValue target (ρ.place pos) (value.map (Note.relabel ρ))) fun a => a := by
  refine (Mirrors.lookup target).bind fun b => ?_
  cases b with
  | none => exact .pure rfl
  | some b =>
    refine .ite ?_ (.pure rfl)
    refine (valueEffect_mirrors value).bind fun actual => .ite (.pure rfl) ?_
    refine (Mirrors.report (.at_ (.assignMismatch target b.effect actual) pos)).bind fun _ => ?_
    exact (Mirrors.rebind target (.callable .raisesAny)).bind fun _ => .pure rfl

theorem aggregate_relabel (b : Option Binding) :
    (b.map (Binding.relabel ρ)).bind Binding.aggregate =
      (b.bind Binding.aggregate).map ρ.number := by
  cases b <;> rfl

theorem insertValue_mirrors (target : String) (pos : Pos) (value : Expr Note) :
    Mirrors c ρ (insertValue target pos value)
      (insertValue target (ρ.place pos) (value.map (Note.relabel ρ))) fun a => a := by
  refine (Mirrors.lookup target).bind fun b => ?_
  rw [aggregate_relabel]
  cases b.bind Binding.aggregate with
  | none => exact .pure rfl
  | some id =>
    refine (valueEffect_mirrors value).bind fun e => (Mirrors.aggregate? id).bind fun a => ?_
    cases a with
    | none => exact .pure rfl
    | some a =>
      dsimp only
      cases a.insert e none with
      | ok a => exact (Mirrors.setAggregate id a).bind fun _ => .pure rfl
      | error m => exact .reported (.at_ (.misfit m) pos) rfl

theorem iterableEffect_mirrors (e : Expr Note) :
    Mirrors c ρ (iterableEffect e) (iterableEffect (e.map (Note.relabel ρ))) fun a => a := by
  cases e with
  | name loc id =>
    refine (Mirrors.lookup id).bind fun b => ?_
    rw [aggregate_relabel]
    cases b.bind Binding.aggregate with
    | none => exact .pure rfl
    | some id => exact (Mirrors.aggregate? id).bind fun _ => .pure rfl
  | _ => exact .pure rfl

end Analysis

/-! ## The walk -/

/-- The walk over the part at its new place mirrors the walk over the part. Where a collection is
bound or iterated over, only its elements are walked. -/
def Part.Mirrored (c : Context) (ρ : Relabelling) : Part Span → Prop
  | expr e =>
    Mirrors c ρ e.analyse (e.map (Span.move ρ.place)).analyse (Expr.map (Note.relabel ρ)) ∧
      ∀ span kind es, e = .collection span kind es → Mirrors c ρ (Expr.analyseAll es)
        (Expr.analyseAll (Expr.mapAll (Span.move ρ.place) es)) (Expr.mapAll (Note.relabel ρ))
  | exprs es => Mirrors c ρ (Expr.analyseAll es)
      (Expr.analyseAll (Expr.mapAll (Span.move ρ.place) es)) (Expr.mapAll (Note.relabel ρ))
  | body b => Mirrors c ρ b.analyse (b.map (Span.move ρ.place)).analyse (Body.map (Note.relabel ρ))
  | block b =>
    Mirrors c ρ b.analyse (b.map (Span.move ρ.place)).analyse (Block.map (Note.relabel ρ))
  | stmt t => Mirrors c ρ t.analyse (t.map (Span.move ρ.place)).analyse (Stmt.map (Note.relabel ρ))
  | stmts ts => Mirrors c ρ (Stmt.analyseAll ts)
      (Stmt.analyseAll (Stmt.mapAll (Span.move ρ.place) ts)) (Stmt.mapAll (Note.relabel ρ))
  | rest r => Mirrors c ρ r.analyse (r.map (Span.move ρ.place)).analyse (Else.map (Note.relabel ρ))

/-- The body of a loop, under its variable. -/
theorem Analysis.loop_mirrors (target : String) (e : Option Effect) {b : Block Span}
    (ih : (Part.block b).Mirrored c ρ) :
    Mirrors c ρ (inScope do define target (loopBinding e); b.analyse)
      (inScope do define target (loopBinding e); (b.map (Span.move ρ.place)).analyse)
      (Block.map (Note.relabel ρ)) := by
  have hdefine : Mirrors c ρ _ _ _ := .define target (loopBinding e)
  rw [show (loopBinding e).relabel ρ = loopBinding e by cases e <;> rfl] at hdefine
  exact .inScope (hdefine.bind fun _ => ih)

theorem Part.mirrored (hk : c.Mirrored ρ) (t : Part Span) : t.Mirrored c ρ := by
  induction t using Part.induction with
  | name | literal => exact ⟨.pure rfl, by simp⟩
  | exprsNil | returnNone | stmtsNil | restNone => exact .pure rfl
  | call span callee _ ih =>
    refine ⟨ih.bind fun args => ?_, by simp⟩
    refine (callEffect_mirrors callee span.start args).bind fun e => ?_
    exact .ite ((Mirrors.contribute e).bind fun _ => .pure rfl) (.pure rfl)
  | closure span params clause b ih =>
    refine ⟨.context rfl ?_, by simp⟩
    rw [show (c.failing false).known (span.move ρ.place) = c.known span from hk span]
    dsimp only [Context.failing]
    cases c.known span with
    | some e =>
      refine .pure ?_
      rw [Expr.map, Param.list_relabel_blank, Clause.option_relabel_blank, Body.map_map,
        Body.map_map]
      rfl
    | none =>
      refine (Mirrors.inScope ((bindParams_mirrors params).bind fun _ => .collecting ih)).bind
        fun r => (closureEffect_mirrors span clause r.2).bind fun e =>
        (Mirrors.note (.closure span e) (by simp)).bind fun _ => .pure ?_
      rw [Expr.map, Param.list_relabel_blank, Clause.option_relabel_blank]
      rfl
  | collection _ kind _ ih =>
    refine ⟨ih.bind fun elements => (aggregateOf_mirrors kind none elements).bind fun a =>
      (Mirrors.newAggregate a).bind fun id => .pure rfl, ?_⟩
    rintro _ _ _ ⟨⟩
    exact ih
  | unary _ _ ih => exact ⟨ih.1.bind fun _ => .pure rfl, by simp⟩
  | binary _ _ _ ih ih' => exact ⟨ih.1.bind fun _ => ih'.1.bind fun _ => .pure rfl, by simp⟩
  | bodyBlock _ ih | restBlock _ ih => exact ih.bind fun _ => .pure rfl
  | bodyExpr _ ih | returnSome _ _ ih | stmtExpr _ ih => exact ih.1.bind fun _ => .pure rfl
  | exprsCons _ _ ih ih' | while_ _ _ ih ih' => exact ih.1.bind fun _ => ih'.bind fun _ => .pure rfl
  | stmtsCons _ _ ih ih' => exact ih.bind fun _ => ih'.bind fun _ => .pure rfl
  | if_ _ _ _ ih ih' ih'' | elif _ _ _ ih ih' ih'' =>
    exact ih.1.bind fun _ => ih'.bind fun _ => ih''.bind fun _ => .pure rfl
  | block_ _ _ ih => exact (Mirrors.inScope ih).bind fun _ => .pure rfl
  | let_ span name _ type value ih =>
    rw [Mirrored, Stmt.map]
    unfold Stmt.analyse
    refine (declaredFunction_mirrors type).bind fun declared =>
      (declaredElement_mirrors type).bind fun element => ?_
    cases value with
    | collection _ kind elements =>
      refine (ih.2 _ _ elements rfl).bind fun elements =>
        (aggregateOf_mirrors kind element elements).bind fun a =>
        (Mirrors.newAggregate a).bind fun id => (Mirrors.define name _).bind fun _ => .pure ?_
      rw [Stmt.map, TypeExpr.option_relabel_blank]
      rfl
    | _ =>
      refine ih.1.bind fun value =>
        (bindValue_mirrors name span.start type declared value).bind fun e => .pure ?_
      rw [Stmt.map, TypeExpr.option_relabel_blank]
      rfl
  | assign span target _ ih =>
    exact ih.1.bind fun value => (assignValue_mirrors target span.start value).bind fun _ =>
      .pure rfl
  | raise _ _ ih =>
    exact ih.1.bind fun value => (raisedEffect_mirrors value).bind fun e =>
      (Mirrors.contribute e).bind fun _ => .pure rfl
  | try_ _ _ binding _ ih ih' =>
    refine (Mirrors.collecting ih).bind fun r => (Mirrors.inScope ?_).bind fun _ => .pure rfl
    cases binding with
    | none => exact ih'
    | some name => exact (Mirrors.define name (caughtBinding _)).bind fun _ => ih'
  | insert span target _ _ ih =>
    exact ih.1.bind fun value => (insertValue_mirrors target span.start value).bind fun _ =>
      .pure rfl
  | for_ target iterable _ ih ih' =>
    cases iterable with
    | collection _ kind elements =>
      exact (ih.2 _ _ elements rfl).bind fun elements =>
        (aggregateOf_mirrors kind none elements).bind fun a =>
        (Mirrors.newAggregate a).bind fun id => (loop_mirrors target a.effect ih').bind fun _ =>
        .pure rfl
    | _ =>
      exact ih.1.bind fun iterable => (iterableEffect_mirrors iterable).bind fun e =>
        (loop_mirrors target e ih').bind fun _ => .pure rfl

theorem Analysis.bodyEffect_mirrors (hk : c.Mirrored ρ) (body : Block Span) :
    Mirrors c ρ (bodyEffect body) (bodyEffect (body.map (Span.move ρ.place)))
      fun r => (r.1.map (Note.relabel ρ), r.2) :=
  (Mirrors.collecting ((Part.block body).mirrored hk)).bind fun _ => .pure rfl

/-- The effect of a body depends on neither numbers nor places. -/
theorem Analysis.bodyEffect_alike (hc : c.Collects) (body : Block Span) :
    Alike c ρ (bodyEffect body) (bodyEffect (body.map (Span.move ρ.place)))
      fun r => (r.1.map (Note.relabel ρ), r.2) :=
  (bodyEffect_mirrors (fun span => by rw [hc.known, hc.known]) body).alike hc.failFast

end RaisingEffects
