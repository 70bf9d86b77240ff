import RaisingEffects.Proofs.Parse.Follows
import RaisingEffects.Proofs.Tree.Shape

/-!
# Readings of types and functions follow each other

The readers of a level follow those of another level, whatever the depths of both are, and so do
readers of functions and of declarations of names. For types and parameters the two texts may be
skewed where a member ends; a function lies in tokens that are the same in both.

The main results are `Level.type_follows`, `Level.ofDepth_follows` and `Parse.function_follows`.
-/

namespace RaisingEffects

variable {place : Pos → Pos} {K : TokenKind → Bool} {R : Parse.Alignment} {r r' : Level}

namespace Parse

open TokenKind Sign Keyword

/-! ## Types and parameters -/

section Types

variable (h : Tracking place K R)
  (htype : Follows R r.type r'.type (SameBy (TypeExpr.map unplaced)))

include h htype

theorem typeAfter_follows {sign : Sign} (hsign : (symbol sign).ofType = true) :
    Follows R (typeAfter sign r) (typeAfter sign r')
      (SameBy (Option.map (TypeExpr.map unplaced))) := by
  have hmember : (symbol sign).inMember = true := by cases sign <;> first | rfl | cases hsign
  refine (h.accept (h.types _ hsign) (.inr hmember)).bind fun t t' ht => ?_
  cases ht with
  | none => exact .pure rfl
  | some => exact htype.bind fun _ _ hres => .pure (congrArg some hres)

theorem typeOf_follows :
    Follows R (typeOf r) (typeOf r') (SameBy (TypeExpr.map unplaced)) := by
  intro s s' hs
  obtain ⟨t, ts, t', ts', hrest, hrest', hrecurs | hskew⟩ := h.head hs
  · refine .start fun start start' => ?_
    have hahead : Ahead place R t t' s s' := ⟨hs, ⟨ts, hrest⟩, ⟨ts', hrest'⟩, hrecurs⟩
    refine (h.acceptAhead hahead (h.types _ rfl)).bind fun o o' ho => ?_
    cases ho with
    | some =>
      refine (h.expect (h.types _ rfl)).bind fun _ _ _ => ?_
      refine (h.listUntil htype (h.types _ rfl) (.inr rfl)).bind fun ps ps' hps => ?_
      refine h.clause.bind fun c c' hc => ?_
      refine (typeAfter_follows h htype rfl).bind fun res res' hres => ?_
      refine .spanned fun _ _ => ?_
      unfold SameBy at hps hc hres ⊢
      rw [TypeExpr.map_fn, TypeExpr.map_fn, hps, hc, hres]
    | none =>
      refine h.expectName.bind fun name name' hname => ?_
      refine (h.accept (h.types _ rfl) (.inr rfl)).bind fun o o' ho => ?_
      cases ho with
      | none =>
        refine .spanned fun _ _ => ?_
        unfold SameBy
        rw [hname.value]
        rfl
      | some =>
        refine (h.commaList htype).bind fun args args' hargs => ?_
        refine (h.expect (h.types _ rfl)).bind fun _ _ _ => ?_
        refine .spanned fun _ _ => ?_
        unfold SameBy at hargs ⊢
        rw [TypeExpr.map_named, TypeExpr.map_named, hargs, hname.value]
  · -- no type starts with a semicolon
    refine .ofReturns (h.not_strict hskew) fun a s₁ ha => ?_
    have hne : t.kind ≠ .keyword .fn ∧ t.kind ≠ .ident := by simp [hskew.semicolon]
    obtain ⟨_, _, hpeek, ha⟩ := bind_eq_ok ha
    cases hpeek
    rw [bind_of_eq_ok (accept_of_ne hrest hne.1)] at ha
    obtain ⟨name, _, hname, -⟩ := bind_eq_ok ha
    obtain ⟨_, hname, hkind, -⟩ := expect_eq_ok hname
    rw [hrest, List.cons.injEq] at hname
    exact absurd (hname.1 ▸ hkind) hne.2

theorem param_follows : Follows R (param r) (param r') (SameBy (Param.map unplaced)) := by
  refine h.expectName.bind fun name name' hname => ?_
  refine (typeAfter_follows h htype rfl).bind fun type type' ht => .pure ?_
  unfold SameBy at ht ⊢
  rw [Param.map, Param.map, ht, hname.value]

theorem params_follows :
    Follows R (params r) (params r') (SameBy (List.map (Param.map unplaced))) :=
  (h.expect (h.types _ rfl)).bind fun _ _ _ =>
    h.listUntil (param_follows h htype) (h.types _ rfl) (.inr rfl)

end Types

end Parse

/-- Readers of types follow each other at all depths. -/
theorem Level.type_follows (h : Parse.Tracking place K R) (n n' : Nat) :
    Parse.Follows R (ofDepth n).type (ofDepth n').type
      (Parse.SameBy (TypeExpr.map unplaced)) := by
  induction n generalizing n' with
  | zero => exact .spent
  | succ n ih =>
    cases n' with
    | zero => exact .outOfTokens
    | succ n' => exact Parse.typeOf_follows h (ih n')

/-- The readers of a level follow those of another. -/
structure Level.Follows (R : Parse.Alignment) (r r' : Level) : Prop where
  type : Parse.Follows R r.type r'.type (Parse.SameBy (TypeExpr.map unplaced))
  binary : ∀ least,
    Parse.Follows R (r.binary least) (r'.binary least) (Parse.SameBy (Expr.map unplaced))
  unary : Parse.Follows R r.unary r'.unary (Parse.SameBy (Expr.map unplaced))
  block : Parse.Follows R r.block r'.block (Parse.SameBy (Block.map unplaced))

theorem Level.Follows.expr (hr : Level.Follows R r r') :
    Parse.Follows R r.expr r'.expr (Parse.SameBy (Expr.map unplaced)) :=
  hr.binary 0

namespace Parse

open TokenKind Sign Keyword

theorem plain_of_unaryOp {kind : TokenKind} {op : UnaryOp} (h : unaryOp? kind = some op) :
    kind.plain = true := by
  unfold unaryOp? at h
  split at h <;> first | rfl | cases h

theorem plain_of_binaryOp {kind : TokenKind} {op : BinaryOp} (h : binaryOp? kind = some op) :
    kind.plain = true := by
  unfold binaryOp? at h
  split at h <;> first | rfl | cases h

section Bodies

variable (h : Tracking place TokenKind.plain R)

include h

theorem expectSign_follows (sign : Sign) :
    Follows R (expectSign sign) (expectSign sign) (Token.Recurs place) :=
  h.expect rfl

/-- What is read behind a sign. -/
theorem sign_follows {α β : Type} {ρ : α → β → Prop} {sign : Sign} {p : Parse α} {p' : Parse β}
    (hp : Follows R p p' ρ) :
    Follows R (expectSign sign >>= fun _ => p) (expectSign sign >>= fun _ => p') ρ :=
  (expectSign_follows h sign).bind fun _ _ _ => hp

/-! ## Expressions -/

theorem literalOf_follows {s s' : ParseState} {t t' : Token} (hs : Ahead place R t t' s s')
    (hkind : t.kind.plain = true) (v : Literal) :
    FollowsAt R s s' (literalOf t v) (literalOf t' v) (SameBy (Expr.map unplaced)) :=
  h.skip hs hkind ((Follows.spanFrom t t').bind fun _ _ _ => .pure rfl)

theorem numeralOf_follows {α : Type} {s s' : ParseState} {t t' : Token}
    (hs : Ahead place R t t' s s') (hkind : t.kind.plain = true) (v : Except NumeralFault α)
    (f : α → Literal) :
    FollowsAt R s s' (numeralOf t v f) (numeralOf t' v f) (SameBy (Expr.map unplaced)) := by
  cases v with
  | ok a => exact literalOf_follows h hs hkind (f a)
  | error e => exact .numeral e

variable (hr : Level.Follows R r r')

include hr

variable (start start' : Token)

theorem collectionFrom_follows (kind : CollectionKind) :
    Follows R (collectionFrom r start kind) (collectionFrom r' start' kind)
      (SameBy (Expr.map unplaced)) := by
  refine sign_follows h ?_
  refine (h.listUntil hr.expr rfl (.inl rfl)).bind fun es es' hes => ?_
  refine .spanned fun _ _ => ?_
  unfold SameBy at hes ⊢
  rw [Expr.map, Expr.map, Expr.mapAll_eq_map, Expr.mapAll_eq_map, hes]

theorem closureParams_follows :
    Follows R (closureParams r) (closureParams r') (SameBy (List.map (Param.map unplaced))) := by
  refine (h.accept rfl (.inl rfl)).bind fun o o' ho => ?_
  cases ho with
  | some => exact .pure rfl
  | none =>
    refine sign_follows h ?_
    exact h.listUntil (param_follows h hr.type) rfl (.inl rfl)

theorem closure_follows : Follows R (closure r) (closure r') (SameBy (Expr.map unplaced)) := by
  refine fun s s' hs => .start fun start start' => ?_
  refine (closureParams_follows h hr s s' hs).bind fun ps ps' hps => ?_
  refine h.clause.bind fun c c' hc => ?_
  -- the names declared and the choice between the two bodies do not depend on places
  have hnames : ps'.map Param.name = ps.map Param.name := by
    rw [← Param.names_map unplaced, ← Param.names_map unplaced ps, hps]
  have hsome : c'.isSome = c.isSome := by
    rw [← Option.isSome_map (f := Clause.map unplaced) (x := c'), hc, Option.isSome_map]
  have hbody : Follows R
      (do
        declareAll (ps.map Param.name) start.pos
        if c.isSome || (← nextIs (symbol lbrace)) then return Body.block (← r.block)
        else return Body.expr (← r.expr))
      (do
        declareAll (ps'.map Param.name) start'.pos
        if c'.isSome || (← nextIs (symbol lbrace)) then return Body.block (← r'.block)
        else return Body.expr (← r'.expr)) (SameBy (Body.map unplaced)) := by
    rw [hnames, hsome]
    refine (h.declareAll _ _ _).bind fun _ _ _ => (h.nextIs (.inl rfl)).bind fun b b' hb => ?_
    subst hb
    refine .ite (fun _ => ?_) fun _ => ?_
    · exact hr.block.bind fun b b' hb => .pure (congrArg Body.block hb)
    · exact hr.expr.bind fun e e' he => .pure (congrArg Body.expr he)
  refine (h.inScope hbody).bind fun body body' hbody => ?_
  refine .spanned fun _ _ => ?_
  unfold SameBy at hps hc hbody ⊢
  rw [Expr.map, Expr.map, hps, hc, hbody]

theorem primary_follows : Follows R (primary r) (primary r') (SameBy (Expr.map unplaced)) := by
  refine h.peek rfl fun t t' s s' hs => ?_
  rw [hs.recurs.kind, hs.recurs.value]
  split <;> rename_i hkind
  · refine h.skip hs (by rw [hkind]; rfl) (hr.expr.bind fun e e' he => ?_)
    exact sign_follows h (.pure he)
  · exact collectionFrom_follows h hr t t' .list s s' hs.related
  · exact closure_follows h hr s s' hs.related
  · exact closure_follows h hr s s' hs.related
  · have hplain : t.kind.plain = true := by rw [hkind]; rfl
    refine h.peekSecond rfl hs fun u u' hu => ?_
    rw [hu hplain]
    split
    · exact h.skip hs hplain (collectionFrom_follows h hr t t' .set)
    · refine h.skip hs hplain ((h.require _ _ _).bind fun _ _ _ => ?_)
      exact .spanned fun _ _ => rfl
  · exact literalOf_follows h hs (by rw [hkind]; rfl) _
  · exact literalOf_follows h hs (by rw [hkind]; rfl) _
  · exact numeralOf_follows h hs (by rw [hkind]; rfl) _ _
  · exact numeralOf_follows h hs (by rw [hkind]; rfl) _ _
  · exact literalOf_follows h hs (by rw [hkind]; rfl) _
  · exact .fault _ _ _

omit h hr in
theorem refuseCall_follows {α β : Type} {ρ : α → β → Prop} : Follows R refuseCall refuseCall ρ :=
  fun _ _ _ => .refuse rfl rfl

theorem callTail_follows {e e' : Expr Span} (he : SameBy (Expr.map unplaced) e e') :
    Follows R (callTail r start e) (callTail r' start' e') (SameBy (Expr.map unplaced)) := by
  refine (h.accept rfl (.inl rfl)).bind fun o o' ho => ?_
  cases ho with
  | none => exact .pure he
  | some =>
    refine (h.listUntil hr.expr rfl (.inl rfl)).bind fun args args' hargs => ?_
    have hname : e'.name? = e.name? := by
      rw [← Expr.name?_map unplaced, he, Expr.name?_map]
    rw [hname]
    cases e.name? with
    | none => exact refuseCall_follows
    | some callee =>
      refine (Follows.spanFrom _ _).bind fun span span' _ => ?_
      refine (h.accept rfl (.inl rfl)).bind fun o o' ho => ?_
      cases ho with
      | none =>
        refine .pure ?_
        unfold SameBy at hargs ⊢
        rw [Expr.map, Expr.map, Expr.mapAll_eq_map, Expr.mapAll_eq_map, hargs]
      | some => exact (h.listUntil hr.expr rfl (.inl rfl)).bind fun _ _ _ => refuseCall_follows

theorem unaryOf_follows : Follows R (unaryOf r) (unaryOf r') (SameBy (Expr.map unplaced)) := by
  refine h.peek rfl fun t t' s s' hs => ?_
  rw [hs.recurs.kind]
  cases hop : unaryOp? t.kind with
  | some op =>
    refine h.skip hs (plain_of_unaryOp hop) (hr.unary.bind fun e e' he => .pure ?_)
    exact congrArg (Expr.unary op) he
  | none =>
    exact (primary_follows h hr s s' hs.related).bind fun e e' he => callTail_follows h hr t t' he

theorem binaryTail_follows (least n n' : Nat) {e e' : Expr Span}
    (he : SameBy (Expr.map unplaced) e e') :
    Follows R (binaryTail r least n e) (binaryTail r' least n' e')
      (SameBy (Expr.map unplaced)) := by
  induction n generalizing n' e e' with
  | zero => exact .spent
  | succ n ih =>
    cases n' with
    | zero => exact .outOfTokens
    | succ n' =>
      refine h.peek rfl fun t t' s s' hs => ?_
      rw [hs.recurs.kind]
      cases hop : binaryOp? t.kind with
      | none => exact .pure hs.related he
      | some op =>
        dsimp only
        split
        · exact .pure hs.related he
        · refine h.skip hs (plain_of_binaryOp hop)
            ((hr.binary _).bind fun right right' hright => ih n' ?_)
          exact congrArg₂ (Expr.binary op) he hright

theorem binaryOf_follows (least : Nat) :
    Follows R (binaryOf r least) (binaryOf r' least) (SameBy (Expr.map unplaced)) :=
  (unaryOf_follows h hr).bind fun _ _ he => Follows.remaining.bind fun n n' _ =>
    binaryTail_follows h hr least n n' he

/-! ## Statements -/

omit hr in
theorem mutMark_follows : Follows R mutMark mutMark fun b b' => b' = b := by
  refine h.peek rfl fun t t' s s' hs => h.peekSecond rfl hs fun u u' hu => ?_
  rw [hs.recurs.kind, hs.recurs.value]
  by_cases hkind : t.kind = ident
  · have hplain : t.kind.plain = true := by rw [hkind]; rfl
    rw [hu hplain]
    split
    · exact h.skip hs hplain (.pure rfl)
    · exact .pure hs.related rfl
  · simp only [hkind, decide_false, Bool.false_and, Bool.false_eq_true, if_false]
    exact .pure hs.related rfl

theorem letFrom_follows :
    Follows R (letFrom r start) (letFrom r' start') (SameBy (Stmt.map unplaced)) := by
  refine (mutMark_follows h).bind fun isMut isMut' hmut => ?_
  refine h.expectName.bind fun name name' hname => ?_
  refine (typeAfter_follows h hr.type rfl).bind fun type type' ht => ?_
  refine sign_follows h (hr.expr.bind fun value value' hvalue => ?_)
  refine sign_follows h ?_
  rw [hname.value]
  refine (h.declare _ _ _).bind fun _ _ _ => .spanned fun _ _ => ?_
  unfold SameBy at ht hvalue ⊢
  rw [Stmt.map, Stmt.map, ht, hvalue, hmut]

theorem returnFrom_follows :
    Follows R (returnFrom r start) (returnFrom r' start') (SameBy (Stmt.map unplaced)) := by
  refine (h.nextIs (.inl rfl)).bind fun b b' hb => ?_
  subst hb
  refine .ite (fun _ => ?_) fun _ => ?_
  · refine sign_follows h ?_
    exact .spanned fun _ _ => rfl
  · refine hr.expr.bind fun value value' hvalue => sign_follows h ?_
    refine .spanned fun _ _ => ?_
    exact congrArg (fun v => Stmt.return_ () (some v)) hvalue

theorem raiseFrom_follows :
    Follows R (raiseFrom r start) (raiseFrom r' start') (SameBy (Stmt.map unplaced)) := by
  refine hr.expr.bind fun value value' hvalue => sign_follows h ?_
  refine .spanned fun _ _ => ?_
  exact congrArg (Stmt.raise ()) hvalue

omit hr in
theorem catchName_follows : Follows R catchName catchName fun b b' => b' = b := by
  refine (h.accept rfl (.inl rfl)).bind fun o o' ho => ?_
  cases ho with
  | none => exact .pure rfl
  | some ht =>
    dsimp only
    rw [ht.value]
    exact (h.declare _ _ _).bind fun _ _ _ => .pure rfl

theorem tryFrom_follows :
    Follows R (tryFrom r start) (tryFrom r' start') (SameBy (Stmt.map unplaced)) := by
  have hhandler : Follows R
      (do
        let binding ← catchName
        return (binding, ← r.block))
      (do
        let binding ← catchName
        return (binding, ← r'.block)) (SameBy fun c => (c.1, c.2.map unplaced)) :=
    (catchName_follows h).bind fun _ _ hb => hr.block.bind fun _ _ hblock =>
      .pure (congrArg₂ Prod.mk hb hblock)
  refine hr.block.bind fun body body' hbody => (h.expect rfl).bind fun _ _ _ => ?_
  refine (h.inScope hhandler).bind fun c c' hc => ?_
  refine .spanned fun _ _ => ?_
  exact congrArg₂ (fun b c => Stmt.try_ () b c.1 c.2) hbody hc

theorem elseTail_follows (n n' : Nat) :
    Follows R (elseTail r n) (elseTail r' n') (SameBy (Else.map unplaced)) := by
  induction n generalizing n' with
  | zero => exact .spent
  | succ n ih =>
    cases n' with
    | zero => exact .outOfTokens
    | succ n' =>
      refine (h.accept rfl (.inl rfl)).bind fun o o' ho => ?_
      cases ho with
      | some =>
        refine hr.expr.bind fun test test' htest => hr.block.bind fun body body' hbody => ?_
        refine (ih n').bind fun rest rest' hrest => .pure ?_
        unfold SameBy at htest hbody hrest ⊢
        rw [Else.map, Else.map, htest, hbody, hrest]
      | none =>
        refine (h.accept rfl (.inl rfl)).bind fun o o' ho => ?_
        cases ho with
        | some => exact hr.block.bind fun b b' hb => .pure (congrArg Else.block hb)
        | none => exact .pure rfl

theorem ifFrom_follows : Follows R (ifFrom r) (ifFrom r') (SameBy (Stmt.map unplaced)) := by
  refine hr.expr.bind fun test test' htest => hr.block.bind fun body body' hbody => ?_
  refine Follows.remaining.bind fun n n' _ => ?_
  refine (elseTail_follows h hr n n').bind fun rest rest' hrest => .pure ?_
  unfold SameBy at htest hbody hrest ⊢
  rw [Stmt.map, Stmt.map, htest, hbody, hrest]

theorem forFrom_follows : Follows R (forFrom r) (forFrom r') (SameBy (Stmt.map unplaced)) := by
  refine h.expectName.bind fun target target' htarget => (h.expect rfl).bind fun _ _ _ => ?_
  refine hr.expr.bind fun iterable iterable' hiterable => ?_
  rw [htarget.value]
  have hbody : Follows R (do declare target.value target.pos; r.block)
      (do declare target.value target'.pos; r'.block) (SameBy (Block.map unplaced)) :=
    (h.declare _ _ _).bind fun _ _ _ => hr.block
  refine (h.inScope hbody).bind fun body body' hbody => .pure ?_
  exact congrArg₂ (Stmt.for_ target.value) hiterable hbody

omit h in
theorem whileFrom_follows : Follows R (whileFrom r) (whileFrom r') (SameBy (Stmt.map unplaced)) :=
  hr.expr.bind fun _ _ hcondition => hr.block.bind fun _ _ hbody =>
    .pure (congrArg₂ Stmt.while_ hcondition hbody)

theorem insertionStmt_follows :
    Follows R (insertionStmt r) (insertionStmt r') (SameBy (Stmt.map unplaced)) := by
  refine h.expectName.bind fun target target' htarget => ?_
  rw [htarget.value]
  refine (h.require _ _ _).bind fun _ _ _ => sign_follows h ?_
  refine h.expectName.bind fun method method' hmethod => ?_
  rw [hmethod.value]
  cases insertion? method.value with
  | none => exact .fault _ _ _
  | some how =>
    refine sign_follows h (hr.expr.bind fun value value' hvalue => ?_)
    refine sign_follows h (sign_follows h ?_)
    refine .spanned fun _ _ => ?_
    exact congrArg (Stmt.insert () target.value how) hvalue

theorem exprStmt_follows :
    Follows R (exprStmt r start) (exprStmt r' start') (SameBy (Stmt.map unplaced)) := by
  refine hr.expr.bind fun e e' he => ?_
  have hname : e'.name? = e.name? := by
    rw [← Expr.name?_map unplaced, he, Expr.name?_map]
  rw [hname]
  cases e.name? with
  | none => exact sign_follows h (.pure (congrArg Stmt.expr he))
  | some target =>
    refine (h.accept rfl (.inl rfl)).bind fun o o' ho => ?_
    cases ho with
    | some =>
      refine hr.expr.bind fun value value' hvalue => sign_follows h ?_
      refine .spanned fun _ _ => ?_
      exact congrArg (Stmt.assign () target) hvalue
    | none => exact sign_follows h (.pure (congrArg Stmt.expr he))

theorem stmt_follows : Follows R (stmt r) (stmt r') (SameBy (Stmt.map unplaced)) := by
  refine h.peek rfl fun t t' s s' hs => ?_
  rw [hs.recurs.kind]
  split <;> rename_i hkind
  · exact h.skip hs (by rw [hkind]; rfl) (letFrom_follows h hr t t')
  · exact h.skip hs (by rw [hkind]; rfl) (returnFrom_follows h hr t t')
  · exact h.skip hs (by rw [hkind]; rfl) (raiseFrom_follows h hr t t')
  · exact h.skip hs (by rw [hkind]; rfl) (tryFrom_follows h hr t t')
  · exact h.skip hs (by rw [hkind]; rfl) (ifFrom_follows h hr)
  · exact h.skip hs (by rw [hkind]; rfl) (forFrom_follows h hr)
  · exact h.skip hs (by rw [hkind]; rfl) (whileFrom_follows hr)
  · refine h.peekSecond rfl hs fun u u' hu => ?_
    rw [hu (by rw [hkind]; rfl)]
    split
    · exact insertionStmt_follows h hr s s' hs.related
    · exact exprStmt_follows h hr t t' s s' hs.related
  · exact exprStmt_follows h hr t t' s s' hs.related

theorem blockOf_follows : Follows R (blockOf r) (blockOf r') (SameBy (Block.map unplaced)) := by
  refine (expectSign_follows h _).bind fun start start' _ => ?_
  have hbody : Follows R (do untilKind (symbol rbrace) (stmt r) (← remaining))
      (do untilKind (symbol rbrace) (stmt r') (← remaining))
      (SameBy (List.map (Stmt.map unplaced))) :=
    Follows.remaining.bind fun n n' _ => h.untilKind (stmt_follows h hr) rfl n n'
  refine (h.inScope hbody).bind fun ss ss' hss => sign_follows h ?_
  refine .spanned fun _ _ => ?_
  unfold SameBy at hss ⊢
  rw [Block.map, Block.map, Stmt.mapAll_eq_map, Stmt.mapAll_eq_map, hss]

end Bodies

end Parse

/-- Readers follow each other at all depths. -/
theorem Level.ofDepth_follows (h : Parse.Tracking place TokenKind.plain R) (n n' : Nat) :
    Level.Follows R (ofDepth n) (ofDepth n') := by
  induction n generalizing n' with
  | zero => exact ⟨.spent, fun _ => .spent, .spent, .spent⟩
  | succ n ih =>
    cases n' with
    | zero => exact ⟨.outOfTokens, fun _ => .outOfTokens, .outOfTokens, .outOfTokens⟩
    | succ n' =>
      exact ⟨Parse.typeOf_follows h (ih n').type, Parse.binaryOf_follows h (ih n'),
        Parse.unaryOf_follows h (ih n'), Parse.blockOf_follows h (ih n')⟩

namespace Parse

open TokenKind Sign Keyword

section Declarations

variable (h : Tracking place TokenKind.plain R)

include h

/-! ## Functions -/

theorem forwardName_follows (known : List String) :
    Follows R (forwardName known) (forwardName known) (SameBy fun name => name) := by
  refine h.expectName.bind fun t t' ht => ?_
  rw [ht.value]
  exact .ite (fun _ => .pure rfl) fun _ => .fault _ _ _

theorem forwards_follows (known : List String) :
    Follows R (forwards known) (forwards known) fun names names' => names' = names := by
  refine h.peek rfl fun t t' s s' hs => h.peekSecond rfl hs fun u u' hu => ?_
  rw [hs.recurs.kind, hs.recurs.value]
  by_cases hkind : t.kind = ident
  · have hplain : t.kind.plain = true := by rw [hkind]; rfl
    rw [hu hplain]
    split
    · refine h.skip hs hplain (sign_follows h ?_)
      refine (h.commaList (forwardName_follows h known)).bind fun names names' hnames => ?_
      refine sign_follows h (.pure ?_)
      simpa [SameBy] using hnames
    · exact .pure hs.related rfl
  · simp only [hkind, decide_false, Bool.false_and, Bool.false_eq_true, if_false]
    exact .pure hs.related rfl

omit h in
theorem checkTarget_follows {name name' : Token} (hname : name'.value = name.value)
    (forwarded : List String) {c c' : Option (Clause Span)}
    (hc : SameBy (Option.map (Clause.map unplaced)) c c') :
    Follows R (checkTarget name forwarded c) (checkTarget name' forwarded c')
      fun _ _ => True := by
  have hfault : Follows R (faultAt name.pos (.needsTarget name.value))
      (faultAt name'.pos (.needsTarget name'.value)) fun (_ _ : Unit) => True := by
    rw [hname]
    exact .fault _ _ _
  cases forwarded with
  | nil => exact .pure trivial
  | cons n names =>
    cases c with
    | none =>
      obtain rfl : c' = none := Option.map_eq_none_iff.1 hc
      exact .pure trivial
    | some c =>
      obtain ⟨c', rfl, hc'⟩ := Option.map_eq_some_iff.1 hc
      obtain ⟨loc, types⟩ := c
      obtain ⟨loc', types'⟩ := c'
      obtain rfl : types' = types := congrArg Clause.types hc'
      obtain _ | ⟨type, _ | ⟨other, types⟩⟩ := types'
      · exact hfault
      · exact .ite (fun _ => hfault) fun _ => .pure trivial
      · exact hfault

variable (hr : Level.Follows R r r')

include hr

theorem function_follows :
    Follows R (function r) (function r') (SameBy (FunDecl.map unplaced)) := by
  refine (h.expect rfl).bind fun start start' _ => h.expectName.bind fun name name' hname => ?_
  refine (params_follows h hr.type).bind fun ps ps' hps => ?_
  have hnames : ps'.map Param.name = ps.map Param.name := by
    rw [← Param.names_map unplaced, ← Param.names_map unplaced ps, hps]
  rw [hnames]
  refine (forwards_follows h _).bind fun forwarded forwarded' hforwarded => ?_
  subst hforwarded
  refine h.clause.bind fun c c' hc => ?_
  refine (checkTarget_follows hname.value _ hc).bind fun _ _ _ => ?_
  refine (typeAfter_follows h hr.type rfl).bind fun res res' hres => ?_
  have hbody : Follows R (do declareAll (ps.map Param.name) start.pos; r.block)
      (do declareAll (ps.map Param.name) start'.pos; r'.block) (SameBy (Block.map unplaced)) :=
    (h.declareAll _ _ _).bind fun _ _ _ => hr.block
  refine (Follows.spanFrom _ _).bind fun _ _ _ => (h.inScope hbody).bind fun b b' hb => .pure ?_
  unfold SameBy at hps hc hres hb ⊢
  rw [FunDecl.map, FunDecl.map, hname.value, hps, hc, hres, hb]

omit hr in
theorem nameDecl_follows (start start' : Token) :
    Follows R (nameDecl start) (nameDecl start') (SameBy (NameDecl.map unplaced)) := by
  refine h.expectName.bind fun name name' hname => sign_follows h ?_
  refine .spanned fun _ _ => ?_
  exact congrArg (NameDecl.mk ()) hname.value

end Declarations

/-! ## Members -/

section Modifiers

variable {afterBare : Bool} {n : Nat} {found : List String} {s : ParseState} {t : Token}
  {ts : List Token} (hrest : s.rest = t :: ts)

include hrest

theorem modifiers_of_ne (ht : t.kind ≠ ident) :
    modifiers afterBare (n + 1) found s = .ok (found, s) := by
  rw [modifiers, bind_of_eq_ok (accept_of_ne hrest ht)]
  rfl

variable (ht : t.kind = ident)

include ht

theorem modifiers_of_mem (hvalue : t.value ∈ memberModifiers) :
    modifiers afterBare (n + 1) found s =
      modifiers afterBare n (found ++ [t.value]) { s with last := t, rest := ts } := by
  rw [modifiers, bind_of_eq_ok (accept_of_kind hrest ht)]
  exact congrFun (if_pos hvalue) _

theorem modifiers_of_not_mem (hvalue : t.value ∉ memberModifiers) :
    modifiers afterBare (n + 1) found s =
      if afterBare && found.isEmpty then
        modifiers afterBare n found
          { s with last := t, rest := ts, skipped := s.skipped ++ [⟨t.value, t.pos⟩] }
      else .error (.fault (.unknownModifier t.value) t.pos) := by
  rw [modifiers, bind_of_eq_ok (accept_of_kind hrest ht)]
  dsimp only
  rw [if_neg hvalue]
  split <;> rfl

end Modifiers

theorem bind_congr_run {α β : Type} {p q : Parse α} {f : α → Parse β} {s t : ParseState}
    (h : p s = q t) : (p >>= f) s = (q >>= f) t := by
  simp only [Bind.bind, StateT.bind, h]

/-- The words in front of a member and its `fn`. -/
theorem modifiers_follows {γ δ : Type} (h : Tracking place K R) (afterBare : Bool) (n n' : Nat)
    (found : List String) {f : List String → Parse γ} {f' : List String → Parse δ}
    {σ : γ → δ → Prop} (hf : ∀ words, Follows R (f words) (f' words) σ) :
    Follows R
      (modifiers afterBare n found >>= fun words =>
        expect (keyword Keyword.fn) >>= fun _ => f words)
      (modifiers afterBare n' found >>= fun words =>
        expect (keyword Keyword.fn) >>= fun _ => f' words) σ := by
  induction n generalizing n' found with
  | zero => exact fun _ _ _ => .spent rfl
  | succ n ih =>
    cases n' with
    | zero => exact fun _ _ _ => .outOfTokens rfl
    | succ n' =>
      intro s s' hs
      obtain ⟨t, ts, t', ts', hrest, hrest', hrecurs | hskew⟩ := h.head hs
      · by_cases ht : t.kind = ident
        · have ht' : t'.kind = ident := hrecurs.kind.trans ht
          have hs₁ := h.take hs hrest hrest' hrecurs (h.types _ (by rw [ht]; rfl))
          by_cases hvalue : t.value ∈ memberModifiers
          · have hvalue' : t'.value ∈ memberModifiers := hrecurs.value.symm ▸ hvalue
            refine (ih n' (found ++ [t.value]) _ _ hs₁).congr
              (bind_congr_run (modifiers_of_mem hrest ht hvalue)) ?_
            rw [bind_congr_run (modifiers_of_mem hrest' ht' hvalue'), hrecurs.value]
          · have hvalue' : t'.value ∉ memberModifiers := hrecurs.value.symm ▸ hvalue
            have hword : modifiers afterBare (n + 1) found s = _ :=
              modifiers_of_not_mem hrest ht hvalue
            have hword' : modifiers afterBare (n' + 1) found s' = _ :=
              modifiers_of_not_mem hrest' ht' hvalue'
            rw [hrecurs.value] at hword'
            by_cases hskip : (afterBare && found.isEmpty) = true
            · rw [if_pos hskip] at hword hword'
              rw [hrecurs.pos] at hword'
              exact (ih n' found _ _ (h.note hs₁ t.value t.pos)).congr (bind_congr_run hword)
                (bind_congr_run hword')
            · rw [if_neg hskip] at hword hword'
              exact .refuse (bind_of_eq_error hword) (bind_of_eq_error hword')
        · have hfn := h.expect (h.types (keyword Keyword.fn) rfl)
          exact ((hfn.bind fun _ _ _ => hf found) s s' hs).congr
            (bind_of_eq_ok (modifiers_of_ne hrest ht))
            (bind_of_eq_ok (modifiers_of_ne hrest' (hrecurs.kind ▸ ht)))
      · -- no member starts with a semicolon
        refine .ofReturns (h.not_strict hskew) fun c s₁ hc => ?_
        rw [bind_of_eq_ok (modifiers_of_ne hrest (by simp [hskew.semicolon])),
          bind_of_eq_error (expect_of_ne hrest (by simp [hskew.semicolon]))] at hc
        cases hc

/-- What a member starts with: its words, its name and its parameters. -/
def memberHead (r : Level) (afterBare : Bool) (n : Nat) :
    Parse (List String × Token × List (Param Span)) := do
  let words ← modifiers afterBare n []
  let _ ← expect (keyword Keyword.fn)
  let name ← expectName
  let ps ← params r
  return (words, name, ps)

/-- What a member ends with, behind its own clause. -/
def memberEnd (r : Level) (start : Token) (head : List String × Token × List (Param Span))
    (c : Option (Clause Span)) : Parse (Member Span) := do
  let result ← typeAfter arrow r
  let _ ← accept (symbol semicolon)
  return ⟨← spanFrom start, head.2.1.value, head.1, head.2.2, c, result⟩

/-- Reads a member that starts with the token `start`. -/
def memberFrom (r : Level) (afterBare : Bool) (start : Token) (n : Nat) : Parse (Member Span) := do
  let head ← memberHead r afterBare n
  let c ← clause true
  memberEnd r start head c

theorem member_eq (r : Level) (afterBare : Bool) (s : ParseState) :
    member r afterBare s = memberFrom r afterBare (s.rest.headD s.last) s.rest.length s := by
  simp only [member, memberFrom, memberHead, memberEnd, bind_assoc, pure_bind]
  rfl

theorem endsBare_congr {m m' : Member Span} (h : m'.map unplaced = m.map unplaced) :
    endsBare m' = endsBare m := by
  have heq (m : Member Span) : endsBare m =
      ((m.map unplaced).result.isNone && (m.map unplaced).clause.any fun c => c.types.isEmpty) := by
    obtain ⟨loc, name, words, ps, c, result⟩ := m
    cases c <;> cases result <;> rfl
  rw [heq, heq, h]

/-- What is known of the start of a member, apart from places. -/
def headView (head : List String × Token × List (Param Span)) :
    List String × String × List (Param Unit) :=
  (head.1, head.2.1.value, head.2.2.map (Param.map unplaced))

theorem memberHead_follows (h : Tracking place K R)
    (htype : Follows R r.type r'.type (SameBy (TypeExpr.map unplaced))) (afterBare : Bool)
    (n n' : Nat) :
    Follows R (memberHead r afterBare n) (memberHead r' afterBare n') (SameBy headView) := by
  refine modifiers_follows h afterBare n n' [] fun words => ?_
  refine h.expectName.bind fun name name' hname => ?_
  refine (params_follows h htype).bind fun ps ps' hps => .pure ?_
  unfold SameBy at hps ⊢
  rw [headView, headView, hname.value, hps]

section Members

variable (h : Tracking place TokenKind.plain R)
  (htype : Follows R r.type r'.type (SameBy (TypeExpr.map unplaced)))
  {head head' : List String × Token × List (Param Span)} {c c' : Option (Clause Span)}
  (hhead : SameBy headView head head') (hc : SameBy (Option.map (Clause.map unplaced)) c c')

include hhead hc

/-- Members with the same parts are the same, wherever they stand. -/
theorem member_same {res res' : Option (TypeExpr Span)}
    (hres : SameBy (Option.map (TypeExpr.map unplaced)) res res') (span span' : Span) :
    SameBy (Member.map unplaced) ⟨span, head.2.1.value, head.1, head.2.2, c, res⟩
      ⟨span', head'.2.1.value, head'.1, head'.2.2, c', res'⟩ := by
  obtain ⟨hwords, hname, hps⟩ : head'.1 = head.1 ∧ head'.2.1.value = head.2.1.value ∧
      head'.2.2.map (Param.map unplaced) = head.2.2.map (Param.map unplaced) := by
    simpa [SameBy, headView] using hhead
  unfold SameBy at hc hres ⊢
  rw [Member.map, Member.map, hwords, hname, hps, hc, hres]

include h htype

theorem memberEnd_follows (start start' : Token) :
    Follows R (memberEnd r start head c) (memberEnd r' start' head' c')
      (SameBy (Member.map unplaced)) := by
  refine (typeAfter_follows h htype rfl).bind fun res res' hres => ?_
  refine (h.accept rfl (.inl rfl)).bind fun _ _ _ => (Follows.spanFrom _ _).bind fun _ _ _ => ?_
  exact .pure (member_same hhead hc hres _ _)

omit hhead hc

variable (hclause : Follows R (clause true) (clause true)
  (SameBy (Option.map (Clause.map unplaced))))

include hclause

theorem member_follows (afterBare : Bool) :
    Follows R (member r afterBare) (member r' afterBare) (SameBy (Member.map unplaced)) := by
  intro s s' hs
  have hfrom : Follows R (memberFrom r afterBare (s.rest.headD s.last) s.rest.length)
      (memberFrom r' afterBare (s'.rest.headD s'.last) s'.rest.length)
      (SameBy (Member.map unplaced)) :=
    (memberHead_follows h htype afterBare _ _).bind fun _ _ hhead => hclause.bind fun _ _ hc =>
      memberEnd_follows h htype hhead hc _ _
  exact (hfrom s s' hs).congr (member_eq r afterBare s) (member_eq r' afterBare s')

/-- Readers of members follow each other where the same tokens stand in both texts. -/
theorem members_follows (n n' : Nat) (afterBare : Bool) :
    Follows R (members r n afterBare) (members r' n' afterBare)
      (SameBy (List.map (Member.map unplaced))) := by
  induction n generalizing n' afterBare with
  | zero => exact .spent
  | succ n ih =>
    cases n' with
    | zero => exact .outOfTokens
    | succ n' =>
      refine (h.nextIs (.inl rfl)).bind fun closed closed' hclosed => ?_
      subst hclosed
      refine .ite (fun _ => .pure rfl) fun _ => ?_
      refine (member_follows h htype hclause afterBare).bind fun m m' hm => ?_
      rw [endsBare_congr hm]
      exact (ih n' (endsBare m)).bind fun ms ms' hms => .pure (congrArg₂ List.cons hm hms)

end Members

end Parse

end RaisingEffects
