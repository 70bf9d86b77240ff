import RaisingEffects.Proofs.Parse.Takes

/-!
# Reading the constructs of a level

The reader keeps its scopes while it reads and drops them at the end. Here the condition on a name,
which is checked against the scopes of the moment, becomes a condition on the tree. Every reader of
a construct takes a token before it reads a construct inside, so the readers for `n` levels are
enough in front of `n` tokens.

The lemmas go through the productions one by one, and say of each how many tokens it may stand in
front of, how many it takes, and what it gives: `n + 1` where it takes a token before it turns to
the level inside, which is good for `n` (`Level.WellScoped`), and `n` where it turns to that level
at once. So all levels are good (`Level.ofDepth_wellScoped`).

Statements differ from the rest in that a `let` adds to the innermost scope: `Parse.Declaring` says
what a statement does to it, and `Parse.statements_takes` follows it through a block.
-/

namespace RaisingEffects

/-! ## Levels -/

/-- The expression is well formed where the names are known, and lies in the tokens. -/
def Expr.ReadFrom (known : List String) (ts : List Token) (e : Expr Span) : Prop :=
  e.WellFormed known ∧ Laid ts [.expr e] e.nodes

def Block.ReadFrom (known : List String) (ts : List Token) (b : Block Span) : Prop :=
  b.WellFormed known ∧ Laid ts [.block b] b.nodes

/-- In front of at most `n` tokens, each reader of the level takes a token or more, and gives
well-formed trees that lie in the tokens. -/
structure Level.WellScoped (n : Nat) (r : Level) : Prop where
  type {scopes} : Parse.Gives n 1 scopes r.type fun ts t => Laid ts [.type t] t.walk
  binary {scopes} (least : Nat) :
    Parse.Gives n 1 scopes (r.binary least) (Expr.ReadFrom scopes.flatten)
  unary {scopes} : Parse.Gives n 1 scopes r.unary (Expr.ReadFrom scopes.flatten)
  block {scopes} : Parse.Gives n 1 scopes r.block (Block.ReadFrom scopes.flatten)

theorem Level.WellScoped.mono {n m : Nat} {r : Level} (h : r.WellScoped n) (hm : m ≤ n) :
    r.WellScoped m where
  type := h.type.mono hm (Nat.le_refl _)
  binary least := (h.binary least).mono hm (Nat.le_refl _)
  unary := h.unary.mono hm (Nat.le_refl _)
  block := h.block.mono hm (Nat.le_refl _)

theorem Level.WellScoped.expr {n : Nat} {r : Level} (hr : r.WellScoped n)
    {scopes : List (List String)} :
    Parse.Gives n 1 scopes r.expr (Expr.ReadFrom scopes.flatten) :=
  hr.binary 0

namespace Parse

open TokenKind Sign Keyword

variable {n m k : Nat} {r : Level} {scopes : List (List String)} {s : ParseState}
  {used : List Token} {known : List String} (hr : r.WellScoped n)

include hr

/-! ## Types and parameters -/

theorem typeAfter_gives (sign : Sign) :
    Gives n 0 scopes (typeAfter sign r) fun ts t =>
      Laid ts (t.toList.map .type) (t.toList.flatMap TypeExpr.walk) := by
  refine fun s => .accept rfl (.give (.nil _)) fun t _ _ => ?_
  refine hr.type.behind.bind fun type more h _ => .give ?_
  simpa using h.behind [t]

theorem typeOf_gives : Gives (n + 1) 1 scopes (typeOf r) fun ts t => Laid ts [.type t] t.walk := by
  intro s
  refine .peek ?_
  rw [accept, bind_assoc]
  refine .peek ?_
  split
  · -- the `fn` of a function type stands in front of a parenthesis, so it introduces no name
    rename_i hkind
    simp only [bind_assoc, pure_bind]
    refine .pair (fun _ => []) (by rw [hkind]; decide) (by decide)
      (fun u hu => .pair (by rw [hu]; rfl) (by rw [hu]; simp)) fun t open_ ht _ _ => ?_
    rw [ht]
    refine (listUntil_gives rparen hr.type).weaken.bind fun ps ups hps _ => ?_
    refine (clause_gives false).bind fun c uc hc _ => ?_
    refine (typeAfter_gives hr _).bind fun result ures hres _ => .spanFrom (.give ?_)
    rw [TypeExpr.walk_fn]
    have hps := hps.laidEach fun _ _ h => h
    refine ((hps.append (hc.append hres)).behind [open_]).construct (by simp) rfl rfl ?_
      (List.nil_subset _)
    intro m hm
    simpa [Node.parts, Node.params, Node.children] using hm
  · rw [pure_bind]
    refine .expect rfl fun name hkind hpre => ?_
    rw [headD_of_isPrefix hpre]
    have hnames {ts : List Token} (h : name ∈ ts) : [name.value] ⊆ Clause.namesIn ts :=
      Clause.singleton_subset_namesIn h hkind
    refine .accept rfl (.spanFrom (.give ?_)) fun open_ _ _ => ?_
    · rw [TypeExpr.walk, TypeExpr.walkAll_eq]
      exact (Laid.nil []).construct rfl rfl rfl (List.nil_subset _) (hnames (by simp))
    · refine (commaList_gives hr.type).behind.bind fun args uargs hargs _ => ?_
      refine .expect rfl fun close _ _ => .spanFrom (.give ?_)
      rw [TypeExpr.walk, TypeExpr.walkAll_eq]
      have hargs := hargs.laidEach fun _ _ h => h
      exact (hargs.widen [open_] [close]).construct (by simp) rfl rfl (fun m hm => hm)
        (hnames (by simp))

theorem param_gives : Gives (n + 1) 1 scopes (param r) fun ts p => Laid ts p.parts p.nodes := by
  refine fun s => .expect rfl fun name _ _ => ?_
  refine (typeAfter_gives hr _).bind fun type more h _ => .give ?_
  exact h.behind [name]

theorem params_gives :
    Gives n 1 scopes (params r) fun ts ps =>
    Laid ts (ps.flatMap Param.parts) (ps.flatMap Param.nodes) := by
  have hparam : Gives n 1 scopes (param r) _ :=
    (param_gives hr).mono (Nat.le_succ n) (Nat.le_refl _)
  refine fun s => .expect rfl fun open_ _ _ => ?_
  refine (Takes.lift (listUntil_gives rparen hparam).behind).imp ?_
  rintro ps _ _ s' ⟨ts, rfl, rfl, hs', hps⟩
  exact ⟨rfl, hs', (hps.laid fun _ _ h => h).behind [open_]⟩

/-! ## Expressions -/

omit hr in
theorem Strung.wellFormedAll {ts : List Token} {es : List (Expr Span)}
    (h : Strung (Expr.ReadFrom known) ts es) : Expr.WellFormedAll known es :=
  Expr.wellFormedAll_iff.2 (h.forall_mem fun _ _ he => he.1)

/-- The elements of a collection stand behind its bracket, wherever it is said to start. -/
theorem collectionFrom_gives (start : Token) (kind : CollectionKind) :
    Gives (n + 1) 1 scopes (collectionFrom r start kind) fun more e =>
      ∃ open_ us es d, more = open_ :: us ∧ Strung (Expr.ReadFrom scopes.flatten) us es ∧
        e = .collection ⟨start.pos, (more.getLastD d).span.stop⟩ kind es := by
  refine fun s => .expect rfl fun open_ _ _ => ?_
  refine (listUntil_gives rbracket hr.expr).weaken.bind fun es ues hes _ => .spanFrom (.give ?_)
  exact ⟨open_, ues, es, s.last, rfl, hes, rfl⟩

omit hr in
theorem collection_readFrom {t d : Token} {used us : List Token} {kind : CollectionKind}
    {es : List (Expr Span)} (hes : Strung (Expr.ReadFrom known) us es) (hused : used = t :: us) :
    Expr.ReadFrom known used (.collection ⟨t.pos, (used.getLastD d).span.stop⟩ kind es) := by
  refine ⟨hes.wellFormedAll, ?_⟩
  rw [Expr.nodes, Expr.nodesAll_eq]
  exact (hes.laidEach fun _ _ h => h.2).construct hused rfl rfl (fun m hm => hm) (List.nil_subset _)

/-- The parameters of a closure lie behind its first token. -/
theorem closureParams_gives :
    Gives (n + 1) 1 scopes (closureParams r) fun more ps => ∃ t behind, more = t :: behind ∧
      Laid behind (ps.flatMap Param.parts) (ps.flatMap Param.nodes) := by
  refine fun s => .accept rfl ?_ fun t _ _ => .give ⟨t, [], rfl, .nil _⟩
  refine .expect rfl fun t _ _ => ?_
  refine (Takes.lift (listUntil_gives pipe (param_gives hr)).behind).imp ?_
  rintro ps _ _ s' ⟨ts, rfl, rfl, hs', hps⟩
  exact ⟨rfl, hs', t, ts, rfl, hps.laid fun _ _ h => h⟩

omit hr in
/-- A scope that holds parameters only knows no more than the parameters. -/
theorem flatten_cons_subset {inner declared : List String} (h : inner ⊆ declared) :
    (inner :: scopes).flatten ⊆ declared ++ scopes.flatten :=
  List.append_subset.2
    ⟨List.subset_append_of_subset_left _ h, List.subset_append_right ..⟩

theorem closure_gives : Gives (n + 1) 1 scopes (closure r) (Expr.ReadFrom scopes.flatten) := by
  refine fun s => .peek ((closureParams_gives hr).bind fun ps ups hps hpre => ?_)
  obtain ⟨t, behind, rfl, hps⟩ := hps
  rw [headD_of_isPrefix hpre]
  refine (clause_gives false).bind fun c uc hc _ => ?_
  refine Takes.thenGiven (j := 0) (P := fun total b => ∃ ub, total = t :: behind ++ uc ++ ub ∧
    (Expr.closure t.span ps c b).WellFormed scopes.flatten ∧ Laid ub [Node.ofBody b] b.nodes)
    (.inScopeOf (mem_places hpre (by simp)) fun inner hsub hnodup => ?_) ?_
  · refine .nextIs fun isBlock => ?_
    split
    · refine hr.block.weaken.bind fun b ub hb _ => .give ⟨ub, rfl, ⟨hnodup, fun _ => rfl, ?_⟩, ?_⟩
      · exact Part.WellFormed.mono (flatten_cons_subset hsub) (.block b) hb.1
      · exact hb.2
    · rename_i hexpr
      refine hr.expr.weaken.bind fun e ue he _ => .give ⟨ue, rfl, ⟨hnodup, fun hc => ?_, ?_⟩, ?_⟩
      · rw [hc] at hexpr
        exact absurd rfl hexpr
      · exact Part.WellFormed.mono (flatten_cons_subset hsub) (.expr e) he.1
      · exact he.2
  · rintro b _ ⟨ub, rfl, hwf, hb⟩ -
    refine .spanFrom (.give ⟨hwf, ?_⟩)
    refine (hps.append (hc.append hb)).construct (by simp) rfl rfl ?_ (List.nil_subset _)
    intro m hm
    simp only [Node.parts, Node.params, Expr.params, Node.children, Node.ofExpr, List.mem_append,
      List.mem_cons] at hm ⊢
    tauto

omit hr in
theorem literalOf_gives {v : Literal} (h : (s.rest.headD s.last).kind.isPlain = true) :
    GivesFrom n 1 scopes s [] (literalOf (s.rest.headD s.last) v) (Expr.ReadFrom known) := by
  refine .skip h fun t ht _ => .spanFrom (.give ⟨trivial, ?_⟩)
  rw [ht]
  exact (Laid.nil []).construct rfl rfl rfl (List.nil_subset _) (List.nil_subset _)

omit hr in
/-- A numeral that cannot be read is the only failure without a position. -/
theorem numeralOf_gives {β : Type} {v : Except NumeralFault β} {f : β → Literal}
    (h : (s.rest.headD s.last).kind.isPlain = true)
    (hv : ∀ why, v = .error why → (s.rest.headD s.last).Unreadable why) :
    GivesFrom n 1 scopes s [] (numeralOf (s.rest.headD s.last) v f) (Expr.ReadFrom known) := by
  cases v with
  | ok a => exact literalOf_gives h
  | error why =>
    refine fun s₁ hs₁ _ => ⟨fun _ _ hp => (by cases hp), fun hs _ => .fail hs.ne_nil _, ?_⟩
    rintro _ ⟨⟩
    refine ⟨trivial, fun hs _ => ⟨_, ?_, hv why rfl⟩⟩
    obtain ⟨t, ts, hrest⟩ := hs.exists_cons
    rw [← hs₁.headD, hrest]
    exact List.mem_cons_self ..

theorem primary_gives : Gives (n + 1) 1 scopes (primary r) (Expr.ReadFrom scopes.flatten) := by
  refine fun s => .peek ?_
  split <;> rename_i hkind
  · refine .skip (by rw [hkind]; rfl) fun t _ _ => hr.expr.weaken.bind fun e ue he _ => ?_
    refine .expect rfl fun close _ _ => .give ⟨he.1, ?_⟩
    simpa using he.2.widen [t] [close]
  · rw [← bind_pure (collectionFrom r _ _)]
    refine (collectionFrom_gives hr _ _).bind fun e more he hpre => .give ?_
    obtain ⟨open_, us, es, d, rfl, hes, rfl⟩ := he
    rw [headD_of_isPrefix hpre]
    exact collection_readFrom hes rfl
  · exact closure_gives hr s
  · exact closure_gives hr s
  · have hplain : (s.rest.headD s.last).kind.isPlain = true := by rw [hkind]; rfl
    refine .peekSecond fun u => ?_
    split
    · refine .skip hplain fun t ht _ => ?_
      rw [ht, ← bind_pure (collectionFrom r _ _)]
      refine (collectionFrom_gives hr _ _).behind.bind fun e more he _ => .give ?_
      obtain ⟨open_, us, es, d, rfl, hes, rfl⟩ := he
      exact collection_readFrom (d := d) (hes.widen [open_] []) (by simp)
    · refine .skip hplain fun t ht hpre => ?_
      rw [ht] at hkind ⊢
      refine .require (mem_places hpre (by simp)) fun hknown => .spanFrom (.give ⟨hknown, ?_⟩)
      exact (Laid.nil []).construct rfl rfl rfl (List.nil_subset _)
        (Clause.singleton_subset_namesIn (by simp) hkind)
  · exact literalOf_gives (by rw [hkind]; rfl)
  · exact literalOf_gives (by rw [hkind]; rfl)
  · exact numeralOf_gives (by rw [hkind]; rfl) fun why hwhy => .inl ⟨hkind, hwhy⟩
  · exact numeralOf_gives (by rw [hkind]; rfl) fun why hwhy => .inr ⟨hkind, hwhy⟩
  · exact literalOf_gives (by rw [hkind]; rfl)
  · exact .fault (headD_mem_places s)

omit hr in
theorem refuseCall_gives {α : Type} {P : List Token → α → Prop} :
    GivesFrom n 0 scopes s used refuseCall P :=
  .previous fun _ ht => .fault ht

omit hr in
theorem name_known {e : Expr Span} {callee : String} (h : e.name? = some callee)
    (he : e.WellFormed known) : callee ∈ known := by
  cases e with
  | name loc id =>
    cases h
    exact he
  | _ => cases h

theorem callTail_gives {e : Expr Span} (he : e.ReadFrom scopes.flatten used)
    (hpre : used <+: s.rest) :
    GivesFrom n 0 scopes s used (callTail r (s.rest.headD s.last) e)
      (Expr.ReadFrom scopes.flatten) := by
  refine .accept rfl (.give he) fun open_ _ _ => ?_
  refine (listUntil_gives rparen hr.expr).behind.bind fun args uargs hargs _ => ?_
  split
  · exact refuseCall_gives
  · rename_i callee hname
    obtain ⟨t, behind, rfl, hcallee⟩ := he.2.named hname
    rw [headD_of_isPrefix hpre]
    refine .spanFrom (.accept rfl (.give ⟨⟨name_known hname he.1, hargs.wellFormedAll⟩, ?_⟩)
      fun _ _ _ => ?_)
    · rw [Expr.nodes, Expr.nodesAll_eq]
      exact ((hargs.laidEach fun _ _ h => h.2).behind (behind ++ [open_])).construct (by simp) rfl
        rfl (fun m hm => hm) (List.Subset.trans hcallee (Clause.namesIn_subset (by simp)))
    · exact (listUntil_gives rparen hr.expr).behind.behind.bind fun _ _ _ _ => refuseCall_gives

omit hr in
theorem isPlain_of_unaryOp? {kind : TokenKind} {op : UnaryOp} (h : unaryOp? kind = some op) :
    kind.isPlain = true := by
  unfold unaryOp? at h
  split at h <;> first | rfl | cases h

omit hr in
theorem isPlain_of_binaryOp? {kind : TokenKind} {op : BinaryOp} (h : binaryOp? kind = some op) :
    kind.isPlain = true := by
  unfold binaryOp? at h
  split at h <;> first | rfl | cases h

theorem unaryOf_gives : Gives (n + 1) 1 scopes (unaryOf r) (Expr.ReadFrom scopes.flatten) := by
  refine fun s => .peek ?_
  split
  · rename_i op hop
    refine .skip (isPlain_of_unaryOp? hop) fun t _ _ => hr.unary.weaken.bind fun e ue he _ => ?_
    exact .give ⟨he.1, (he.2.behind [t]).plain rfl (fun m hm => hm) rfl⟩
  · exact (primary_gives hr).bind fun e ue he hpre => callTail_gives hr he hpre

theorem binaryTail_gives (least m : Nat) {left : Expr Span}
    (hleft : left.ReadFrom scopes.flatten used) :
    GivesFrom (min n m) 0 scopes s used (binaryTail r least m left)
      (Expr.ReadFrom scopes.flatten) := by
  -- there are as many rounds as tokens, and a round that goes on has taken an operator
  induction m generalizing used left with
  | zero => exact .spent (Nat.min_zero n)
  | succ m ih =>
    rintro s₁ hs₁ rfl
    refine .peek ?_
    split
    · exact Takes.give hleft s₁ hs₁ rfl
    · rename_i op hop
      split
      · exact Takes.give hleft s₁ hs₁ rfl
      · refine .skipPlain hs₁ (isPlain_of_binaryOp? hop) fun t _ _ => ?_
        have hright : Gives (min n (m + 1) - 1) 0 s₁.scopes (r.binary (op.precedence + 1)) _ :=
          (hr.binary _).mono (by omega) (Nat.zero_le _)
        refine hright.bind fun right uright hright _ => Takes.mono (ih ⟨⟨hleft.1, hright.1⟩, ?_⟩)
          (by omega) (Nat.le_refl _)
        exact ((hleft.2.before [t]).append hright.2).plain rfl (fun m hm => hm) rfl

theorem binaryOf_gives (least : Nat) :
    Gives (n + 1) 1 scopes (binaryOf r least) (Expr.ReadFrom scopes.flatten) :=
  fun _ => (unaryOf_gives hr).bind fun _ _ he _ =>
    .remaining fun m => binaryTail_gives hr least m he

/-! ## Statements -/

/-- The scopes where a name was declared in the innermost one. -/
def declaredIn (scopes : List (List String)) : Option String → List (List String)
  | none => scopes
  | some x => (x :: scopes.headD []) :: scopes.drop 1

omit hr in
theorem declaredIn_cons (scope : List String) (outer : List (List String)) (o : Option String) :
    declaredIn (scope :: outer) o = (o.toList ++ scope) :: outer := by
  cases o <;> rfl

/-- The reader gives a statement that is well formed where the names of the scopes are known, and
that lies in the tokens. If it declares a name, the name is new in the innermost scope and is in it
afterwards. -/
abbrev Declaring (n k : Nat) (scopes : List (List String)) (s : ParseState) (used : List Token)
    (p : Parse (Stmt Span)) : Prop :=
  Takes n k s used scopes p fun t total names s' =>
    names = [] ∧ s'.scopes = declaredIn scopes t.declares? ∧ t.WellFormed scopes.flatten ∧
      (∀ name ∈ t.declares?, name ∉ scopes.headD []) ∧ Laid total [.ofStmt t] t.nodes

/-- What is given of a statement that declares no name. -/
abbrev GivesStmt (n k : Nat) (scopes : List (List String)) (s : ParseState) (used : List Token)
    (p : Parse (Stmt Span)) : Prop :=
  GivesFrom n k scopes s used p fun total t =>
    t.declares? = none ∧ t.WellFormed scopes.flatten ∧ Laid total [.ofStmt t] t.nodes

section Statements

variable {t : Token} {scope : List String} {outer : List (List String)}

omit hr in
theorem Takes.declaring {p : Parse (Stmt Span)} (h : GivesStmt n k scopes s used p) :
    Declaring n k scopes s used p := by
  refine h.imp ?_
  rintro t total names s' ⟨hnames, hs', hnone, ht, hlaid⟩
  rw [hnone]
  exact ⟨hnames, hs', ht, by simp, hlaid⟩

omit hr in
theorem mutMark_gives : Gives n 0 scopes mutMark fun _ _ => True := by
  refine fun s => .peek (.peekSecond fun u => ?_)
  split
  · rename_i hmut
    simp only [Bool.and_eq_true, decide_eq_true_eq] at hmut
    exact .skip (by rw [hmut.1.1]; rfl) fun _ _ _ => .give trivial
  · exact .give trivial

theorem letFrom_declaring : Declaring n 0 scopes s [t] (letFrom r t) := by
  refine mutMark_gives.bind fun isMut um _ _ => .expect rfl fun name hkind hname => ?_
  refine (typeAfter_gives hr _).behind.bind fun type ut htype _ => .expect rfl fun eq_ _ _ => ?_
  refine hr.expr.behind.behind.bind fun v uv hv _ => .expect rfl fun semi _ _ => ?_
  refine .declare (mem_places hname (by simp)) fun hnew => .spanFrom (.pure fun _ _ hs => ?_)
  refine ⟨rfl, hs, hv.1, ?_, ?_⟩
  · rintro _ ⟨⟩
    exact hnew
  · have hbehind := (htype.append (hv.2.widen [eq_] [semi])).behind (um ++ [name])
    refine hbehind.construct (by simp) rfl rfl ?_ (Clause.singleton_subset_namesIn (by simp) hkind)
    intro m hm
    simp only [Node.parts, Node.params, Node.ofStmt, Node.children, List.flatMap_nil,
      List.nil_append, List.mem_cons, List.mem_append] at hm ⊢
    tauto

theorem returnFrom_gives : GivesStmt n 0 scopes s [t] (returnFrom r t) := by
  refine .nextIs fun isBare => ?_
  split
  · refine .expect rfl fun semi _ _ => .spanFrom (.give ⟨rfl, trivial, ?_⟩)
    exact (Laid.nil [semi]).construct rfl rfl rfl (List.nil_subset _) (List.nil_subset _)
  · refine hr.expr.weaken.bind fun v uv hv _ => .expect rfl fun semi _ _ => ?_
    refine .spanFrom (.give ⟨rfl, hv.1, ?_⟩)
    exact (hv.2.before [semi]).construct (by simp) rfl rfl (fun m hm => hm) (List.nil_subset _)

theorem raiseFrom_gives : GivesStmt n 0 scopes s [t] (raiseFrom r t) := by
  refine hr.expr.weaken.bind fun v uv hv _ => .expect rfl fun semi _ _ => ?_
  refine .spanFrom (.give ⟨rfl, hv.1, ?_⟩)
  exact (hv.2.before [semi]).construct (by simp) rfl rfl (fun m hm => hm) (List.nil_subset _)

omit hr in
theorem catchName_takes : Takes n 0 s used (scope :: outer) catchName fun binding total names s' =>
    names = [] ∧ s'.scopes = (binding.toList ++ scope) :: outer ∧ ∃ more, total = used ++ more := by
  refine .accept rfl (.pure fun _ _ hs => ⟨rfl, hs, [], by simp⟩) fun t _ hpre => ?_
  exact .declare (mem_places hpre (by simp)) fun _ => .pure fun _ _ hs => ⟨rfl, hs, [t], rfl⟩

theorem tryFrom_gives : GivesStmt n 0 scopes s [t] (tryFrom r t) := by
  refine hr.block.weaken.bind fun body ub hb _ => .expect rfl fun catch_ _ _ => ?_
  refine Takes.thenGiven (j := 0) (P := fun total c => ∃ uname uh,
    total = t :: (ub ++ (catch_ :: uname ++ uh)) ∧
      Block.ReadFrom (c.1.toList ++ scopes.flatten) uh c.2) (.inScope ?_) ?_
  · refine Takes.bind catchName_takes ?_
    rintro binding _ _ s₂ ⟨rfl, hs₂, uname, rfl⟩ -
    rw [hs₂, List.append_nil]
    refine Takes.closing (hr.block.behind.bind fun h uh hh _ => .give ⟨uname, uh, by simp, hh⟩)
  · rintro c _ ⟨uname, uh, rfl, hh⟩ -
    refine .spanFrom (.give ⟨rfl, ⟨hb.1, hh.1⟩, ?_⟩)
    exact (hb.2.append (hh.2.behind (catch_ :: uname))).construct rfl rfl rfl (fun m hm => hm)
      (List.nil_subset _)

theorem elseTail_gives (m : Nat) :
    Gives (min n m) 0 scopes (elseTail r m) fun more e =>
      e.WellFormed scopes.flatten ∧ Laid more (Node.ofElse e) e.nodes := by
  induction m with
  | zero => exact fun s => .spent (Nat.min_zero n)
  | succ m ih =>
    intro s
    have hr' : r.WellScoped (min n (m + 1) - 1) := hr.mono (by omega)
    refine .accept rfl (.accept rfl (.give ⟨trivial, .nil _⟩) fun t _ _ => ?_) fun t _ _ => ?_
    · exact hr'.block.weaken.bind fun b ub hb _ => .give ⟨hb.1, hb.2.behind [t]⟩
    · refine hr'.expr.weaken.bind fun test ut ht _ => hr'.block.weaken.bind fun b ub hb _ => ?_
      refine (ih.mono (by omega) (Nat.le_refl _)).bind fun rest urest hrest _ => ?_
      refine .give ⟨⟨ht.1, hb.1, hrest.1⟩, ?_⟩
      have hparts := (ht.2.append (hb.2.append hrest.2)).behind [t]
      simp only [List.cons_append, List.nil_append, List.append_assoc] at hparts ⊢
      exact hparts

theorem ifFrom_gives : GivesStmt n 0 scopes s [t] (ifFrom r) := by
  refine hr.expr.weaken.bind fun test ut ht _ => hr.block.weaken.bind fun b ub hb _ => ?_
  refine .remaining fun m => (elseTail_gives hr m).bind fun rest urest hrest _ => ?_
  refine .give ⟨rfl, ⟨ht.1, hb.1, hrest.1⟩, ?_⟩
  have hparts := (ht.2.append (hb.2.append hrest.2)).behind [t]
  simp only [List.append_assoc] at hparts ⊢
  refine hparts.plain rfl ?_ rfl
  intro m hm
  simp only [Node.parts, Node.params, Node.ofStmt, Node.children, List.flatMap_nil,
    List.nil_append, List.mem_cons, List.mem_append] at hm ⊢
  tauto

theorem forFrom_gives : GivesStmt n 0 scopes s [t] (forFrom r) := by
  refine .expect rfl fun target _ hpre => .expect rfl fun in_ _ _ => ?_
  refine hr.expr.behind.behind.bind fun e ue he _ => ?_
  refine Takes.thenGiven (j := 0) (P := fun total b => ∃ ub,
    total = [t, target, in_] ++ (ue ++ ub) ∧ b.ReadFrom (target.value :: scopes.flatten) ub)
    (.inScope ?_) ?_
  · refine .declare (mem_places hpre (by simp)) fun _ =>
      .closing (.imp (Takes.lift hr.block.behind.behind) ?_)
    rintro b _ _ s' ⟨ub, rfl, hnames, hs', hb⟩
    exact ⟨hnames, hs', ub, by simp, hb⟩
  · rintro b _ ⟨ub, rfl, hb⟩ -
    refine .give ⟨rfl, ⟨he.1, hb.1⟩, ?_⟩
    exact ((he.2.append hb.2).behind [t, target, in_]).plain rfl (fun m hm => hm) rfl

theorem whileFrom_gives : GivesStmt n 0 scopes s [t] (whileFrom r) := by
  refine hr.expr.weaken.bind fun e ue he _ => hr.block.weaken.bind fun b ub hb _ => ?_
  refine .give ⟨rfl, ⟨he.1, hb.1⟩, ?_⟩
  have hparts := (he.2.append hb.2).behind [t]
  simp only [List.append_assoc] at hparts ⊢
  exact hparts.plain rfl (fun m hm => hm) rfl

theorem insertionStmt_gives : GivesStmt n 1 scopes s [] (insertionStmt r) := by
  refine .expect rfl fun target _ hpre => .require (mem_places hpre (by simp)) fun hknown => ?_
  refine .expect rfl fun dot_ _ _ => .expect rfl fun method _ hmethod => ?_
  split
  · exact .fault (mem_places hmethod (by simp))
  · refine .expect rfl fun open_ _ _ => hr.expr.behind.behind.behind.behind.bind fun v uv hv _ => ?_
    refine .expect rfl fun close _ _ => .expect rfl fun semi _ _ => ?_
    refine .spanFrom (.give ⟨rfl, ⟨hknown, hv.1⟩, ?_⟩)
    exact (hv.2.widen [dot_, method, open_] [close, semi]).construct (by simp) rfl rfl
      (fun m hm => hm) (List.nil_subset _)

theorem exprStmt_gives : GivesStmt n 1 scopes s [] (exprStmt r (s.rest.headD s.last)) := by
  refine hr.expr.bind fun e ue he hpre => ?_
  have hplain : GivesStmt (n - 1) 0 scopes s ue (do
      let _ ← expectSign semicolon
      return Stmt.expr e) :=
    .expect rfl fun semi _ _ => .give ⟨rfl, he.1, he.2.before [semi]⟩
  split
  · exact hplain
  · rename_i target hname
    refine .accept rfl hplain fun eq_ _ _ => ?_
    refine hr.expr.behind.behind.bind fun v uv hv _ => .expect rfl fun semi _ _ => ?_
    refine .spanFrom (.give ⟨rfl, ⟨name_known hname he.1, hv.1⟩, ?_⟩)
    obtain ⟨t, behind, rfl, htarget⟩ := he.2.named hname
    rw [headD_of_isPrefix hpre, Stmt.nodes]
    exact (hv.2.widen (behind ++ [eq_]) [semi]).construct (by simp) rfl rfl (fun m hm => hm)
      (List.Subset.trans htarget (Clause.namesIn_subset (by simp)))

theorem stmt_declaring : Declaring n 1 scopes s [] (stmt r) := by
  have hr' : r.WellScoped (n - 1) := hr.mono (Nat.sub_le ..)
  refine .peek ?_
  split <;> rename_i hkind
  · exact .skip (by rw [hkind]; rfl) fun t ht _ => ht ▸ letFrom_declaring hr'
  · exact .skip (by rw [hkind]; rfl) fun t ht _ => ht ▸ (returnFrom_gives hr').declaring
  · exact .skip (by rw [hkind]; rfl) fun t ht _ => ht ▸ (raiseFrom_gives hr').declaring
  · exact .skip (by rw [hkind]; rfl) fun t ht _ => ht ▸ (tryFrom_gives hr').declaring
  · exact .skip (by rw [hkind]; rfl) fun _ _ _ => (ifFrom_gives hr').declaring
  · exact .skip (by rw [hkind]; rfl) fun _ _ _ => (forFrom_gives hr').declaring
  · exact .skip (by rw [hkind]; rfl) fun _ _ _ => (whileFrom_gives hr').declaring
  · refine Takes.declaring (.peekSecond fun u => ?_)
    split
    · exact insertionStmt_gives hr
    · exact exprStmt_gives hr
  · exact (exprStmt_gives hr).declaring

/-- The statements of a block: each is well formed where the names declared before it are known,
and they declare different names, none of which was in the scope before. They lie in the tokens. -/
theorem statements_takes (kind : TokenKind) (m : Nat) :
    Takes (min n m) 0 s [] (scope :: outer) (untilKind kind (stmt r) m) fun ts total names s' =>
      names = [] ∧ s'.scopes.drop 1 = outer ∧
        Stmt.WellFormedAll (scope ++ outer.flatten) ts ∧ (ts.filterMap Stmt.declares?).Nodup ∧
        (∀ name ∈ ts.filterMap Stmt.declares?, name ∉ scope) ∧
        Laid total (ts.map .ofStmt) (ts.flatMap Stmt.nodes) := by
  induction m generalizing s scope with
  | zero => exact .spent (Nat.min_zero n)
  | succ m ih =>
    refine .nextIs fun isLast => ?_
    split
    · exact .pure fun _ _ hs => ⟨rfl, by rw [hs]; rfl, trivial, .nil, by simp, .nil _⟩
    · have hstmt : Declaring (min n (m + 1)) 1 (scope :: outer) s [] (stmt r) :=
        Takes.mono (stmt_declaring hr) (Nat.min_le_left n (m + 1)) (Nat.le_refl 1)
      refine hstmt.bind ?_
      rintro t used _ s₁ ⟨rfl, hs₁, ht, hnew, hlaid⟩ -
      rw [hs₁, declaredIn_cons]
      refine (Takes.mono (.lift fun _ => ih) (by omega) (Nat.le_refl _)).bind ?_
      rintro ts _ _ s₂ ⟨more, rfl, rfl, hs₂, hts, hnodup, hfresh, hmore⟩ -
      rw [List.append_assoc] at hts
      refine .pure fun _ _ hs => ⟨rfl, by rw [hs, hs₂], ⟨ht, hts⟩, ?_⟩
      rw [← and_assoc]
      refine ⟨?_, hlaid.append hmore⟩
      cases hdeclares : t.declares? with
      | none =>
        rw [List.filterMap_cons_none hdeclares]
        rw [hdeclares] at hfresh
        exact ⟨hnodup, hfresh⟩
      | some name =>
        rw [List.filterMap_cons_some hdeclares]
        rw [hdeclares] at hfresh hnew
        have hhead : name ∉ ts.filterMap Stmt.declares? :=
          fun hmem => hfresh name hmem (List.mem_cons_self ..)
        refine ⟨List.nodup_cons.2 ⟨hhead, hnodup⟩, List.forall_mem_cons.2 ⟨hnew name rfl, ?_⟩⟩
        exact fun n hn hmem => hfresh n hn (List.mem_cons_of_mem _ hmem)

theorem blockOf_gives : Gives (n + 1) 1 scopes (blockOf r) (Block.ReadFrom scopes.flatten) := by
  refine fun s => .expect rfl fun t _ _ => ?_
  refine Takes.thenGiven (j := 0) (P := fun total ts => ∃ more, total = t :: more ∧
    (Block.mk t.span ts).WellFormed scopes.flatten ∧
      Laid more (ts.map .ofStmt) (ts.flatMap Stmt.nodes)) (.inScope (.remaining fun m => ?_)) ?_
  · refine (Takes.lift fun _ => statements_takes hr _ m).imp ?_
    rintro ts _ _ s₂ ⟨more, rfl, rfl, hs₂, hts, hnodup, -, hlaid⟩
    exact ⟨rfl, hs₂, more, rfl, ⟨hnodup, hts⟩, hlaid⟩
  · rintro ts _ ⟨more, rfl, hts, hlaid⟩ -
    refine .expect rfl fun close _ _ => .spanFrom (.give ⟨hts, ?_⟩)
    rw [Block.nodes, Stmt.nodesAll_eq]
    exact (hlaid.before [close]).construct (by simp) rfl rfl (fun m hm => hm) (List.nil_subset _)

end Statements

end Parse

/-- **The readers for `n` levels are enough in front of `n` tokens, and give well-formed trees.** -/
theorem Level.ofDepth_wellScoped (n : Nat) : (Level.ofDepth n).WellScoped n := by
  induction n with
  | zero => exact ⟨fun _ => .spent rfl, fun _ _ => .spent rfl, fun _ => .spent rfl,
      fun _ => .spent rfl⟩
  | succ n ih =>
    -- a token is taken before the level inside is used, which has `n` left in front of it
    exact ⟨Parse.typeOf_gives ih, Parse.binaryOf_gives ih, Parse.unaryOf_gives ih,
      Parse.blockOf_gives ih⟩

end RaisingEffects
