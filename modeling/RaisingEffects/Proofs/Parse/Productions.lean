import RaisingEffects.Proofs.Parse.Reads
import RaisingEffects.Proofs.Tree.Shape

/-!
# Productions read back their words

Each production of the grammar reads back what the words of a tree were, if the level of readers
that it is built on reads the parts of the tree. What follows matters: an expression ends where a
token stands that could not continue it (`TokenKind.closesExpr`), and likewise a type.

* `Level.ReadsType`, `Level.ReadsExpr` and `Level.ReadsBlock` say that a level reads a tree back.
* The lemmas named `_reads` go through the productions.
* A chain of operators is read by a loop, so a left operand is not read by a call of its own: when
  it has been read, the loop goes on behind it. `Parse.Climbs b` therefore says of an expression
  that whatever the loop does once it holds the expression, it does from where the expression
  starts. It is asked for least precedences up to `b`, where no operator tighter than `b` follows.
-/

namespace RaisingEffects

namespace TokenKind

/-- Whether a token of this kind may follow a type, and ends it. -/
def closesType : TokenKind → Bool
  | symbol .comma | symbol .rparen | symbol .gt | symbol .assign | symbol .pipe | symbol .lbrace
  | symbol .semicolon => true
  | _ => false

def closesExpr : TokenKind → Bool
  | symbol .comma | symbol .rparen | symbol .rbracket | symbol .semicolon | symbol .lbrace
  | symbol .assign => true
  | _ => false

def opensExpr : TokenKind → Bool
  | ident | int | float | string | keyword .true_ | keyword .false_ | keyword .not_
  | symbol .lparen | symbol .lbracket | symbol .pipe | symbol .either | symbol .minus => true
  | _ => false

def opensStmt : TokenKind → Bool
  | keyword .let_ | keyword .return_ | keyword .raise | keyword .try_ | keyword .if_
  | keyword .for_ | keyword .while_ => true
  | k => k.opensExpr

theorem ne_of_holds {P : TokenKind → Bool} {k l : TokenKind} (hk : P k = true)
    (hl : P l = false) : k ≠ l := by
  rintro rfl
  rw [hk] at hl
  cases hl

end TokenKind

open TokenKind (ne_of_holds)

/-! ## First words -/

/-- The first word of an expression. If it is a name, no dot follows, also if the expression stands
as a statement. -/
theorem Expr.exists_first (e : Expr Unit) : ∃ w ws, e.words = w :: ws ∧ w.kind.opensExpr = true ∧
    (w.kind = .ident → ∀ more, Word.nextKind (ws ++ .sign .semicolon :: more) ≠ .symbol .dot) := by
  cases e with
  | name loc id => exact ⟨_, _, rfl, rfl, by simp [Word.nextKind, Word.kind]⟩
  | literal loc value =>
    cases value with
    | bool b => cases b <;> exact ⟨_, _, rfl, rfl, by simp [Word.kind]⟩
    | _ => exact ⟨_, _, rfl, rfl, by simp [Word.kind]⟩
  | call loc callee args => exact ⟨_, _, rfl, rfl, by simp [Word.between, Word.nextKind, Word.kind]⟩
  | closure loc params clause body => cases params <;> exact ⟨_, _, rfl, rfl, by simp [Word.kind]⟩
  | collection loc kind elements =>
    cases kind <;> exact ⟨_, _, rfl, rfl, by simp [Word.between, Word.nextKind, Word.kind]⟩
  | binary op left right => exact ⟨_, _, rfl, rfl, by simp [Word.kind]⟩
  | unary op operand => cases op <;> exact ⟨_, _, rfl, rfl, by simp [Word.kind]⟩

theorem Expr.exists_word (e : Expr Unit) : ∃ w ws, e.words = w :: ws ∧ w.kind.opensExpr = true := by
  obtain ⟨w, ws, hwords, hw, -⟩ := e.exists_first
  exact ⟨w, ws, hwords, hw⟩

theorem Stmt.exists_word (t : Stmt Unit) : ∃ w ws, t.words = w :: ws ∧ w.kind.opensStmt = true := by
  cases t with
  | return_ loc value => cases value <;> exact ⟨_, _, rfl, rfl⟩
  | expr e =>
    obtain ⟨w, ws, hwords, hw⟩ := e.exists_word
    refine ⟨w, ws ++ [.sign .semicolon], by rw [Stmt.words, hwords]; rfl, ?_⟩
    unfold TokenKind.opensStmt
    split <;> first | rfl | exact hw
  | _ => exact ⟨_, _, rfl, rfl⟩

theorem Block.exists_word (b : Block Unit) : ∃ ws, b.words = .sign .lbrace :: ws := by
  cases b with
  | mk loc ss => exact ⟨_, rfl⟩

/-! ## Levels -/

/-- The level reads the type back. -/
def Level.ReadsType (r : Level) (t : TypeExpr Unit) : Prop :=
  ∀ (w : Word) (ws : List Word) (sc : List (List String)), w.kind.closesType = true →
    Parse.Reads r.type ⟨t.words ++ w :: ws, sc⟩ ⟨w :: ws, sc⟩ fun t' => t'.map unplaced = t

def Level.ReadsExpr (r : Level) (sc : List (List String)) (e : Expr Unit) : Prop :=
  ∀ (w : Word) (ws : List Word), w.kind.closesExpr = true →
    Parse.Reads r.expr ⟨e.words ++ w :: ws, sc⟩ ⟨w :: ws, sc⟩ fun e' => e'.map unplaced = e

def Level.ReadsBlock (r : Level) (sc : List (List String)) (b : Block Unit) : Prop :=
  ∀ ws : List Word,
    Parse.Reads r.block ⟨b.words ++ ws, sc⟩ ⟨ws, sc⟩ fun b' => b'.map unplaced = b

namespace Parse

open TokenKind Sign Keyword

variable {r : Level} {sc : List (List String)} {w : Word} {ps : List (Param Unit)}

/-! ## Types and parameters -/

theorem typeAfter_reads (sign : Sign) (hsign : (symbol sign).closesType = false)
    (sc : List (List String)) {type : Option (TypeExpr Unit)} (htype : ∀ t ∈ type, r.ReadsType t)
    (ws : List Word) (hw : w.kind.closesType = true) :
    Reads (typeAfter sign r) ⟨TypeExpr.wordsAfter sign type ++ w :: ws, sc⟩ ⟨w :: ws, sc⟩
      fun t => t.map (·.map unplaced) = type := by
  cases type with
  | none => exact .reject (ne_of_holds hw hsign) (.pure rfl)
  | some t =>
    refine .accept rfl fun _ _ => (htype t rfl w ws sc hw).bind fun t' ht' => .pure ?_
    rw [Option.map_some, ht']

/-- Types with commas between them. -/
theorem readsItems_types (sc : List (List String)) (close : Sign)
    (hclose : (symbol close).closesType = true) {ts : List (TypeExpr Unit)}
    (h : ∀ t ∈ ts, r.ReadsType t) :
    ReadsItems r.type (·.map unplaced) id TypeExpr.words close sc ts := by
  intro t ht w ws hw
  refine h t ht w ws sc ?_
  rcases hw with rfl | rfl
  · rfl
  · exact hclose

theorem exists_word_type (close : Sign) (t : TypeExpr Unit) :
    ∃ w ws, t.words = w :: ws ∧ w.kind ≠ .symbol close := by
  cases t with
  | named loc name args => cases args <;> exact ⟨_, _, rfl, by simp [Word.kind]⟩
  | fn loc params clause result => cases result <;> exact ⟨_, _, rfl, by simp [Word.kind]⟩

theorem typeOf_reads_named {name : String} {args : List (TypeExpr Unit)}
    (h : ∀ t ∈ args, r.ReadsType t) (ws : List Word) (hw : w.kind.closesType = true) :
    Reads (typeOf r) ⟨(TypeExpr.named () name args).words ++ w :: ws, sc⟩ ⟨w :: ws, sc⟩
      fun t => t.map unplaced = .named () name args := by
  cases args with
  | nil =>
    refine .peek fun start _ _ => .reject (by simp [Word.kind]) (.expect rfl fun t ht => ?_)
    refine .reject (ne_of_holds hw rfl) (.spanFrom fun span => .pure ?_)
    rw [TypeExpr.map_named, ht]
    rfl
  | cons arg args =>
    have hargs := commaList_reads gt (by simp) (readsItems_types sc gt rfl h) (w :: ws)
    rw [TypeExpr.words_named, List.cons_append, Word.between_append]
    refine .peek fun start _ _ => .reject (by simp [Word.kind]) (.expect rfl fun t ht => ?_)
    refine .accept rfl fun _ _ => hargs.bind fun args' hargs' => .expect rfl fun _ _ => ?_
    refine .spanFrom fun span => .pure ?_
    rw [TypeExpr.map_named, hargs', List.map_id, ht]
    rfl

/-- What follows the clause of a signature: its result, or what follows the signature. -/
theorem exists_word_after_clause (result : Option (TypeExpr Unit)) (ws : List Word)
    (hw : w.kind.closesType = true) :
    ∃ v vs, TypeExpr.wordsAfter arrow result ++ w :: ws = v :: vs ∧ v.kind ≠ keyword raises ∧
      (v.kind ≠ symbol lparen ∧ v.kind ≠ ident) := by
  cases result with
  | none => exact ⟨w, ws, rfl, ne_of_holds hw rfl, ne_of_holds hw rfl, ne_of_holds hw rfl⟩
  | some t => exact ⟨_, _, rfl, by simp [Word.kind], by simp [Word.kind], by simp [Word.kind]⟩

theorem typeOf_reads_fn {params : List (TypeExpr Unit)} {c : Option (Clause Unit)}
    {result : Option (TypeExpr Unit)} (hparams : ∀ t ∈ params, r.ReadsType t)
    (hresult : ∀ t ∈ result, r.ReadsType t) (ws : List Word) (hw : w.kind.closesType = true) :
    Reads (typeOf r) ⟨(TypeExpr.fn () params c result).words ++ w :: ws, sc⟩ ⟨w :: ws, sc⟩
      fun t => t.map unplaced = .fn () params c result := by
  obtain ⟨v, vs, hafter, hraises, hopen⟩ := exists_word_after_clause result ws hw
  have hlist := listUntil_reads rparen (by simp) (readsItems_types sc rparen rfl hparams)
    (fun t _ => exists_word_type rparen t) (Clause.optionWords c ++ v :: vs)
  have hclause := clause_reads false c vs sc hraises fun _ => hopen
  have htail := typeAfter_reads arrow rfl sc hresult ws hw
  rw [hafter] at htail
  rw [TypeExpr.words_fn, List.cons_append, List.append_assoc, List.append_assoc,
    Word.between_append, hafter]
  refine .peek fun start _ _ => .accept rfl fun _ _ => .expect rfl fun _ _ => ?_
  refine hlist.bind fun params' hparams' => hclause.bind fun c' hc' => ?_
  refine htail.bind fun result' hresult' => .spanFrom fun span => .pure ?_
  rw [TypeExpr.map_fn, hparams', List.map_id, hc', hresult']

theorem param_reads {p : Param Unit} (htype : ∀ t ∈ p.type, r.ReadsType t) (ws : List Word)
    (hw : w.kind.closesType = true) :
    Reads (param r) ⟨p.words ++ w :: ws, sc⟩ ⟨w :: ws, sc⟩ fun p' => p'.map unplaced = p := by
  refine .expect rfl fun t ht => ?_
  refine (typeAfter_reads colon rfl sc htype ws hw).bind fun type' htype' => .pure ?_
  rw [Param.map, htype', ht]
  rfl

variable (h : ∀ p ∈ ps, ∀ t ∈ p.type, r.ReadsType t)

include h

/-- Parameters with commas between them. -/
theorem paramList_reads (close : Sign) (hclose : (symbol close).closesType = true)
    (hcomma : close ≠ comma) (ws : List Word) :
    Reads (listUntil close (param r)) ⟨Word.commas (ps.map Param.words) ++ .sign close :: ws, sc⟩
      ⟨ws, sc⟩ fun ps' => ps'.map (·.map unplaced) = ps := by
  have hitems : ReadsItems (param r) (·.map unplaced) id Param.words close sc ps := by
    intro p hp w ws hw
    refine param_reads (h p hp) ws ?_
    rcases hw with rfl | rfl
    · rfl
    · exact hclose
  have hlist := listUntil_reads close hcomma hitems
    (fun p _ => ⟨_, _, rfl, by simp [Word.kind]⟩) ws
  rwa [List.map_id] at hlist

theorem params_reads (ws : List Word) :
    Reads (params r) ⟨Param.listWords ps ++ ws, sc⟩ ⟨ws, sc⟩
      fun ps' => ps'.map (·.map unplaced) = ps := by
  rw [Param.listWords, Word.between_append]
  exact .expect rfl fun _ _ => paramList_reads h rparen rfl (by simp) ws

theorem closureParams_reads (ws : List Word) :
    Reads (closureParams r) ⟨Param.closureWords ps ++ ws, sc⟩ ⟨ws, sc⟩
      fun ps' => ps'.map (·.map unplaced) = ps := by
  cases ps with
  | nil => exact .accept rfl fun _ _ => .pure rfl
  | cons p ps =>
    rw [Param.closureWords, Word.between_append]
    · refine .reject (by simp [Word.kind]) (.expect rfl fun _ _ => ?_)
      exact paramList_reads h pipe rfl (by simp) ws
    · simp

omit h

/-! ## Expressions -/

/-- An expression does not start with a token of a kind that opens none. -/
theorem nextIs_reads_expr {β : Type} {kind : TokenKind} (hkind : kind.opensExpr = false)
    {e : Expr Unit} {ws : List Word} {f : Bool → Parse β} {y : Place} {Q : β → Prop}
    (h : Reads (f false) ⟨e.words ++ ws, sc⟩ y Q) :
    Reads (nextIs kind >>= f) ⟨e.words ++ ws, sc⟩ y Q := by
  obtain ⟨v, vs, hwords, hv⟩ := e.exists_word
  rw [hwords] at h ⊢
  refine .nextIs ?_
  rwa [decide_eq_false (ne_of_holds hv hkind)]

/-- Expressions with commas between them. -/
theorem exprList_reads (close : Sign) (hclose : (symbol close).closesExpr = true)
    (hcomma : close ≠ comma) (hopens : (symbol close).opensExpr = false) {es : List (Expr Unit)}
    (h : ∀ e ∈ es, r.ReadsExpr sc e) (ws : List Word) :
    Reads (listUntil close r.expr)
      ⟨Word.commas (es.map Expr.words) ++ .sign close :: ws, sc⟩ ⟨ws, sc⟩
      fun es' => es'.map (·.map unplaced) = es := by
  have hitems : ReadsItems r.expr (·.map unplaced) id Expr.words close sc es := by
    intro e he w ws hw
    refine h e he w ws ?_
    rcases hw with rfl | rfl
    · rfl
    · exact hclose
  have hfirst : ∀ e ∈ es, ∃ w ws, e.words = w :: ws ∧ w.kind ≠ .symbol close := by
    intro e _
    obtain ⟨w, ws', hwords, hw⟩ := Expr.exists_word e
    exact ⟨w, ws', hwords, ne_of_holds hw hopens⟩
  have hlist := listUntil_reads close hcomma hitems hfirst ws
  rwa [List.map_id] at hlist

section Primaries

variable {P : Expr Span → Prop} {v : Word} {ws vs : List Word}

/-- Where no argument list follows, an operand without an operator is all there is. -/
theorem unaryOf_reads (hv : unaryOp? v.kind = none)
    (h : Reads (primary r) ⟨v :: vs, sc⟩ ⟨ws, sc⟩ P) (hws : Word.nextKind ws ≠ symbol lparen) :
    Reads (unaryOf r) ⟨v :: vs, sc⟩ ⟨ws, sc⟩ P := by
  refine .peek fun t hkind _ => ?_
  rw [hkind, hv]
  exact h.bind fun e he => .reject hws (.pure he)

theorem primary_reads_parens (h : Reads r.expr ⟨vs, sc⟩ ⟨.sign rparen :: ws, sc⟩ P) :
    Reads (primary r) ⟨.sign lparen :: vs, sc⟩ ⟨ws, sc⟩ P := by
  refine .peek fun t hkind _ => ?_
  rw [hkind]
  exact .skip (h.bind fun e he => .expect rfl fun _ _ => .pure he)

theorem primary_reads_name {id : String} (hid : id ∈ sc.flatten)
    (hws : Word.nextKind ws ≠ symbol lbracket) :
    Reads (primary r) ⟨.name id :: ws, sc⟩ ⟨ws, sc⟩ fun e' => ∃ span, e' = .name span id := by
  refine .peek fun t hkind hvalue => ?_
  rw [hkind]
  refine .peekSecond fun u hu => ?_
  rw [hu, if_neg (by simp [hws]), hvalue]
  exact .skip (.require hid (.spanFrom fun span => .pure ⟨span, rfl⟩))

theorem primary_reads_literal {v : Literal} (hv : ∀ w ∈ v.words, w.isSpelled = true) :
    Reads (primary r) ⟨v.words ++ ws, sc⟩ ⟨ws, sc⟩ fun e' => e'.map unplaced = .literal () v := by
  have hliteral {t : Token} {w : Word} (v : Literal) :
      Reads (literalOf t v) ⟨w :: ws, sc⟩ ⟨ws, sc⟩ fun e' => e'.map unplaced = .literal () v :=
    .skip (.spanFrom fun span => .pure rfl)
  cases v with
  | bool b =>
    cases b <;>
    · refine .peek fun t hkind _ => ?_
      rw [hkind]
      exact hliteral _
  | int n =>
    refine .peek fun t hkind hvalue => ?_
    rw [hkind, hvalue]
    have hlen : (toString n).length ≤ Numeral.maxDigits := by
      simpa [Literal.words, Word.isSpelled] using hv
    have hn : Numeral.int (Word.number n).value = .ok n := Numeral.int_toString hlen
    simp only [Word.kind, hn]
    exact hliteral _
  | float d => simp [Literal.words, Word.isSpelled] at hv
  | string text =>
    refine .peek fun t hkind hvalue => ?_
    rw [hkind, hvalue]
    exact hliteral _

/-- A collection is read if its elements are. -/
theorem primary_reads_collection (kind : CollectionKind) {elements : List (Expr Unit)}
    (helements : Reads (listUntil rbracket r.expr) ⟨vs, sc⟩ ⟨ws, sc⟩
      fun elements' => elements'.map (·.map unplaced) = elements) :
    Reads (primary r) ⟨kind.words ++ .sign lbracket :: vs, sc⟩ ⟨ws, sc⟩
      fun e' => e'.map unplaced = .collection () kind elements := by
  have hfrom (start : Token) : Reads (collectionFrom r start kind) ⟨.sign lbracket :: vs, sc⟩
      ⟨ws, sc⟩ fun e' => e'.map unplaced = .collection () kind elements := by
    refine .expect rfl fun _ _ => helements.bind fun elements' helements' => ?_
    refine .spanFrom fun span => .pure ?_
    rw [Expr.map, Expr.mapAll_eq_map, helements']
  cases kind with
  | list =>
    refine .peek fun t hkind _ => ?_
    rw [hkind]
    exact hfrom t
  | set =>
    refine .peek fun t hkind hvalue => ?_
    rw [hkind]
    refine .peekSecond fun u hu => ?_
    rw [hu, hvalue, if_pos (by simp [Word.kind, Word.value])]
    exact .skip (hfrom t)

end Primaries

/-! ## Operands and chains -/

section Operands

variable {n b least : Nat} {w : Word} {e : Expr Unit} {ws more : List Word}
  {items : List (List Word)}

/-- The words do not belong to an expression in front of them, unless they start with an operator
of at most the precedence `b`. -/
structure Behind (b : Nat) (ws : List Word) : Prop where
  noCall : Word.nextKind ws ≠ symbol lparen
  noElements : Word.nextKind ws ≠ symbol lbracket
  operator : ∀ op, binaryOp? (Word.nextKind ws) = some op → op.precedence ≤ b

theorem Behind.mono {b' : Nat} (h : Behind b ws) (hb : b ≤ b') : Behind b' ws :=
  { h with operator := fun op hop => (h.operator op hop).trans hb }

theorem binaryOp?_of_closesExpr {k : TokenKind} (h : k.closesExpr = true) : binaryOp? k = none := by
  unfold TokenKind.closesExpr at h
  split at h <;> first | rfl | cases h

theorem Behind.of_closesExpr (hw : w.kind.closesExpr = true) : Behind b (w :: ws) where
  noCall := ne_of_holds hw rfl
  noElements := ne_of_holds hw rfl
  operator := by simp [binaryOp?_of_closesExpr hw]

/-- The words are read as the expression by the reader of operands. -/
def ReadsUnary (r : Level) (sc : List (List String)) (e : Expr Unit) (ws : List Word) : Prop :=
  ∀ more, Behind 7 more → Reads (unaryOf r) ⟨ws ++ more, sc⟩ ⟨more, sc⟩ (·.map unplaced = e)

theorem readsUnary_name {id : String} (hid : id ∈ sc.flatten) :
    ReadsUnary r sc (.name () id) [.name id] := by
  refine fun more hmore => unaryOf_reads rfl ?_ hmore.noCall
  refine (primary_reads_name hid hmore.noElements).mono fun e' he' => ?_
  obtain ⟨span, rfl⟩ := he'
  rfl

theorem readsUnary_literal {v : Literal} (hv : ∀ w ∈ v.words, w.isSpelled = true) :
    ReadsUnary r sc (.literal () v) v.words := by
  intro more hmore
  have hread : Reads (primary r) ⟨v.words ++ more, sc⟩ ⟨more, sc⟩
      (·.map unplaced = .literal () v) := primary_reads_literal hv
  cases v with
  | bool b => cases b <;> exact unaryOf_reads rfl hread hmore.noCall
  | _ => exact unaryOf_reads rfl hread hmore.noCall

/-- A call is read if its arguments are. -/
theorem readsUnary_call {callee : String} {args : List (Expr Unit)} (hcallee : callee ∈ sc.flatten)
    (hargs : ∀ more, Reads (listUntil rparen r.expr) ⟨Word.commas items ++ .sign rparen :: more, sc⟩
      ⟨more, sc⟩ fun args' => args'.map (·.map unplaced) = args) :
    ReadsUnary r sc (.call () callee args) (.name callee :: Word.between lparen rparen items) := by
  intro more hmore
  rw [List.cons_append, Word.between_append]
  refine .peek fun t hkind _ => ?_
  rw [hkind]
  refine (primary_reads_name hcallee (by simp [Word.kind])).bind fun e' he' => ?_
  obtain ⟨span, rfl⟩ := he'
  refine .accept rfl fun _ _ => (hargs more).bind fun args' hargs' => .spanFrom fun span => ?_
  refine .reject hmore.noCall (.pure ?_)
  rw [Expr.map, Expr.mapAll_eq_map, hargs']

theorem readsUnary_collection (kind : CollectionKind) {elements : List (Expr Unit)}
    (helements : ∀ more, Reads (listUntil rbracket r.expr)
      ⟨Word.commas items ++ .sign rbracket :: more, sc⟩ ⟨more, sc⟩
      fun elements' => elements'.map (·.map unplaced) = elements) :
    ReadsUnary r sc (.collection () kind elements)
      (kind.words ++ Word.between lbracket rbracket items) := by
  intro more hmore
  have hread := primary_reads_collection kind (helements more)
  rw [List.append_assoc, Word.between_append]
  cases kind <;> exact unaryOf_reads rfl hread hmore.noCall

/-- Parentheses make an operand of any expression. -/
theorem readsUnary_parens (h : ∀ more, Reads r.expr ⟨ws ++ .sign rparen :: more, sc⟩
      ⟨.sign rparen :: more, sc⟩ (·.map unplaced = e)) :
    ReadsUnary r sc e (.sign lparen :: (ws ++ [.sign rparen])) := by
  intro more hmore
  rw [List.cons_append, List.append_assoc]
  exact unaryOf_reads rfl (primary_reads_parens (h more)) hmore.noCall

theorem unaryOp?_word (op : UnaryOp) : unaryOp? op.word.kind = some op := by
  cases op <;> rfl

theorem ReadsUnary.unary {op : UnaryOp} (h : ReadsUnary (Level.ofDepth n) sc e ws) :
    ReadsUnary (Level.ofDepth (n + 1)) sc (.unary op e) (op.word :: ws) := by
  refine fun more hmore => .peek fun t hkind _ => ?_
  rw [hkind, unaryOp?_word]
  refine .skip ((h more hmore).bind fun e' he' => .pure ?_)
  rw [Expr.map, he']

/-- What the loop does once it holds the expression, it does from the words of the expression on. -/
def Climbs (b : Nat) (r : Level) (sc : List (List String)) (e : Expr Unit) (ws : List Word) :
    Prop :=
  ∀ (least : Nat) (more : List Word) (y : Place) (Q : Expr Span → Prop), least ≤ b →
    Behind b more →
    (∀ e' m, e'.map unplaced = e → more.length < m →
      Reads (binaryTail r least m e') ⟨more, sc⟩ y Q) →
    Reads (binaryOf r least) ⟨ws ++ more, sc⟩ y Q

theorem Climbs.mono {b' : Nat} (h : Climbs b r sc e ws) (hb : b' ≤ b) : Climbs b' r sc e ws :=
  fun least more y Q hleast hmore => h least more y Q (hleast.trans hb) (hmore.mono hb)

/-- An operand can stand at any place in a chain. -/
theorem ReadsUnary.climbs (h : ReadsUnary r sc e ws) (hb : b ≤ 7) : Climbs b r sc e ws := by
  intro least more y Q hleast hmore hgo
  refine (h more (hmore.mono hb)).bind fun e' he' => .remaining ?_
  exact hgo e' _ he' (Nat.lt_succ_self _)

/-- The loop stops behind an expression where no operator follows that is tight enough. -/
theorem Climbs.reads (h : Climbs b r sc e ws) (hleast : least ≤ b)
    (hmore : Behind (least - 1) more) :
    Reads (binaryOf r least) ⟨ws ++ more, sc⟩ ⟨more, sc⟩ (·.map unplaced = e) := by
  refine h least more _ _ hleast (hmore.mono (by omega)) fun e' m he' hm => ?_
  obtain ⟨m, rfl⟩ : ∃ k, m = k + 1 := ⟨m - 1, by omega⟩
  refine .peekKind fun t hkind => ?_
  rw [hkind]
  cases hop : binaryOp? (Word.nextKind more) with
  | none => exact .pure he'
  | some op =>
    have hle := hmore.operator op hop
    have hpos : 0 < op.precedence := by cases op <;> decide
    dsimp only
    rw [if_pos (by omega)]
    exact .pure he'

/-- Operands with an operator between them. -/
theorem climbs_binary {op : BinaryOp} {left right : Expr Unit} {ls rs : List Word}
    (hop : binaryOp? w.kind = some op)
    (hleft : Climbs op.precedence (Level.ofDepth (n + 1)) sc left ls)
    (hright : Climbs (op.precedence + 1) (Level.ofDepth n) sc right rs) :
    Climbs op.precedence (Level.ofDepth (n + 1)) sc (.binary op left right) (ls ++ w :: rs) := by
  have hbehind (more : List Word) : Behind op.precedence (w :: more) := by
    refine ⟨fun h => ?_, fun h => ?_, fun op' h => ?_⟩
    · rw [show w.kind = _ from h] at hop
      cases hop
    · rw [show w.kind = _ from h] at hop
      cases hop
    · rw [Word.nextKind_cons, hop] at h
      cases h
      exact Nat.le_refl _
  intro least more y Q hleast hmore hgo
  rw [List.append_assoc, List.cons_append]
  refine hleft least _ y Q hleast (hbehind _) fun left' m hl hm => ?_
  obtain ⟨m, rfl⟩ : ∃ k, m = k + 1 := ⟨m - 1, by omega⟩
  refine .peek fun t hkind _ => ?_
  rw [hkind, hop]
  dsimp only
  rw [if_neg (by omega)]
  refine .skip ((hright.reads (Nat.le_refl _) hmore).bind fun right' hr => ?_)
  refine hgo _ m (by rw [Expr.map, hl, hr]) ?_
  simp only [List.length_cons, List.length_append] at hm
  omega

theorem Climbs.readsExpr (h : Climbs b (Level.ofDepth n) sc e e.words) :
    (Level.ofDepth (n + 1)).ReadsExpr sc e :=
  fun _ _ hw => h.reads (Nat.zero_le _) (.of_closesExpr hw)

theorem ReadsUnary.readsExpr (h : ReadsUnary (Level.ofDepth n) sc e e.words) :
    (Level.ofDepth (n + 1)).ReadsExpr sc e :=
  (h.climbs (Nat.zero_le _)).readsExpr

end Operands

/-! ## Closures -/

section Closures

variable {w : Word} {ws : List Word} {body : Body Unit}

/-- The level reads the body of a closure back in the given scopes. -/
def ReadsBody (r : Level) (sc : List (List String)) : Body Unit → Prop
  | .block b => r.ReadsBlock sc b
  | .expr e => r.ReadsExpr sc e

/-- A clause in front of the body of a closure ends where the body starts. -/
theorem closureClause_reads (c : Option (Clause Unit)) (hclause : c.isSome → body.isBlock)
    (ws : List Word) :
    Reads (clause false) ⟨Clause.optionWords c ++ (body.words ++ ws), sc⟩ ⟨body.words ++ ws, sc⟩
      fun c' => c'.map (·.map unplaced) = c := by
  cases body with
  | block b =>
    obtain ⟨vs, hwords⟩ := b.exists_word
    rw [Body.words, hwords]
    refine clause_reads false c _ sc ?_ fun _ => ⟨?_, ?_⟩ <;> simp [Word.kind]
  | expr e =>
    obtain ⟨v, vs, hwords, hv⟩ := e.exists_word
    rw [Body.words, hwords]
    exact clause_reads false c _ sc (ne_of_holds hv rfl) fun hc =>
      absurd (hclause hc) (by simp [Body.isBlock])

theorem names_of_map_unplaced {ps' : List (Param Span)} (h : ps'.map (·.map unplaced) = ps) :
    ps'.map Param.name = ps.map Param.name := by
  rw [← h, List.map_map]
  rfl

theorem closureBody_reads {hasClause : Bool} (hclause : hasClause = true → body.isBlock)
    (hbody : ReadsBody r sc body) (hw : w.kind.closesExpr = true) :
    Reads (do
        if hasClause || (← nextIs (symbol lbrace)) then return Body.block (← r.block)
        else return Body.expr (← r.expr))
      ⟨body.words ++ w :: ws, sc⟩ ⟨w :: ws, sc⟩ fun b => b.map unplaced = body := by
  cases body with
  | block b =>
    have hread : Reads r.block ⟨b.words ++ w :: ws, sc⟩ _ _ := hbody (w :: ws)
    obtain ⟨vs, hwords⟩ := b.exists_word
    rw [hwords] at hread
    rw [Body.words, hwords]
    refine .nextIs ?_
    rw [if_pos (by simp [Word.kind])]
    refine hread.bind fun b' hb' => .pure ?_
    rw [Body.map, hb']
  | expr e =>
    have hread : Reads r.expr ⟨e.words ++ w :: ws, sc⟩ _ _ := hbody w ws hw
    have hbare : hasClause = false := by simpa [Body.isBlock] using hclause
    refine nextIs_reads_expr rfl ?_
    rw [if_neg (by simp [hbare])]
    refine hread.bind fun e' he' => .pure ?_
    rw [Body.map, he']

theorem closure_reads {c : Option (Clause Unit)} (hps : ∀ p ∈ ps, ∀ t ∈ p.type, r.ReadsType t)
    (hnodup : (ps.map Param.name).Nodup) (hclause : c.isSome → body.isBlock)
    (hbody : ReadsBody r ((ps.map Param.name).reverse :: sc) body) (hw : w.kind.closesExpr = true) :
    Reads (closure r) ⟨(Expr.closure () ps c body).words ++ w :: ws, sc⟩ ⟨w :: ws, sc⟩
      fun e' => e'.map unplaced = .closure () ps c body := by
  rw [Expr.words, List.append_assoc, List.append_assoc]
  refine .peekAny fun start => (closureParams_reads hps _).bind fun ps' hps' => ?_
  refine (closureClause_reads c hclause _).bind fun c' hc' => ?_
  have hsome : c'.isSome = c.isSome := by rw [← hc', Option.isSome_map]
  rw [names_of_map_unplaced hps']
  refine (inScope_declareAll_reads hnodup (closureBody_reads (hsome ▸ hclause) hbody hw)).bind
    fun body' hbody' => .spanFrom fun span => .pure ?_
  rw [Expr.map, hps', hc', hbody']

theorem binaryOf_reads_closure {c : Option (Clause Unit)} {P : Expr Span → Prop}
    (hw : w.kind.closesExpr = true) (least : Nat)
    (h : Reads (closure r) ⟨(Expr.closure () ps c body).words ++ w :: ws, sc⟩ ⟨w :: ws, sc⟩ P) :
    Reads (binaryOf r least) ⟨(Expr.closure () ps c body).words ++ w :: ws, sc⟩
      ⟨w :: ws, sc⟩ P := by
  have hunary : Reads (unaryOf r) ⟨(Expr.closure () ps c body).words ++ w :: ws, sc⟩ ⟨w :: ws, sc⟩
      P := by
    cases ps <;>
    · refine unaryOf_reads rfl (.peek fun t hkind _ => ?_) (ne_of_holds hw rfl)
      rw [hkind]
      exact h
  refine hunary.bind fun e he => .remaining (.peek fun t hkind _ => ?_)
  rw [hkind, binaryOp?_of_closesExpr hw]
  exact .pure he

end Closures

/-! ## Statements -/

section Statements

variable {scope : List String} {ws : List Word} {start : Token} {value e : Expr Unit}
  {body : Block Unit} {target : String}

/-- The level reads the statement back in the given scopes, and knows what it declares then. -/
def ReadsStmt (r : Level) (sc : List (List String)) (scope : List String) (t : Stmt Unit) : Prop :=
  ∀ (w : Word) (ws : List Word), w.kind ≠ keyword elif → w.kind ≠ keyword else_ →
    Reads (stmt r) ⟨t.words ++ w :: ws, scope :: sc⟩
      ⟨w :: ws, (t.declares?.toList ++ scope) :: sc⟩ fun t' => t'.map unplaced = t

theorem mutMark_reads {isMut : Bool} {name : String} (hw : w.kind ≠ ident) :
    Reads mutMark ⟨(if isMut then [.name "mut"] else []) ++ .name name :: w :: ws, sc⟩
      ⟨.name name :: w :: ws, sc⟩ (· = isMut) := by
  cases isMut with
  | true =>
    refine .peek fun t hkind hvalue => .peekSecond fun u hu => ?_
    rw [hkind, hvalue, hu, if_pos (by simp [Word.kind, Word.value])]
    exact .skip (.pure rfl)
  | false =>
    refine .peek fun t hkind hvalue => .peekSecond fun u hu => ?_
    rw [hu, if_neg (by simp [hw])]
    exact .pure rfl

/-- What follows the name of a `let` is a colon or the sign of an assignment. -/
theorem exists_word_after_name (type : Option (TypeExpr Unit)) (ws : List Word) :
    ∃ w ws', TypeExpr.wordsAfter colon type ++ .sign assign :: ws = w :: ws' ∧ w.kind ≠ ident := by
  cases type <;> exact ⟨_, _, rfl, by simp [Word.kind]⟩

theorem readsStmt_let {name : String} {isMut : Bool} {type : Option (TypeExpr Unit)}
    (htype : ∀ t ∈ type, r.ReadsType t) (hvalue : r.ReadsExpr (scope :: sc) value)
    (hname : name ∉ scope) : ReadsStmt r sc scope (.let_ () name isMut type value) := by
  intro w ws _ _
  have hmark := typeAfter_reads colon rfl (scope :: sc) htype
    (value.words ++ .sign semicolon :: w :: ws)
    (show (Word.sign assign).kind.closesType = true from rfl)
  obtain ⟨v, vs, hafter, hv⟩ :=
    exists_word_after_name type (value.words ++ .sign semicolon :: w :: ws)
  simp only [Stmt.words, List.cons_append, List.append_assoc, List.nil_append]
  rw [hafter] at hmark ⊢
  refine .peek fun start hkind _ => ?_
  rw [hkind]
  refine .skip ((mutMark_reads hv).bind fun isMut' hisMut' => .expect rfl fun t ht => ?_)
  refine hmark.bind fun type' htype' => .expect rfl fun _ _ => ?_
  refine (hvalue (.sign semicolon) _ rfl).bind fun value' hvalue' => .expect rfl fun _ _ => ?_
  rw [ht]
  refine .declare hname (.spanFrom fun span => .pure ?_)
  rw [Stmt.map, htype', hvalue', hisMut']
  rfl

theorem readsStmt_return (hvalue : r.ReadsExpr (scope :: sc) value) :
    ReadsStmt r sc scope (.return_ () (some value)) := by
  intro w ws _ _
  simp only [Stmt.words, List.cons_append, List.append_assoc, List.nil_append]
  refine .peek fun start hkind _ => ?_
  rw [hkind]
  refine .skip (nextIs_reads_expr rfl ?_)
  rw [if_neg (by simp)]
  refine (hvalue _ _ rfl).bind fun value' hvalue' => .expect rfl fun _ _ => ?_
  refine .spanFrom fun span => .pure ?_
  rw [Stmt.map, hvalue']

theorem readsStmt_return_bare : ReadsStmt r sc scope (.return_ () none) := by
  intro w ws _ _
  refine .peek fun start hkind _ => ?_
  rw [hkind]
  refine .skip (.nextIs ?_)
  rw [if_pos (by simp [Word.kind])]
  exact .expect rfl fun _ _ => .spanFrom fun span => .pure rfl

theorem readsStmt_raise (hvalue : r.ReadsExpr (scope :: sc) value) :
    ReadsStmt r sc scope (.raise () value) := by
  intro w ws _ _
  simp only [Stmt.words, List.cons_append, List.append_assoc, List.nil_append]
  refine .peek fun start hkind _ => ?_
  rw [hkind]
  refine .skip ((hvalue _ _ rfl).bind fun value' hvalue' => .expect rfl fun _ _ => ?_)
  refine .spanFrom fun span => .pure ?_
  rw [Stmt.map, hvalue']

theorem catchName_reads {binding : Option String} (hw : w.kind ≠ ident) :
    Reads catchName ⟨binding.toList.map .name ++ w :: ws, [] :: sc⟩
      ⟨w :: ws, binding.toList :: sc⟩ (· = binding) := by
  cases binding with
  | none => exact .reject hw (.pure rfl)
  | some name =>
    refine .accept rfl fun t ht => ?_
    dsimp only
    rw [ht]
    exact .declare (by simp) (.pure rfl)

theorem readsStmt_try {handler : Block Unit} {binding : Option String}
    (hbody : r.ReadsBlock (scope :: sc) body)
    (hhandler : r.ReadsBlock (binding.toList :: scope :: sc) handler) :
    ReadsStmt r sc scope (.try_ () body binding handler) := by
  intro w ws _ _
  have hread := hhandler (w :: ws)
  obtain ⟨vs, hwords⟩ := handler.exists_word
  simp only [Stmt.words, List.cons_append, List.append_assoc]
  rw [hwords] at hread ⊢
  refine .peek fun start hkind _ => ?_
  rw [hkind]
  refine .skip ((hbody _).bind fun body' hbody' => .expect rfl fun _ _ => ?_)
  refine .bind (P := fun c => c.1 = binding ∧ c.2.map unplaced = handler)
    (y := ⟨w :: ws, scope :: sc⟩) ?_ fun c hc => ?_
  · refine .inScope binding.toList ?_
    refine (catchName_reads (by simp [Word.kind])).bind fun binding' hbinding' => ?_
    exact hread.bind fun handler' hhandler' => .pure ⟨hbinding', hhandler'⟩
  · refine .spanFrom fun span => .pure ?_
    rw [Stmt.map, hbody', hc.1, hc.2]

/-- A block after an expression ends it. -/
theorem ReadsExpr.beforeBlock (he : r.ReadsExpr sc e) (b : Block Unit) :
    Reads r.expr ⟨e.words ++ (b.words ++ ws), sc⟩ ⟨b.words ++ ws, sc⟩
      fun e' => e'.map unplaced = e := by
  obtain ⟨vs, hwords⟩ := b.exists_word
  rw [hwords]
  exact he _ _ rfl

theorem readsStmt_for (he : r.ReadsExpr (scope :: sc) e)
    (hbody : r.ReadsBlock ([target] :: scope :: sc) body) :
    ReadsStmt r sc scope (.for_ target e body) := by
  intro w ws _ _
  simp only [Stmt.words, List.cons_append, List.append_assoc]
  refine .peek fun start hkind _ => ?_
  rw [hkind]
  refine .skip (.expect rfl fun t ht => .expect rfl fun _ _ => ?_)
  refine (ReadsExpr.beforeBlock he body).bind fun e' he' => ?_
  rw [ht]
  refine .bind (P := fun b => b.map unplaced = body) (y := ⟨w :: ws, scope :: sc⟩) ?_
    fun body' hbody' => ?_
  · exact .inScope [target] (.declare (by simp) (hbody _))
  · refine .pure ?_
    rw [Stmt.map, he', hbody']
    rfl

theorem readsStmt_while (he : r.ReadsExpr (scope :: sc) e)
    (hbody : r.ReadsBlock (scope :: sc) body) : ReadsStmt r sc scope (.while_ e body) := by
  intro w ws _ _
  simp only [Stmt.words, List.cons_append, List.append_assoc]
  refine .peek fun start hkind _ => ?_
  rw [hkind]
  refine .skip ((ReadsExpr.beforeBlock he body).bind fun e' he' => ?_)
  refine (hbody _).bind fun body' hbody' => .pure ?_
  rw [Stmt.map, he', hbody']

/-- The level reads the branches back, in as many rounds as there are words and one more. -/
def ReadsElse (r : Level) (sc : List (List String)) (rest : Else Unit) : Prop :=
  ∀ (n : Nat) (w : Word) (ws : List Word), rest.words.length < n → w.kind ≠ keyword elif →
    w.kind ≠ keyword else_ →
      Reads (elseTail r n) ⟨rest.words ++ w :: ws, sc⟩ ⟨w :: ws, sc⟩
        fun rest' => rest'.map unplaced = rest

theorem elseTail_reads_none : ReadsElse r sc .none := by
  intro n w ws hn helif helse
  cases n with
  | zero => cases hn
  | succ n => exact .reject helif (.reject helse (.pure rfl))

theorem elseTail_reads_block {b : Block Unit} (hb : r.ReadsBlock sc b) :
    ReadsElse r sc (.block b) := by
  intro n w ws hn helif helse
  cases n with
  | zero => cases hn
  | succ n =>
    refine .reject (by simp [Else.words, Word.nextKind, Word.kind]) (.accept rfl fun _ _ => ?_)
    refine (hb (w :: ws)).bind fun b' hb' => .pure ?_
    rw [Else.map, hb']

theorem elseTail_reads_elif {test : Expr Unit} {rest : Else Unit} (htest : r.ReadsExpr sc test)
    (hbody : r.ReadsBlock sc body) (hrest : ReadsElse r sc rest) :
    ReadsElse r sc (.elif test body rest) := by
  intro n w ws hn helif helse
  simp only [Else.words, List.length_cons, List.length_append] at hn
  cases n with
  | zero => cases hn
  | succ n =>
    rw [Else.words, List.cons_append, List.append_assoc, List.append_assoc]
    refine .accept rfl fun _ _ => (ReadsExpr.beforeBlock htest body).bind fun test' htest' => ?_
    refine (hbody _).bind fun body' hbody' => ?_
    refine (hrest n w ws (by omega) helif helse).bind fun rest' hrest' => .pure ?_
    rw [Else.map, htest', hbody', hrest']

theorem readsStmt_if {rest : Else Unit} (he : r.ReadsExpr (scope :: sc) e)
    (hbody : r.ReadsBlock (scope :: sc) body) (hrest : ReadsElse r (scope :: sc) rest) :
    ReadsStmt r sc scope (.if_ e body rest) := by
  intro w ws helif helse
  simp only [Stmt.words, List.cons_append, List.append_assoc]
  refine .peek fun start hkind _ => ?_
  rw [hkind]
  refine .skip ((ReadsExpr.beforeBlock he body).bind fun e' he' => ?_)
  refine (hbody _).bind fun body' hbody' => .remaining ?_
  have hcount : rest.words.length < (rest.words ++ w :: ws).length + 1 := by
    simp only [List.length_append]
    omega
  refine (hrest _ w ws hcount helif helse).bind fun rest' hrest' => .pure ?_
  rw [Stmt.map, he', hbody', hrest']

theorem insertion?_word (how : Insertion) : insertion? how.word.value = some how := by
  cases how <;> decide

theorem readsStmt_insert {how : Insertion} (htarget : target ∈ (scope :: sc).flatten)
    (hvalue : r.ReadsExpr (scope :: sc) value) :
    ReadsStmt r sc scope (.insert () target how value) := by
  intro w ws _ _
  have hhow : how.word.kind = ident := by cases how <;> rfl
  simp only [Stmt.words, List.cons_append, List.append_assoc, List.nil_append]
  refine .peek fun start hkind _ => ?_
  rw [hkind]
  refine .peekSecond fun u hu => ?_
  have hdot : u.kind = symbol dot := hu
  rw [if_pos hdot]
  refine .expect rfl fun t ht => ?_
  rw [ht]
  refine .require htarget (.expect rfl fun _ _ => .expect hhow fun m hm => ?_)
  rw [hm, insertion?_word]
  refine .expect rfl fun _ _ => (hvalue _ _ rfl).bind fun value' hvalue' => ?_
  refine .expect rfl fun _ _ => .expect rfl fun _ _ => .spanFrom fun span => .pure ?_
  rw [Stmt.map, hvalue']
  rfl

theorem exprStmt_reads (he : r.ReadsExpr sc e) :
    Reads (exprStmt r start) ⟨e.words ++ .sign semicolon :: ws, sc⟩ ⟨ws, sc⟩
      fun t => t.map unplaced = .expr e := by
  refine (he _ ws rfl).bind fun e' he' => ?_
  have hdone : (Stmt.expr e').map unplaced = .expr e := by rw [Stmt.map, he']
  split
  · exact .expect rfl fun _ _ => .pure hdone
  · exact .reject (by simp [Word.kind]) (.expect rfl fun _ _ => .pure hdone)

theorem readsStmt_assign (htarget : r.ReadsExpr (scope :: sc) (.name () target))
    (hvalue : r.ReadsExpr (scope :: sc) value) :
    ReadsStmt r sc scope (.assign () target value) := by
  intro w ws _ _
  simp only [Stmt.words, List.cons_append, List.append_assoc, List.nil_append]
  refine .peek fun start hkind _ => ?_
  rw [hkind]
  refine .peekSecond fun u hu => ?_
  rw [hu, if_neg (by simp [Word.nextKind, Word.kind])]
  refine (htarget (.sign assign) _ rfl).bind fun e' he' => ?_
  have hname : e'.name? = some target := by
    cases e' with
    | name span id => simpa [Expr.map, Expr.name?] using he'
    | _ => simp [Expr.map] at he'
  rw [hname]
  refine .accept rfl fun _ _ => (hvalue _ _ rfl).bind fun value' hvalue' => ?_
  refine .expect rfl fun _ _ => .spanFrom fun span => .pure ?_
  rw [Stmt.map, hvalue']

theorem readsStmt_expr (he : r.ReadsExpr (scope :: sc) e) : ReadsStmt r sc scope (.expr e) := by
  intro w ws _ _
  have hread (start : Token) : Reads (exprStmt r start)
    ⟨e.words ++ .sign semicolon :: w :: ws, _⟩ ⟨w :: ws, _⟩ _ := exprStmt_reads he
  obtain ⟨v, vs, hwords, hv, hdot⟩ := e.exists_first
  rw [hwords] at hread
  rw [Stmt.words, List.append_assoc, List.singleton_append, hwords, List.cons_append]
  -- the first word decides, and after a name the second one
  refine .peek fun t hkind _ => ?_
  rw [hkind]
  unfold TokenKind.opensExpr at hv
  split at hv
  case h_1 hident =>
    rw [hident]
    refine .peekSecond fun u hu => ?_
    rw [hu, if_neg (hdot hident _)]
    exact hread t
  case h_13 => cases hv
  all_goals
    rw [‹v.kind = _›]
    exact hread t

/-- The level reads the statements back, one after the other. -/
def ReadsStmts (r : Level) (sc : List (List String)) : List String → List (Stmt Unit) → Prop
  | _, [] => True
  | scope, t :: ts => ReadsStmt r sc scope t ∧ ReadsStmts r sc (t.declares?.toList ++ scope) ts

theorem exists_word_statements (ts : List (Stmt Unit)) (ws : List Word) :
    ∃ w ws', Stmt.wordsAll ts ++ .sign rbrace :: ws = w :: ws' ∧ w.kind ≠ keyword elif ∧
      w.kind ≠ keyword else_ := by
  cases ts with
  | nil => exact ⟨_, _, rfl, by simp [Word.kind], by simp [Word.kind]⟩
  | cons t ts =>
    obtain ⟨w, vs, hwords, hw⟩ := t.exists_word
    rw [Stmt.wordsAll, hwords]
    exact ⟨w, _, rfl, ne_of_holds hw rfl, ne_of_holds hw rfl⟩

theorem statements_reads {ts : List (Stmt Unit)} (h : ReadsStmts r sc scope ts) {n : Nat}
    (hn : ts.length < n) (ws : List Word) :
    ∃ inner, Reads (untilKind (symbol rbrace) (stmt r) n)
      ⟨Stmt.wordsAll ts ++ .sign rbrace :: ws, scope :: sc⟩ ⟨.sign rbrace :: ws, inner :: sc⟩
      fun ts' => Stmt.mapAll unplaced ts' = ts := by
  induction ts generalizing scope n with
  | nil =>
    cases n with
    | zero => cases hn
    | succ n =>
      refine ⟨scope, .nextIs ?_⟩
      rw [if_pos (by simp [Word.kind])]
      exact .pure rfl
  | cons t ts ih =>
    cases n with
    | zero => cases hn
    | succ n =>
      obtain ⟨inner, htail⟩ := ih h.2 (Nat.lt_of_succ_lt_succ hn)
      refine ⟨inner, ?_⟩
      obtain ⟨v, vs, hafter, helif, helse⟩ := exists_word_statements ts ws
      have hhead := h.1 v vs helif helse
      rw [hafter] at htail
      rw [Stmt.wordsAll, List.append_assoc, hafter]
      obtain ⟨w, ws', hwords, hw⟩ := t.exists_word
      have hother : w.kind ≠ symbol rbrace := ne_of_holds hw rfl
      rw [hwords] at hhead ⊢
      refine .nextIs ?_
      rw [if_neg (by simpa using hother)]
      refine hhead.bind fun t' ht' => htail.bind fun ts' hts' => .pure ?_
      rw [Stmt.mapAll, ht', hts']

theorem length_le_wordsAll (ts : List (Stmt Unit)) : ts.length ≤ (Stmt.wordsAll ts).length := by
  induction ts with
  | nil => exact Nat.le_refl _
  | cons t ts ih =>
    obtain ⟨w, ws, hwords, -⟩ := t.exists_word
    simp only [Stmt.wordsAll, hwords, List.length_cons, List.length_append]
    omega

theorem blockOf_reads {ts : List (Stmt Unit)} (h : ReadsStmts r sc [] ts) (ws : List Word) :
    Reads (blockOf r) ⟨(Block.mk () ts).words ++ ws, sc⟩ ⟨ws, sc⟩
      fun b => b.map unplaced = .mk () ts := by
  have hcount : ts.length < (Stmt.wordsAll ts ++ .sign rbrace :: ws).length + 1 := by
    have := length_le_wordsAll ts
    simp only [List.length_append]
    omega
  obtain ⟨inner, hread⟩ := statements_reads h hcount ws
  simp only [Block.words, List.cons_append, List.append_assoc, List.nil_append]
  refine .expect rfl fun start _ => ?_
  refine .bind (P := fun ts' => Stmt.mapAll unplaced ts' = ts) (.inScope inner (.remaining hread))
    fun ts' hts' => .expect rfl fun _ _ => .spanFrom fun span => .pure ?_
  rw [Block.map, hts']

end Statements

end Parse

end RaisingEffects
