import RaisingEffects.Proofs.Parse.Productions

/-!
# Reading undoes writing

A program that is well formed and can be spelled is read back from its text, up to where its parts
stand, and nothing in the text is skipped: `Program.parse_text`.

By induction over the tree, a level of readers reads back every tree that has no more words than
the level is deep: each construct that contains another of its kind has a word more
(`Word.Fits`). The scopes that the reader keeps are those in which the tree is well formed.
-/

namespace RaisingEffects

variable {n : Nat} {name : String}

/-! ## Words that fit a level -/

/-- There are at most `n` words, and they can be spelled. -/
structure Word.Fits (n : Nat) (ws : List Word) : Prop where
  length : ws.length ≤ n
  spelled : ∀ w ∈ ws, w.isSpelled = true

namespace Word.Fits

variable {n : Nat} {w : Word} {ws vs : List Word} {items : List (List Word)}

theorem sublist (h : Fits n ws) (hvs : vs.Sublist ws) : Fits n vs :=
  ⟨hvs.length_le.trans h.length, fun w hw => h.spelled w (hvs.subset hw)⟩

theorem left (h : Fits n (ws ++ vs)) : Fits n ws := h.sublist (List.sublist_append_left ..)

theorem right (h : Fits n (ws ++ vs)) : Fits n vs := h.sublist (List.sublist_append_right ..)

/-- A word takes a level. -/
theorem pred (h : Fits (n + 1) (w :: ws)) : Fits n ws where
  length := Nat.le_of_succ_le_succ h.length
  spelled := fun v hv => h.spelled v (List.mem_cons_of_mem _ hv)

theorem tail (h : Fits n (w :: ws)) : Fits n ws := h.sublist (List.sublist_cons_self ..)

theorem exists_succ (h : Fits n (w :: ws)) : ∃ m, n = m + 1 :=
  ⟨n - 1, by have := h.length; simp only [List.length_cons] at this; omega⟩

/-- An item of a list. -/
theorem item (h : Fits n (commas items)) (hws : ws ∈ items) : Fits n ws := by
  cases items with
  | nil => cases hws
  | cons first rest =>
    rcases List.mem_cons.1 hws with rfl | hws
    · exact h.left
    · obtain ⟨before, after, hrest⟩ := List.append_of_mem hws
      rw [commas, hrest, List.flatMap_append, List.flatMap_cons] at h
      exact h.right.right.left.tail

theorem between {first last : Sign} (h : Fits n (between first last items)) (hws : ws ∈ items) :
    Fits n ws :=
  h.tail.left.item hws

end Word.Fits

open Word (Fits)

/-! ## Types -/

theorem TypeExpr.reads (t : TypeExpr Unit) (h : Fits n t.words) :
    (Level.ofDepth n).ReadsType t := by
  induction t using TypeExpr.induction generalizing n with
  | named _ name args ih =>
    cases args with
    | nil =>
      obtain ⟨n, rfl⟩ := h.exists_succ
      exact fun w ws sc hw => Parse.typeOf_reads_named (by simp) ws hw
    | cons arg args =>
      rw [TypeExpr.words_named] at h
      obtain ⟨n, rfl⟩ := h.exists_succ
      exact fun w ws sc hw => Parse.typeOf_reads_named
        (fun t ht => ih t ht (h.pred.between (List.mem_map_of_mem ht))) ws hw
  | fn _ params c result ihs ih =>
    rw [TypeExpr.words_fn] at h
    obtain ⟨n, rfl⟩ := h.exists_succ
    refine fun w ws sc hw => Parse.typeOf_reads_fn
      (fun t ht => ihs t ht (h.pred.left.between (List.mem_map_of_mem ht))) ?_ ws hw
    rintro t ⟨⟩
    exact ih t rfl h.pred.right.right.tail

theorem TypeExpr.reads_after {sign : Sign} {type : Option (TypeExpr Unit)}
    (h : Fits n (TypeExpr.wordsAfter sign type)) : ∀ t ∈ type, (Level.ofDepth n).ReadsType t := by
  rintro t ⟨⟩
  exact t.reads h.tail

theorem Param.reads_types {ps : List (Param Unit)} (h : ∀ p ∈ ps, Fits n p.words) :
    ∀ p ∈ ps, ∀ t ∈ p.type, (Level.ofDepth n).ReadsType t :=
  fun p hp => TypeExpr.reads_after (h p hp).tail

/-! ## Expressions and statements -/

/-- An expression in parentheses is an operand. -/
theorem Level.ReadsExpr.parens {r : Level} {sc : List (List String)} {e : Expr Unit}
    (he : r.ReadsExpr sc e) :
    Parse.ReadsUnary r sc e (.sign .lparen :: (e.words ++ [.sign .rparen])) :=
  Parse.readsUnary_parens fun more => he _ more rfl

/-- The bars of a closure take a level. -/
theorem Param.fits_closure {ps : List (Param Unit)} {ws : List Word}
    (h : Fits (n + 1) (Param.closureWords ps ++ ws)) : (∀ p ∈ ps, Fits n p.words) ∧ Fits n ws := by
  cases ps with
  | nil => exact ⟨by simp, h.pred⟩
  | cons p ps => exact ⟨fun q hq => h.pred.left.left.item (List.mem_map_of_mem hq), h.pred.right⟩

/-- The brackets of a collection take a level. -/
theorem CollectionKind.fits_items {kind : CollectionKind} {items : List (List Word)}
    (h : Fits (n + 1) (kind.words ++ Word.between .lbracket .rbracket items)) :
    ∀ ws ∈ items, Fits n ws := by
  cases kind with
  | list => exact fun ws hws => h.pred.left.item hws
  | set => exact fun ws hws => h.pred.between hws

/-- A scope of parameters in the order in which they are found. -/
theorem append_subset_reverse (names : List String) (sc : List (List String)) :
    names ++ sc.flatten ⊆ (names.reverse :: sc).flatten := by
  intro n hn
  simpa using hn

theorem Expr.exists_level (e : Expr Unit) (h : Fits n e.words) : ∃ m, n = m + 1 := by
  obtain ⟨w, ws, hwords, -⟩ := e.exists_word
  rw [hwords] at h
  exact h.exists_succ

/-- A level of depth `n` reads the part back where the scopes are `sc`. Statements may add names to
a scope of their own. -/
def Part.ReadsBack (n : Nat) (sc : List (List String)) : Part Unit → Prop
  | expr e => e.WellFormed sc.flatten → Fits n e.words → (Level.ofDepth n).ReadsExpr sc e
  | exprs es => Expr.WellFormedAll sc.flatten es → (∀ e ∈ es, Fits n e.words) →
      ∀ e ∈ es, (Level.ofDepth n).ReadsExpr sc e
  | body b => b.WellFormed sc.flatten → Fits n b.words → Parse.ReadsBody (Level.ofDepth n) sc b
  | block b => b.WellFormed sc.flatten → Fits n b.words → (Level.ofDepth n).ReadsBlock sc b
  | stmt t => ∀ {scope : List String}, t.WellFormed (scope :: sc).flatten →
      (∀ name ∈ t.declares?, name ∉ scope) → Fits n t.words →
        Parse.ReadsStmt (Level.ofDepth n) sc scope t
  | stmts ts => ∀ {scope : List String}, (ts.filterMap Stmt.declares?).Nodup →
      (∀ name ∈ ts.filterMap Stmt.declares?, name ∉ scope) →
        Stmt.WellFormedAll (scope :: sc).flatten ts → Fits n (Stmt.wordsAll ts) →
          Parse.ReadsStmts (Level.ofDepth n) sc scope ts
  | rest r => r.WellFormed sc.flatten → Fits n r.words → Parse.ReadsElse (Level.ofDepth n) sc r

theorem Part.readsBack (t : Part Unit) {sc : List (List String)} : t.ReadsBack n sc := by
  induction t using Part.induction generalizing n sc with
  | name =>
    intro he h
    obtain ⟨n, rfl⟩ := h.exists_succ
    exact (Parse.readsUnary_name he).readsExpr
  | literal =>
    intro he h
    obtain ⟨n, rfl⟩ := Expr.exists_level _ h
    exact (Parse.readsUnary_literal h.spelled).readsExpr
  | call _ _ _ ih =>
    intro he h
    rw [Expr.words, Expr.wordsAll_eq_map] at h
    obtain ⟨n, rfl⟩ := h.exists_succ
    have hargs := ih he.2 fun a ha => h.pred.between (List.mem_map_of_mem ha)
    have hread := Parse.readsUnary_call he.1 (Parse.exprList_reads .rparen rfl (by simp) rfl hargs)
    rw [← Expr.wordsAll_eq_map] at hread
    exact hread.readsExpr
  | closure _ params _ b ih =>
    intro he h
    obtain ⟨n, rfl⟩ := Expr.exists_level _ h
    obtain ⟨hnodup, hblock, hknown⟩ := he
    obtain ⟨hparams, hrest⟩ := Param.fits_closure h
    have hbody := ih (Part.WellFormed.mono
      (append_subset_reverse (params.map Param.name) sc) (.body b) hknown) hrest.right
    exact fun w ws hw => Parse.binaryOf_reads_closure hw 0
      (Parse.closure_reads (Param.reads_types hparams) hnodup hblock hbody hw)
  | collection _ kind _ ih =>
    intro he h
    obtain ⟨n, rfl⟩ := Expr.exists_level _ h
    rw [Expr.words, Expr.wordsAll_eq_map] at h
    have helements := ih he fun e he => CollectionKind.fits_items h _ (List.mem_map_of_mem he)
    have hread := Parse.readsUnary_collection kind
      (Parse.exprList_reads .rbracket rfl (by simp) rfl helements)
    rw [← Expr.wordsAll_eq_map] at hread
    exact hread.readsExpr
  | binary op _ _ ih ih' =>
    intro he h
    obtain ⟨n, rfl⟩ := h.exists_succ
    obtain ⟨m, rfl⟩ := h.pred.right.exists_succ
    have hleft := (ih he.1 h.pred.left).parens
    have hright := (ih' he.2 h.pred.right.pred.tail.tail.left).parens
    have hle : op.precedence ≤ 6 := by cases op <;> decide
    have hop : Parse.binaryOp? op.word.kind = some op := by cases op <;> rfl
    have hread := Parse.climbs_binary hop (hleft.climbs (hle.trans (by omega)))
      (hright.climbs (Nat.succ_le_succ hle))
    rw [List.cons_append, List.append_assoc] at hread
    exact hread.readsExpr
  | unary _ _ ih =>
    intro he h
    obtain ⟨n, rfl⟩ := h.exists_succ
    obtain ⟨m, rfl⟩ := h.pred.exists_succ
    exact (ih he h.pred.pred.left).parens.unary.readsExpr
  | exprsNil => exact fun _ _ => by simp
  | exprsCons _ _ ih ih' =>
    intro he h
    obtain ⟨hfit, hfits⟩ := List.forall_mem_cons.1 h
    exact List.forall_mem_cons.2 ⟨ih he.1 hfit, ih' he.2 hfits⟩
  | bodyBlock _ ih | bodyExpr _ ih => exact ih
  | block_ _ _ ih =>
    intro hb h
    obtain ⟨n, rfl⟩ := h.exists_succ
    exact Parse.blockOf_reads (ih hb.1 (by simp) hb.2 h.pred.left)
  | let_ _ name _ _ _ ih =>
    exact fun ht hname h => Parse.readsStmt_let (TypeExpr.reads_after h.tail.right.tail.left)
      (ih ht h.tail.right.tail.right.tail.left) (hname name rfl)
  | assign _ _ _ ih =>
    intro _ ht _ h
    have hvalue := ih ht.2 h.tail.tail.left
    obtain ⟨n, rfl⟩ := h.exists_succ
    exact Parse.readsStmt_assign (Parse.readsUnary_name ht.1).readsExpr hvalue
  | returnNone => exact fun _ _ _ => Parse.readsStmt_return_bare
  | returnSome _ _ ih => exact fun ht _ h => Parse.readsStmt_return (ih ht h.tail.left)
  | raise _ _ ih => exact fun ht _ h => Parse.readsStmt_raise (ih ht h.tail.left)
  | try_ _ _ _ _ ih ih' =>
    exact fun ht _ h => Parse.readsStmt_try (ih ht.1 h.tail.left)
      (ih' ht.2 h.tail.right.tail.right)
  | insert _ _ _ _ ih =>
    exact fun ht _ h => Parse.readsStmt_insert ht.1 (ih ht.2 h.tail.tail.tail.tail.left)
  | for_ _ _ _ ih ih' =>
    exact fun ht _ h => Parse.readsStmt_for (ih ht.1 h.tail.tail.tail.left)
      (ih' ht.2 h.tail.tail.tail.right)
  | while_ _ _ ih ih' =>
    exact fun ht _ h => Parse.readsStmt_while (ih ht.1 h.tail.left) (ih' ht.2 h.tail.right)
  | if_ _ _ _ ih ih' ih'' =>
    exact fun ht _ h => Parse.readsStmt_if (ih ht.1 h.tail.left) (ih' ht.2.1 h.tail.right.left)
      (ih'' ht.2.2 h.tail.right.right)
  | stmtExpr _ ih => exact fun ht _ h => Parse.readsStmt_expr (ih ht h.left)
  | stmtsNil => exact fun _ _ _ _ => trivial
  | stmtsCons t ts ih ih' =>
    intro scope hnodup hnew ht h
    have hnames : (t :: ts).filterMap Stmt.declares? =
        t.declares?.toList ++ ts.filterMap Stmt.declares? := by
      cases hd : t.declares? <;> simp [hd]
    rw [hnames] at hnodup hnew
    obtain ⟨-, hrest, hdisjoint⟩ := List.nodup_append.1 hnodup
    refine ⟨ih ht.1 (fun name hname => hnew name ?_) h.left,
      ih' hrest (fun name hname => ?_) ?_ h.right⟩
    · exact List.mem_append_left _ (Option.mem_toList.2 hname)
    · rw [List.mem_append, not_or]
      exact ⟨fun hmem => hdisjoint name hmem name hname rfl,
        hnew name (List.mem_append_right _ hname)⟩
    · simpa using ht.2
  | restNone => exact fun _ _ => Parse.elseTail_reads_none
  | restBlock _ ih => exact fun hb h => Parse.elseTail_reads_block (ih hb h.tail)
  | elif _ _ _ ih ih' ih'' =>
    exact fun ht h => Parse.elseTail_reads_elif (ih ht.1 h.tail.left)
      (ih' ht.2.1 h.tail.right.left) (ih'' ht.2.2 h.tail.right.right)

/-! ## Functions -/

theorem Member.exists_word (m : Member Unit) :
    ∃ w ws, m.words = w :: ws ∧ w.kind ≠ .symbol .rbrace := by
  obtain ⟨loc, name, words, ps, c, result⟩ := m
  cases words <;> exact ⟨_, _, rfl, by simp [Word.kind]⟩

theorem Member.words_ne_nil (m : Member Unit) : m.words ≠ [] := by
  obtain ⟨w, ws, hwords, -⟩ := m.exists_word
  simp [hwords]

namespace Parse

open TokenKind Sign Keyword

variable {n : Nat} {sc : List (List String)}

theorem forwards_reads {known names : List String} (hnames : ∀ n ∈ names, n ∈ known) {w : Word}
    (ws : List Word) (hw : w.kind ≠ ident) :
    Reads (forwards known) ⟨forwardsWords names ++ w :: ws, sc⟩ ⟨w :: ws, sc⟩ (· = names) := by
  cases names with
  | nil =>
    refine .peek fun t hkind _ => .peekSecondAny fun u => ?_
    rw [if_neg (by simp [hkind, hw])]
    exact .pure rfl
  | cons name names =>
    have hitems : ReadsItems (forwardName known) id id (fun n => [.name n]) rparen sc
        (name :: names) := by
      intro x hx v vs _
      refine .expect rfl fun t ht => ?_
      rw [ht, Word.value, if_pos (hnames x hx)]
      exact .pure rfl
    have hlist := commaList_reads rparen (by simp) hitems (w :: ws)
    rw [forwardsWords, Word.namesList, List.cons_append, Word.between_append]
    · refine .peek fun t hkind hvalue => .peekSecond fun u hu => ?_
      rw [hkind, hvalue, hu, if_pos (by simp [Word.kind, Word.value])]
      refine .skip (.expect rfl fun _ _ => hlist.bind fun names' hnames' => ?_)
      rw [List.map_id, List.map_id] at hnames'
      exact .expect rfl fun _ _ => .pure hnames'
    · simp

theorem checkTarget_reads {x : Place} {name : Token} {names : List String}
    {c : Option (Clause Span)} (h : names ≠ [] → ∀ clause ∈ c, clause.isTarget) :
    Reads (checkTarget name names c) x x fun _ => True := by
  unfold checkTarget
  split
  next first rest loc types =>
    have htarget := h (by simp) _ rfl
    rw [Clause.isTarget] at htarget
    dsimp only at htarget
    split
    next t =>
      rw [if_neg (by simpa using htarget)]
      exact .pure trivial
    next => simp at htarget
  next => exact .pure trivial

/-- What follows the parameters of a signature: its clause, or what follows the clause. -/
theorem exists_word_after_params (c : Option (Clause Unit)) {w : Word} (ws : List Word)
    (hw : w.kind ≠ ident) :
    ∃ v vs, Clause.optionWords c ++ w :: ws = v :: vs ∧ v.kind ≠ ident := by
  cases c with
  | none => exact ⟨w, ws, rfl, hw⟩
  | some c =>
    obtain ⟨loc, types⟩ := c
    cases types <;> exact ⟨_, _, rfl, by simp [Word.kind]⟩

theorem function_reads {g : FunDecl Unit} (hg : g.WellFormed sc.flatten) (h : Fits n g.words)
    (ws : List Word) :
    Reads (function (Level.ofDepth n)) ⟨g.words ++ ws, sc⟩ ⟨ws, sc⟩
      fun g' => g'.map unplaced = g := by
  obtain ⟨loc, name, ps, names, c, result, body⟩ := g
  have hparams : ∀ p ∈ ps, ∀ t ∈ p.type, (Level.ofDepth n).ReadsType t :=
    Param.reads_types fun p hp => h.tail.tail.left.between (List.mem_map_of_mem hp)
  have hresult := TypeExpr.reads_after h.tail.tail.right.right.right.left
  have hbody := (Part.block body).readsBack (Part.WellFormed.mono
    (append_subset_reverse (ps.map Param.name) sc) (.block body) hg.body)
    h.tail.tail.right.right.right.right ws
  simp only [FunDecl.words, List.cons_append, List.append_assoc]
  obtain ⟨vs, hblock⟩ := body.exists_word
  rw [hblock] at hbody ⊢
  have htype := typeAfter_reads arrow rfl sc hresult (vs ++ ws) (w := .sign lbrace) rfl
  obtain ⟨u, us, hafter, hraises, hopen⟩ :=
    exists_word_after_clause result (vs ++ ws) (w := .sign lbrace) rfl
  rw [List.cons_append] at hbody ⊢
  rw [hafter] at htype ⊢
  have hclause := clause_reads false c us sc hraises fun _ => hopen
  obtain ⟨t, ts, hnext, hident⟩ := exists_word_after_params c us hopen.2
  rw [hnext] at hclause ⊢
  refine .expect rfl fun start _ => .expect rfl fun nameToken hname => ?_
  refine (params_reads hparams _).bind fun ps' hps' => ?_
  rw [names_of_map_unplaced hps']
  refine (forwards_reads hg.forwards ts hident).bind fun names' hnames' => ?_
  refine hclause.bind fun c' hc' => ?_
  have htarget : names' ≠ [] → ∀ clause ∈ c', clause.isTarget := by
    intro hne clause hclause
    refine hg.target (hnames' ▸ hne) (clause.map unplaced) ?_
    rw [← hc']
    exact Option.mem_map_of_mem _ hclause
  refine (checkTarget_reads htarget).bind fun _ _ => htype.bind fun result' hresult' => ?_
  refine .spanFrom fun span => ?_
  refine (inScope_declareAll_reads hg.nodup hbody).bind fun body' hbody' => .pure ?_
  rw [FunDecl.map, hps', hc', hresult', hbody', hnames', hname]
  rfl

/-! ## Interfaces -/

theorem modifiers_reads {afterBare : Bool} {words : List String}
    (hwords : ∀ word ∈ words, word ∈ memberModifiers) {k : Nat} (hk : words.length < k)
    (found : List String) {w : Word} (ws : List Word) (hw : w.kind ≠ ident) :
    Reads (modifiers afterBare k found) ⟨words.map .name ++ w :: ws, sc⟩ ⟨w :: ws, sc⟩
      (· = found ++ words) := by
  induction words generalizing k found with
  | nil =>
    cases k with
    | zero => cases hk
    | succ k => exact .reject hw (.pure (List.append_nil found).symm)
  | cons word words ih =>
    cases k with
    | zero => cases hk
    | succ k =>
      obtain ⟨hword, hwords⟩ := List.forall_mem_cons.1 hwords
      refine .accept rfl fun t ht => ?_
      dsimp only
      rw [ht, Word.value, if_pos hword]
      refine (ih hwords (Nat.lt_of_succ_lt_succ hk) _).mono fun found' hfound' => ?_
      rw [hfound', List.append_assoc]
      rfl

theorem member_reads {afterBare : Bool} {m : Member Unit} (hm : m.WellFormed)
    (h : Fits n m.words) (ws : List Word) :
    Reads (member (Level.ofDepth n) afterBare) ⟨m.words ++ ws, sc⟩ ⟨ws, sc⟩
      fun m' => m'.map unplaced = m := by
  obtain ⟨loc, name, words, ps, c, result⟩ := m
  have hparams : ∀ p ∈ ps, ∀ t ∈ p.type, (Level.ofDepth n).ReadsType t :=
    Param.reads_types fun p hp => h.right.tail.tail.left.between (List.mem_map_of_mem hp)
  have hresult := TypeExpr.reads_after h.right.tail.tail.right.right.left
  simp only [Member.words, List.cons_append, List.append_assoc, List.nil_append]
  have htype := typeAfter_reads arrow rfl sc hresult ws (w := .sign semicolon) rfl
  obtain ⟨u, us, hafter, hraises, hopen⟩ :=
    exists_word_after_clause result ws (w := .sign semicolon) rfl
  rw [hafter] at htype ⊢
  have hclause := clause_reads true c us sc hraises fun _ => hopen
  refine .peekAny fun start => .remaining ?_
  refine (modifiers_reads hm ?_ [] _ (by simp [Word.kind])).bind fun words' hwords' => ?_
  · simp only [List.length_append, List.length_map]
    omega
  refine .expect rfl fun _ _ => .expect rfl fun nameToken hname => ?_
  refine (params_reads hparams _).bind fun ps' hps' => hclause.bind fun c' hc' => ?_
  refine htype.bind fun result' hresult' => .accept rfl fun _ _ => .spanFrom fun span => .pure ?_
  rw [Member.map, hwords', hps', hc', hresult', hname]
  rfl

theorem members_reads {ms : List (Member Unit)} (hms : ∀ m ∈ ms, m.WellFormed)
    (h : ∀ m ∈ ms, Fits n m.words) {k : Nat} (hk : ms.length < k) (afterBare : Bool)
    (ws : List Word) :
    Reads (members (Level.ofDepth n) k afterBare)
      ⟨ms.flatMap Member.words ++ .sign rbrace :: ws, sc⟩ ⟨.sign rbrace :: ws, sc⟩
      fun ms' => ms'.map (·.map unplaced) = ms := by
  induction ms generalizing k afterBare with
  | nil =>
    cases k with
    | zero => cases hk
    | succ k =>
      refine .nextIs ?_
      rw [if_pos (by simp [Word.kind])]
      exact .pure rfl
  | cons m ms ih =>
    cases k with
    | zero => cases hk
    | succ k =>
      obtain ⟨hm, hms⟩ := List.forall_mem_cons.1 hms
      obtain ⟨hfit, hfits⟩ := List.forall_mem_cons.1 h
      have hhead : Reads (member (Level.ofDepth n) afterBare)
          ⟨m.words ++ (ms.flatMap Member.words ++ .sign rbrace :: ws), sc⟩ _ _ :=
        member_reads hm hfit _
      obtain ⟨v, vs, hwords, hv⟩ := m.exists_word
      rw [List.flatMap_cons, List.append_assoc]
      rw [hwords, List.cons_append] at hhead ⊢
      refine .nextIs ?_
      rw [if_neg (by simpa using hv)]
      refine hhead.bind fun m' hm' => ?_
      refine (ih hms hfits (Nat.lt_of_succ_lt_succ hk) _).bind fun ms' hms' => .pure ?_
      rw [List.map_cons, hm', hms']

theorem interface_reads {i : Interface Unit} (hi : ∀ m ∈ i.members, m.WellFormed)
    (h : Fits n i.words) (ws : List Word) :
    Reads (interface (Level.ofDepth n)) ⟨i.words ++ ws, sc⟩ ⟨ws, sc⟩
      fun i' => i'.map unplaced = i := by
  obtain ⟨loc, name, ms⟩ := i
  have hfits : ∀ m ∈ ms, Fits n m.words := by
    intro m hm
    obtain ⟨before, after, rfl⟩ := List.append_of_mem hm
    have := h.tail.tail.tail.left
    rw [List.flatMap_append, List.flatMap_cons] at this
    exact this.right.left
  simp only [Interface.words, List.cons_append, List.append_assoc, List.nil_append]
  refine .expect rfl fun start _ => .expect rfl fun nameToken hname => .expect rfl fun _ _ => ?_
  refine .remaining ((members_reads hi hfits ?_ false ws).bind fun ms' hms' => ?_)
  · have := length_le_flatMap Member.words_ne_nil ms
    simp only [List.length_append]
    omega
  refine .expect rfl fun _ _ => .spanFrom fun span => .pure ?_
  rw [Interface.map, hms', hname]
  rfl

end Parse

/-! ## Programs -/

namespace Decl

variable {α : Type}

/-- The error that is declared. -/
@[simp]
def error? : Decl α → Option (NameDecl α)
  | error d => some d
  | _ => none

/-- The type that is declared. -/
@[simp]
def type? : Decl α → Option (NameDecl α)
  | type d => some d
  | _ => none

/-- The interface that is declared. -/
@[simp]
def interface? : Decl α → Option (Interface α)
  | interface i => some i
  | _ => none

/-- The function that is declared. -/
@[simp]
def function? : Decl α → Option (FunDecl α)
  | function g => some g
  | _ => none

/-- The declaration is well formed where the names `known` are known. -/
def WellFormed (known : List String) : Decl α → Prop
  | error _ | type _ => True
  | interface i => ∀ m ∈ i.members, m.WellFormed
  | function g => g.WellFormed known

theorem words_ne_nil (d : Decl α) : d.words ≠ [] := by
  cases d <;> exact List.cons_ne_nil _ _

end Decl

namespace Program

variable {α : Type}

/-- The program with declarations behind its own. -/
def extend (p : Program α) (ds : List (Decl α)) : Program α where
  functions := p.functions ++ ds.filterMap Decl.function?
  errors := p.errors ++ ds.filterMap Decl.error?
  types := p.types ++ ds.filterMap Decl.type?
  interfaces := p.interfaces ++ ds.filterMap Decl.interface?

theorem extend_nil (p : Program α) : p.extend [] = p := by
  simp [extend]

theorem extend_cons (p : Program α) (d : Decl α) (ds : List (Decl α)) :
    p.extend (d :: ds) = (p.extend [d]).extend ds := by
  rw [← List.singleton_append]
  simp only [extend, List.filterMap_append, List.append_assoc]

/-- A program is what its declarations make it. -/
theorem extend_decls (p : Program α) : extend {} p.decls = p := by
  simp [extend, decls, List.filterMap_map, Function.comp_def]

theorem decls_wellFormed {known : List String} {p : Program α} (hp : p.WellFormedIn known) :
    ∀ d ∈ p.decls, d.WellFormed known := by
  intro d hd
  simp only [decls, List.mem_append, List.mem_map] at hd
  obtain ⟨_, _, rfl⟩ | ⟨_, _, rfl⟩ | ⟨i, hi, rfl⟩ | ⟨g, hg, rfl⟩ := hd
  · trivial
  · trivial
  · exact hp.members i hi
  · exact hp.functions g hg

end Program

namespace Parse

variable {n : Nat} {sc : List (List String)}

theorem nameDecl_reads {start : Token} {d : NameDecl Unit} (ws : List Word) :
    Reads (nameDecl start) ⟨.name d.name :: .sign .semicolon :: ws, sc⟩ ⟨ws, sc⟩
      fun d' => d'.map unplaced = d := by
  refine .expect rfl fun t ht => .expect rfl fun _ _ => .spanFrom fun span => .pure ?_
  rw [NameDecl.map, ht]
  rfl

/-- **Declarations are read back one after the other.** -/
theorem declarations_reads {ds : List (Decl Unit)} (hds : ∀ d ∈ ds, d.WellFormed sc.flatten)
    (h : ∀ d ∈ ds, Fits n d.words) {k : Nat} (hk : ds.length < k) (p : Program Span)
    (hnodup : (((p.map unplaced).extend ds).functions.map FunDecl.name).Nodup) :
    Reads (declarations (Level.ofDepth n) k p) ⟨ds.flatMap Decl.words, sc⟩ ⟨[], sc⟩
      fun p' => p'.map unplaced = (p.map unplaced).extend ds := by
  induction ds generalizing k p with
  | nil =>
    cases k with
    | zero => cases hk
    | succ k =>
      refine .peekKind fun t hkind => ?_
      rw [hkind]
      exact .pure (Program.extend_nil _).symm
  | cons d ds ih =>
    cases k with
    | zero => cases hk
    | succ k =>
      obtain ⟨hd, hds⟩ := List.forall_mem_cons.1 hds
      obtain ⟨hfit, hfits⟩ := List.forall_mem_cons.1 h
      rw [Program.extend_cons] at hnodup ⊢
      -- once a declaration has been read, the rest is read behind it
      have hrest (p' : Program Span) (hp' : p'.map unplaced = (p.map unplaced).extend [d]) :
          Reads (declarations (Level.ofDepth n) k p') ⟨ds.flatMap Decl.words, sc⟩ ⟨[], sc⟩
            fun q => q.map unplaced = ((p.map unplaced).extend [d]).extend ds := by
        rw [← hp'] at hnodup ⊢
        exact ih hds hfits (Nat.lt_of_succ_lt_succ hk) p' hnodup
      rw [List.flatMap_cons]
      cases d with
      | error d | type d =>
        refine .peek fun t hkind _ => ?_
        rw [hkind]
        refine .skip ((nameDecl_reads _).bind fun d' hd' => hrest _ ?_)
        simp [Program.map, Program.extend, hd']
      | interface i =>
        refine .peek fun t hkind _ => ?_
        rw [hkind]
        refine (interface_reads hd hfit _).bind fun i' hi' => hrest _ ?_
        simp [Program.map, Program.extend, hi']
      | function g =>
        refine .peek fun t hkind _ => ?_
        rw [hkind]
        refine (function_reads hd hfit _).bind fun g' hg' => ?_
        have hnew : g'.name ∉ p.functions.map FunDecl.name := by
          intro hmem
          have hname : g'.name = g.name := by rw [← hg', FunDecl.map]
          have hold : (p.map unplaced).functions.map FunDecl.name =
              p.functions.map FunDecl.name := by
            simp [Program.map, Function.comp_def, FunDecl.map]
          simp only [Program.extend, List.map_append, hold] at hnodup
          rw [List.append_assoc] at hnodup
          refine (List.nodup_append.1 hnodup).2.2 g'.name hmem g.name ?_ hname
          exact List.mem_append_left _ (List.mem_singleton_self _)
        rw [if_neg hnew]
        refine hrest _ ?_
        simp [Program.map, Program.extend, hg']

end Parse

/-! ## The names in a text -/

/-- A word that declares the name stands in front of it somewhere. -/
def Word.Declares (ws : List Word) (name : String) : Prop :=
  ∃ k : Keyword, (TokenKind.keyword k).declares = true ∧ [.keyword k, .name name] <:+: ws

theorem Word.Declares.flatMap {β : Type} {f : β → List Word} {x : β} {xs : List β} (hx : x ∈ xs)
    (h : Declares (f x) name) : Declares (xs.flatMap f) name := by
  obtain ⟨k, hk, hin⟩ := h
  refine ⟨k, hk, hin.trans ?_⟩
  rw [List.flatMap_def]
  exact List.infix_of_mem_flatten (List.mem_map_of_mem hx)

theorem declaredNames_subset_cons (t : Token) (ts : List Token) :
    declaredNames ts ⊆ declaredNames (t :: ts) := by
  cases ts with
  | nil => simp [declaredNames]
  | cons u ts =>
    rw [declaredNames]
    split
    · exact List.subset_cons_self ..
    · exact List.Subset.refl _

theorem mem_declaredNames {ts : List Token} {ws : List Word} (h : Spells ts ws)
    (hname : Word.Declares ws name) : name ∈ declaredNames ts := by
  obtain ⟨k, hk, before, after, rfl⟩ := hname
  induction before generalizing ts with
  | nil =>
    obtain ⟨t, _, rfl, htk, -, u, us, rfl, huk, huv, -⟩ := h
    have hnames := Introduces.named (t := t) (htk ▸ hk) huk us
    rw [huv] at hnames
    simp only [List.cons_append, List.nil_append] at hnames
    rw [hnames]
    exact List.mem_cons_self ..
  | cons w before ih =>
    obtain ⟨t, rest, rfl, -, -, hrest⟩ := h
    exact declaredNames_subset_cons t rest (ih hrest)

theorem Program.declares_globals {p : Program Unit} (h : name ∈ p.globals) :
    Word.Declares p.words name := by
  have hdecl {d : Decl Unit} (hd : d ∈ p.decls) (hname : Word.Declares d.words name) :
      Word.Declares p.words name := .flatMap hd hname
  obtain hmem | hmem | hmem | ⟨i, hi, hmem⟩ := Program.mem_globals.1 h
  · obtain ⟨g, hg, rfl⟩ := List.mem_map.1 hmem
    exact hdecl (d := .function g) (by simp [decls, hg]) ⟨.fn, rfl, [], _, rfl⟩
  · obtain ⟨d, hd, rfl⟩ := List.mem_map.1 hmem
    exact hdecl (d := .error d) (by simp [decls, hd]) ⟨.error, rfl, [], _, rfl⟩
  · obtain ⟨d, hd, rfl⟩ := List.mem_map.1 hmem
    exact hdecl (d := .type d) (by simp [decls, hd]) ⟨.type, rfl, [], _, rfl⟩
  · obtain ⟨m, hm, rfl⟩ := List.mem_map.1 hmem
    have hmember : Word.Declares m.words m.name := ⟨.fn, rfl, _, _, List.append_assoc ..⟩
    obtain ⟨k, hk, hin⟩ := Word.Declares.flatMap hm hmember
    refine hdecl (d := .interface i) (by simp [decls, hi]) ⟨k, hk, hin.trans ?_⟩
    exact ⟨[.keyword .interface, .name i.name, .sign .lbrace], [.sign .rbrace], rfl⟩

/-! ## Texts -/

/-- **Reading undoes writing.** A program that is well formed and can be spelled is read back from
its text, up to where its parts stand, and no word of the text is skipped. -/
theorem Program.parse_text {p : Program Unit} (hp : p.WellFormed) (hs : p.Spellable) :
    ∃ r, Program.parse p.text = .ok r ∧ r.program.map unplaced = p ∧ r.skipped = [] := by
  obtain ⟨ts, hlex, hts⟩ := Token.readFrom_spell hs (Nat.le_refl _) .start
  have hcount : ts.length = p.words.length + 1 := hts.length_eq
  have hknown : p.globals ++ builtins ⊆ [declaredNames ts ++ builtins].flatten := by
    rw [List.flatten_singleton]
    refine List.append_subset.2 ⟨fun name hname => ?_, List.subset_append_right ..⟩
    exact List.mem_append_left _ (mem_declaredNames hts (declares_globals hname))
  have hfits : ∀ d ∈ p.decls, Fits ts.length d.words := by
    intro d hd
    have hin : d.words <:+: p.words := by
      rw [words, List.flatMap_def]
      exact List.infix_of_mem_flatten (List.mem_map_of_mem hd)
    exact ⟨by have := hin.length_le; omega, fun w hw => hs w (hin.subset hw)⟩
  have hlength : p.decls.length < ts.length := by
    have : p.decls.length ≤ p.words.length := Parse.length_le_flatMap Decl.words_ne_nil p.decls
    omega
  have hread := Parse.declarations_reads (decls_wellFormed (hp.mono hknown)) hfits hlength {}
    (by rw [show Program.map unplaced {} = {} from rfl, extend_decls]; exact hp.nodup)
  obtain ⟨q, s, hq, hend, htree⟩ := hread
    ⟨ts.headD (Token.eofAt .start), ts, [declaredNames ts ++ builtins], []⟩ ⟨hts, rfl, rfl⟩
  refine ⟨⟨q, s.skipped⟩, ?_, htree.trans (extend_decls p), hend.skipped⟩
  rw [text, parse_eq_ofChars _ rfl, ofChars, hlex]
  simp only [ofTokens, hq]
  rfl

/-- A program with every construct: names that are words elsewhere, a string that has to be escaped,
an operand that binds less tightly than its operator, a member with a bare clause before another. -/
def everyConstruct : Program Unit where
  errors := [⟨(), "E"⟩]
  types := [⟨(), "T"⟩]
  interfaces := [⟨(), "I", [
    ⟨(), "m", ["mut"], [⟨"x", some (.named () "list" [.named () "T" []])⟩], some ⟨(), []⟩, none⟩,
    ⟨(), "k", ["static", "override"], [], some ⟨(), ["E", "T"]⟩, some (.named () "T" [])⟩]⟩]
  functions := [
    { loc := (), name := "forwards", forwards := ["g"], clause := some ⟨(), ["E"]⟩, result := none
      params := [
        ⟨"g", some (.fn () [.named () "T" []] (some ⟨(), ["E"]⟩) (some (.named () "T" [])))⟩]
      body := .mk () [.expr (.call () "g" [.literal () (.string "\\ \"\n")])] },
    { loc := (), name := "main", forwards := [], clause := some ⟨(), []⟩
      params := [⟨"xs", none⟩, ⟨"mut", none⟩], result := some (.named () "T" [])
      body := .mk () [
        .let_ () "set" true (some (.named () "T" []))
          (.closure () [⟨"a", none⟩, ⟨"b", none⟩] (some ⟨(), ["E"]⟩)
            (.block (.mk () [.let_ () "a" false none (.name () "b"), .raise () (.name () "a")]))),
        .for_ "x" (.name () "xs") (.mk () [
          .let_ () "xs" false none (.collection () .list [.collection () .set [.name () "x"]]),
          .insert () "xs" .append (.call () "m" [.name () "x", .literal () (.int 40)])]),
        .while_ (.unary .not (.binary .mul (.binary .add (.name () "set") (.literal () (.int 1)))
            (.name () "mut")))
          (.mk () [.assign () "set" (.closure () [] none (.expr (.name () "E")))]),
        .try_ () (.mk () [.expr (.name () "len")]) (some "e") (.mk () [
          .if_ (.name () "e") (.mk () [.return_ () none])
            (.elif (.literal () (.bool true)) (.mk () [])
              (.block (.mk () [.raise () (.name () "e")])))]),
        .return_ () (some (.name () "set"))] }]

set_option maxRecDepth 8192 in
theorem Program.parse_text_everyConstruct :
    (everyConstruct.WellFormed ∧ everyConstruct.Spellable) ∧
      ∃ r, Program.parse everyConstruct.text = .ok r ∧
        r.program.map unplaced = everyConstruct ∧ r.skipped = [] := by
  have hp : everyConstruct.WellFormed := by decide
  have hs : everyConstruct.Spellable := by decide +kernel
  exact ⟨⟨hp, hs⟩, Program.parse_text hp hs⟩

end RaisingEffects
