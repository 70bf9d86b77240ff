import RaisingEffects.Proofs.Parse.Moved
import RaisingEffects.Proofs.Token.Places

/-!
# A word behind a bare clause

A word is put behind a bare `raises`, as if it were its type. What is read then is the same, and the
word is noted as skipped, wherever the clause stands; only behind the own clause of a member nothing
but `fn` may follow the word.

* `Parse.Inserted`: the tokens of one text are those of another with a word behind a `raises`.
* `Parse.Recovering`: how readers of the two texts stand to each other, in front of the word and
  behind it. `Parse.Recovering.tracking` lets them follow each other.
* `Parse.Awaiting`: behind the own clause of a member the word is still to come.
* `Program.parse_insertWord` is the result for texts.
-/

namespace RaisingEffects

namespace Parse

open TokenKind Sign Keyword

/-! ## Inserting a word -/

/-- The word `w` may be put between the bare clause at `t` and the token `u`. -/
structure Insertable (t u w : Token) : Prop where
  raises : t.kind = keyword Keyword.raises
  next_ne_name : u.kind ≠ ident
  next_ne_paren : u.kind ≠ symbol lparen
  word : w.kind = ident
  notModifier : w.value ∉ memberModifiers

/-- The second tokens are the first ones with the word `w` behind `t`. No other token stands where
`t` stands. -/
inductive Inserted (place : Pos → Pos) (t u w : Token) : List Token → List Token → Prop
  | here {t' u' : Token} {ts ts' : List Token} (ht : t.Recurs place t')
      (hrest : List.Forall₂ (Token.Recurs place) (u :: ts) (u' :: ts'))
      (hfresh : ∀ x ∈ u :: ts, x.pos ≠ t.pos) :
      Inserted place t u w (t :: u :: ts) (t' :: w :: u' :: ts')
  | there {x x' : Token} {ts ts' : List Token} (hx : x.Recurs place x') (hne : x.pos ≠ t.pos)
      (hkind : x.kind ≠ eof) (hrest : Inserted place t u w ts ts') :
      Inserted place t u w (x :: ts) (x' :: ts')

/-- The second list notes the word `w` besides the words of the first. -/
def Noted (place : Pos → Pos) (w : Token) (as bs : List Ambiguity) : Prop :=
  ∃ xs ys, as = xs ++ ys ∧
    bs = xs.map (Ambiguity.move place) ++ ⟨w.value, w.pos⟩ :: ys.map (Ambiguity.move place)

/-- The readers stand in front of the word, or both are past it and it was noted. -/
inductive Recovering (place : Pos → Pos) (t u w : Token) (s s' : ParseState) : Prop
  | before (hended : Ended s.rest) (hscopes : s'.scopes = s.scopes)
      (htokens : Inserted place t u w s.rest s'.rest)
      (hskipped : s'.skipped = s.skipped.map (Ambiguity.move place))
  | behind (hended : Ended s.rest) (hscopes : s'.scopes = s.scopes)
      (htokens : List.Forall₂ (Token.Recurs place) s.rest s'.rest)
      (hfresh : ∀ x ∈ s.rest, x.pos ≠ t.pos) (hskipped : Noted place w s.skipped s'.skipped)

/-- The word is next in the second text, and once it is skipped both readers are past it. -/
structure Awaiting (place : Pos → Pos) (t u w : Token) (s s' : ParseState) : Prop where
  rest : ∃ ts, s.rest = u :: ts
  rest' : ∃ u' ts', s'.rest = w :: u' :: ts' ∧ u.Recurs place u'
  skipped : ∀ ts', s'.rest = w :: ts' → Recovering place t u w s
    { s' with last := w, rest := ts', skipped := s'.skipped ++ [⟨w.value, w.pos⟩] }

variable {place : Pos → Pos} {t u w : Token} {s s' : ParseState}

/-! ## In front of the word and behind it -/

namespace Recovering

variable (hs : Recovering place t u w s s')

include hs

/-- The next tokens are the same. -/
theorem head : ∃ x xs x' xs', s.rest = x :: xs ∧ s'.rest = x' :: xs' ∧ x.Recurs place x' := by
  cases hs with
  | before _ _ htokens =>
    generalize s.rest = ts, s'.rest = ts' at htokens
    cases htokens with
    | here ht => exact ⟨_, _, _, _, rfl, rfl, ht⟩
    | there hx => exact ⟨_, _, _, _, rfl, rfl, hx⟩
  | behind hended _ htokens =>
    generalize s.rest = ts, s'.rest = ts' at hended htokens
    cases htokens with
    | nil => exact absurd rfl hended.ne_nil
    | cons hx => exact ⟨_, _, _, _, rfl, rfl, hx⟩

variable {x : Token} {xs : List Token} (hrest : s.rest = x :: xs)

include hrest

/-- Any token but the `raises` in front of the word can be taken from both texts. -/
theorem take (hne : x ≠ t) (hkind : x.kind ≠ eof) {x' : Token} {xs' : List Token}
    (hrest' : s'.rest = x' :: xs') :
    Recovering place t u w { s with last := x, rest := xs }
      { s' with last := x', rest := xs' } := by
  cases hs with
  | before hended hscopes htokens hskipped =>
    rw [hrest] at hended
    rw [hrest, hrest'] at htokens
    cases htokens with
    | here => exact absurd rfl hne
    | there _ _ _ htokens => exact .before (hended.tail hkind) hscopes htokens hskipped
  | behind hended hscopes htokens hfresh hskipped =>
    rw [hrest] at hended hfresh
    rw [hrest, hrest', List.forall₂_cons] at htokens
    exact .behind (hended.tail hkind) hscopes htokens.2
      (fun y hy => hfresh y (List.mem_cons_of_mem x hy)) hskipped

/-- Another token stands elsewhere. -/
theorem pos_ne (hne : x ≠ t) : x.pos ≠ t.pos := by
  cases hs with
  | before _ _ htokens =>
    rw [hrest] at htokens
    generalize s'.rest = xs' at htokens
    cases htokens with
    | here => exact absurd rfl hne
    | there _ hpos => exact hpos
  | behind _ _ _ hfresh => exact hfresh x (by rw [hrest]; exact List.mem_cons_self)

end Recovering

/-- Behind the `raises` in front of the word, the word is next. -/
theorem Recovering.await (hi : Insertable t u w) (hs : Recovering place t u w s s')
    {ts : List Token} (hrest : s.rest = t :: ts) :
    ∃ t' ts', s'.rest = t' :: ts' ∧ t'.kind = keyword Keyword.raises ∧
      Awaiting place t u w { s with last := t, rest := ts }
        { s' with last := t', rest := ts' } := by
  cases hs with
  | before hended hscopes htokens hskipped =>
    rw [hrest] at hended htokens
    generalize s'.rest = rest' at htokens
    cases htokens with
    | @here t' u' us us' ht htokens hfresh =>
      refine ⟨t', _, rfl, ht.kind.trans hi.raises, ⟨us, rfl⟩, ⟨u', us', rfl, ?_⟩, ?_⟩
      · exact (List.forall₂_cons.1 htokens).1
      · rintro ts' ⟨⟩
        have hkind : t.kind ≠ eof := by rw [hi.raises]; decide
        refine .behind (hended.tail hkind) hscopes htokens hfresh ⟨s.skipped, [], ?_, ?_⟩
        · exact (List.append_nil _).symm
        · exact congrArg (· ++ _) hskipped
    | there _ hne => exact absurd rfl hne
  | behind _ _ _ hfresh =>
    exact absurd rfl (hfresh t (by rw [hrest]; exact List.mem_cons_self))

theorem Noted.append {as bs : List Ambiguity} (h : Noted place w as bs) (a : Ambiguity) :
    Noted place w (as ++ [a]) (bs ++ [a.move place]) := by
  obtain ⟨xs, ys, rfl, rfl⟩ := h
  exact ⟨xs, ys ++ [a], by simp, by simp⟩

theorem Recovering.stepping (hi : Insertable t u w) :
    Stepping place TokenKind.plain (.loose (Recovering place t u w)) where
  semicolons _ := rfl
  types _ := TokenKind.plain_of_ofType
  scopes hs := by cases hs <;> assumption
  rescope hs scopes := by
    cases hs with
    | before hended _ htokens hskipped => exact .before hended rfl htokens hskipped
    | behind hended _ htokens hfresh hskipped => exact .behind hended rfl htokens hfresh hskipped
  head hs := by
    obtain ⟨x, xs, x', xs', hrest, hrest', hx⟩ := hs.head
    exact ⟨x, xs, x', xs', hrest, hrest', .inl hx⟩
  take hs hrest hrest' _ hkind := by
    refine hs.take hrest ?_ ?_ hrest'
    · rintro rfl
      rw [hi.raises] at hkind
      cases hkind
    · intro heof
      rw [heof] at hkind
      cases hkind
  note hs word pos := by
    cases hs with
    | before hended hscopes htokens hskipped =>
      refine .before hended hscopes htokens ?_
      simp only [hskipped, List.map_append, List.map_singleton]
      rfl
    | behind hended hscopes htokens hfresh hskipped =>
      exact .behind hended hscopes htokens hfresh (hskipped.append ⟨word, pos⟩)

/-! ## Clauses -/

/-- A clause starts where its first token stands. -/
theorem ClauseRun.start {mayDeclare : Bool} {c : Clause Span} {s₁ : ParseState}
    (h : ClauseRun mayDeclare s (some c) s₁) {x : Token} {xs : List Token}
    (hrest : s.rest = x :: xs) : c.loc.start = x.pos := by
  cases h with
  | bare hrest₁ | word hrest₁ | typed hrest₁ =>
    rw [hrest, List.cons.injEq] at hrest₁
    exact congrArg Token.pos hrest₁.1.symm

section Clauses

variable (hi : Insertable t u w)

include hi

/-- The clause in front of the word, in the text without the word. -/
theorem Insertable.clause_eq {ts : List Token} (hrest : s.rest = t :: u :: ts) (mayDeclare : Bool) :
    clause mayDeclare s = .ok (some ⟨t.span, []⟩, { s with last := t, rest := u :: ts }) :=
  ClauseRun.eq_ok (.bare hrest hi.raises hi.next_ne_paren fun h => absurd h hi.next_ne_name)

/-- Any other clause. -/
theorem Recovering.clauseOther (hs : Recovering place t u w s s') (mayDeclare : Bool) {x : Token}
    {xs : List Token} (hrest : s.rest = x :: xs) (hne : x ≠ t) :
    FollowsAt (.loose (Recovering place t u w)) s s' (clause mayDeclare) (clause mayDeclare)
      (SameBy (Option.map (Clause.map unplaced))) := by
  by_cases hkind : x.kind = keyword Keyword.raises
  · obtain ⟨y, ys, x', xs', hy, hrest', hx⟩ := hs.head
    obtain ⟨rfl, rfl⟩ : x = y ∧ xs = ys := by simpa [hrest] using hy
    have htake := hs.take hrest hne (by rw [hkind]; decide) hrest'
    refine (stepping hi).clauseAhead id hrest hrest' hkind (hx.kind.trans hkind) htake ?_
    exact fun _ _ _ hskew => by cases hskew.kinds
  · refine (stepping hi).clauseNone hs mayDeclare fun y ys hy => ?_
    obtain ⟨rfl, rfl⟩ : x = y ∧ xs = ys := by simpa [hrest] using hy
    exact hkind

/-- Readers follow each other past the word. -/
theorem Recovering.tracking :
    Tracking place TokenKind.plain (.loose (Recovering place t u w)) where
  toStepping := stepping hi
  clause := by
    intro s s' hs
    obtain ⟨x, xs, -, -, hrest, -⟩ := hs.head
    by_cases hx : x = t
    · subst hx
      obtain ⟨t', ts', hrest', ht', hawait⟩ := hs.await hi hrest
      obtain ⟨us, rfl⟩ := hawait.rest
      obtain ⟨u', us', rfl, -⟩ := hawait.rest'
      exact .run (hi.clause_eq hrest false) (ClauseRun.eq_ok (.word hrest' ht' hi.word rfl)) id rfl
        (hawait.skipped _ rfl)
    · exact hs.clauseOther hi false hrest hx

/-- The own clause of a member: the word is not skipped at once. -/
theorem ownClause_recovers (hs : Recovering place t u w s s') {c : Option (Clause Span)}
    {s₁ : ParseState} (hc : clause true s = .ok (c, s₁)) :
    clause true s' = .error .outOfTokens ∨
    ∃ c' s₁', clause true s' = .ok (c', s₁') ∧
      c'.map (Clause.map unplaced) = c.map (Clause.map unplaced) ∧
      (c ≠ some ⟨t.span, []⟩ ∧ Recovering place t u w s₁ s₁' ∨
        c = some ⟨t.span, []⟩ ∧ Awaiting place t u w s₁ s₁') := by
  obtain ⟨x, xs, -, -, hrest, -⟩ := hs.head
  by_cases hx : x = t
  · subst hx
    obtain ⟨t', ts', hrest', ht', hawait⟩ := hs.await hi hrest
    obtain ⟨us, rfl⟩ := hawait.rest
    obtain ⟨u', us', rfl, -⟩ := hawait.rest'
    rw [hi.clause_eq hrest] at hc
    cases hc
    have hparen : w.kind ≠ symbol lparen := by rw [hi.word]; decide
    exact .inr ⟨_, _, ClauseRun.eq_ok (.bare hrest' ht' hparen fun _ => rfl), rfl,
      .inr ⟨rfl, hawait⟩⟩
  · rcases (hs.clauseOther hi true hrest hx).returns hc with hout | ⟨c', s₁', hc', hsame, hs₁⟩
    · exact .inl hout
    · refine .inr ⟨c', s₁', hc', hsame, .inl ⟨fun hown => hs.pos_ne hrest hx ?_, hs₁⟩⟩
      subst hown
      exact ((clause_eq_ok hc).start hrest).symm

end Clauses

/-! ## Members -/

theorem memberEnd_clause (r : Level) (start : Token)
    (head : List String × Token × List (Param Span)) (c : Option (Clause Span)) :
    Returns (memberEnd r start head c) fun m => m.clause = c :=
  .andThen fun _ => .andThen fun _ => .andThen fun _ => .pure rfl

/-- A member ends with its clause if neither a result nor a semicolon follows. -/
theorem memberEnd_of_ne (r : Level) (start : Token) (head : List String × Token × List (Param Span))
    (c : Option (Clause Span)) {x : Token} {xs : List Token} (hrest : s.rest = x :: xs)
    (harrow : x.kind ≠ symbol arrow) (hsemicolon : x.kind ≠ symbol semicolon) :
    memberEnd r start head c s =
      .ok (⟨⟨start.pos, s.last.span.stop⟩, head.2.1.value, head.1, head.2.2, c, none⟩, s) := by
  have hresult : typeAfter arrow r s = .ok (none, s) := by
    rw [typeAfter, bind_of_eq_ok (accept_of_ne hrest harrow)]
    rfl
  rw [memberEnd, bind_of_eq_ok hresult, bind_of_eq_ok (accept_of_ne hrest hsemicolon)]
  rfl

section Members

variable {r r' : Level} {afterBare : Bool}

/-- How the readers stand to each other behind a member. If the word stands behind its own clause,
the member ended there in the second text; in the first one it did so too if `fn` follows. -/
def PastMember (place : Pos → Pos) (t u w : Token) (m m' : Member Span) (s s' : ParseState) :
    Prop :=
  m.clause ≠ some ⟨t.span, []⟩ ∧ SameBy (Member.map unplaced) m m' ∧ Recovering place t u w s s' ∨
  m.clause = some ⟨t.span, []⟩ ∧ endsBare m' = true ∧
    (∃ u' ts', s'.rest = w :: u' :: ts' ∧ u.Recurs place u') ∧
    (u.kind = keyword Keyword.fn →
      SameBy (Member.map unplaced) m m' ∧ Awaiting place t u w s s')

variable (hi : Insertable t u w)
  (htype : Follows (.loose (Recovering place t u w)) r.type r'.type
    (SameBy (TypeExpr.map unplaced)))

include hi htype

/-- A member is read from both texts. -/
theorem memberFrom_recovers (hs : Recovering place t u w s s') (afterBare : Bool)
    (start start' : Token) (n n' : Nat) {m : Member Span} {s₁ : ParseState}
    (hm : memberFrom r afterBare start n s = .ok (m, s₁)) :
    memberFrom r' afterBare start' n' s' = .error .outOfTokens ∨
    ∃ m' s₁', memberFrom r' afterBare start' n' s' = .ok (m', s₁') ∧
      PastMember place t u w m m' s₁ s₁' := by
  have h : Tracking place TokenKind.plain (.loose (Recovering place t u w)) :=
    Recovering.tracking hi
  obtain ⟨head, s₂, hhead, hm⟩ := bind_eq_ok hm
  obtain ⟨c, s₃, hc, hm⟩ := bind_eq_ok hm
  have hclause : m.clause = c := memberEnd_clause r start head c s₃ m s₁ hm
  rcases (memberHead_follows h htype afterBare n n' s s' hs).returns hhead with
    hout | ⟨head', s₂', hhead', hsame, hs₂⟩
  · exact .inl (bind_of_eq_error hout)
  rcases ownClause_recovers hi hs₂ hc with hout | ⟨c', s₃', hc', hcc, hrest⟩
  · refine .inl ?_
    rw [memberFrom, bind_of_eq_ok hhead', bind_of_eq_error hout]
  rw [memberFrom, bind_of_eq_ok hhead', bind_of_eq_ok hc']
  rw [← hclause] at hrest
  rcases hrest with ⟨hother, hs₃⟩ | ⟨hown, hawait⟩
  · rcases (memberEnd_follows h htype hsame hcc start start' s₃ s₃' hs₃).returns hm with
      hout | ⟨m', s₁', hm', hmm, hs₁⟩
    · exact .inl hout
    · exact .inr ⟨m', s₁', hm', .inl ⟨hother, hmm, hs₁⟩⟩
  · obtain ⟨us, hus⟩ := hawait.rest
    obtain ⟨u', us', hus', hu'⟩ := hawait.rest'
    have harrow : w.kind ≠ symbol arrow := by rw [hi.word]; decide
    have hsemicolon : w.kind ≠ symbol semicolon := by rw [hi.word]; decide
    refine .inr ⟨_, s₃', memberEnd_of_ne r' start' head' c' hus' harrow hsemicolon,
      .inr ⟨hown, ?_, ⟨u', us', hus', hu'⟩, fun hfn => ?_⟩⟩
    · rw [← hclause, hown] at hcc
      obtain ⟨⟨loc, types⟩, rfl, htypes⟩ := Option.map_eq_some_iff.1 hcc
      rw [show types = [] from congrArg Clause.types htypes]
      rfl
    · rw [memberEnd_of_ne r start head c hus (by rw [hfn]; decide) (by rw [hfn]; decide)] at hm
      cases hm
      exact ⟨member_same hsame hcc rfl _ _, hawait⟩

/-- What is refused behind an own clause with the word: anything but `fn`. -/
def refused (place : Pos → Pos) (u : Token) : ParseFailure :=
  .fault (.expected (keyword Keyword.fn) u.kind) (place u.pos)

omit htype in
/-- The word behind a member is skipped. -/
theorem memberFrom_word {ts : List Token} (hrest : s.rest = w :: ts) (start : Token) (n : Nat) :
    memberFrom r true start (n + 1) s = memberFrom r true start n
      { s with last := w, rest := ts, skipped := s.skipped ++ [⟨w.value, w.pos⟩] } :=
  bind_congr_run (bind_congr_run (modifiers_of_not_mem hrest hi.word hi.notModifier))

omit htype in
/-- Behind the word nothing but `fn` starts a member. -/
theorem members_refused (hu : u.kind ≠ keyword Keyword.fn) {u' : Token} {ts' : List Token}
    (hrest : s.rest = w :: u' :: ts') (hu' : u.Recurs place u') (n : Nat) :
    members r n true s = .error .outOfTokens ∨ members r n true s = .error (refused place u) := by
  cases n with
  | zero => exact .inl rfl
  | succ n =>
    have hnext : nextIs (symbol rbrace) s = .ok (false, s) := by
      rw [nextIs_of_ne hrest]
      rw [hi.word]
      decide
    have hmember : member r true s = .error (refused place u) := by
      rw [member_eq, hrest, List.length_cons, memberFrom_word hi hrest, List.length_cons]
      refine bind_of_eq_error ?_
      rw [memberHead, bind_of_eq_ok (modifiers_of_ne rfl (hu'.kind ▸ hi.next_ne_name))]
      refine bind_of_eq_error ?_
      rw [expect_of_ne rfl (hu'.kind ▸ hu), hu'.kind, hu'.pos]
      rfl
    rw [members, bind_of_eq_ok hnext]
    exact .inr (bind_of_eq_error hmember)

/-- The readers of members go on: they follow each other, or the word stands in front of the next
`fn` in the second text. -/
def Resuming (place : Pos → Pos) (t u w : Token) (afterBare : Bool) (s s' : ParseState) : Prop :=
  Recovering place t u w s s' ∨
    afterBare = true ∧ u.kind = keyword Keyword.fn ∧ Awaiting place t u w s s'

omit htype in
theorem Resuming.nextIs (hs : Resuming place t u w afterBare s s') :
    nextIs (symbol rbrace) s = .ok (true, s) ∧ nextIs (symbol rbrace) s' = .ok (true, s') ∧
      Recovering place t u w s s' ∨
    nextIs (symbol rbrace) s = .ok (false, s) ∧ nextIs (symbol rbrace) s' = .ok (false, s') := by
  rcases hs with hs | ⟨-, hfn, hawait⟩
  · obtain ⟨x, xs, x', xs', hrest, hrest', hx⟩ := hs.head
    by_cases hkind : x.kind = symbol rbrace
    · exact .inl ⟨nextIs_of_kind hrest hkind, nextIs_of_kind hrest' (hx.kind.trans hkind), hs⟩
    · exact .inr ⟨nextIs_of_ne hrest hkind, nextIs_of_ne hrest' (hx.kind ▸ hkind)⟩
  · obtain ⟨us, hus⟩ := hawait.rest
    obtain ⟨u', us', hus', -⟩ := hawait.rest'
    refine .inr ⟨nextIs_of_ne hus ?_, nextIs_of_ne hus' ?_⟩
    · rw [hfn]
      decide
    · rw [hi.word]
      decide

theorem member_recovers (hs : Resuming place t u w afterBare s s') {m : Member Span}
    {s₁ : ParseState} (hm : member r afterBare s = .ok (m, s₁)) :
    member r' afterBare s' = .error .outOfTokens ∨
    ∃ m' s₁', member r' afterBare s' = .ok (m', s₁') ∧ PastMember place t u w m m' s₁ s₁' := by
  rw [member_eq] at hm ⊢
  rcases hs with hs | ⟨rfl, hfn, hawait⟩
  · exact memberFrom_recovers hi htype hs afterBare _ _ _ _ hm
  · obtain ⟨u', us', hus', -⟩ := hawait.rest'
    rw [hus', List.length_cons, memberFrom_word hi hus']
    exact memberFrom_recovers hi htype (hawait.skipped _ hus') true _ _ _ _ hm

/-- Whether the word stands behind the own clause of one of the members, with anything but `fn`
behind it. -/
def Refuses (t u : Token) (ms : List (Member Span)) : Prop :=
  u.kind ≠ keyword Keyword.fn ∧ ∃ m ∈ ms, m.clause = some ⟨t.span, []⟩

theorem members_recovers (n n' : Nat) (hs : Resuming place t u w afterBare s s') :
    FollowsUnless (.loose (Recovering place t u w)) (some (refused place u)) (Refuses t u) s s'
      (members r n afterBare) (members r' n' afterBare)
      (SameBy (List.map (Member.map unplaced))) := by
  induction n generalizing n' afterBare s s' with
  | zero => exact .spent rfl
  | succ n ih =>
    cases n' with
    | zero => exact .outOfTokens rfl
    | succ n' =>
      refine ⟨fun ms s₁ hms => ?_, fun h => h.elim⟩
      rcases hs.nextIs hi with ⟨hnext, hnext', hs⟩ | ⟨hnext, hnext'⟩
      · rw [members, bind_of_eq_ok hnext] at hms
        cases hms
        refine .inr (.inl ⟨fun h => ?_, [], s', ?_, rfl, hs⟩)
        · simpa using h.2
        · rw [members, bind_of_eq_ok hnext']
          rfl
      · rw [members, bind_of_eq_ok hnext] at hms
        rw [members, bind_of_eq_ok hnext']
        obtain ⟨m, s₂, hm, hms⟩ := bind_eq_ok hms
        rcases member_recovers hi htype hs hm with hout | ⟨m', s₂', hm', hpast⟩
        · exact .inl (bind_of_eq_error hout)
        rw [if_neg Bool.false_ne_true, bind_of_eq_ok hm']
        have hcons (hgood : ¬ Refuses t u [m]) (hmm : SameBy (Member.map unplaced) m m')
            (hs₂ : Resuming place t u w (endsBare m) s₂ s₂') :
            FollowsUnless (.loose (Recovering place t u w)) (some (refused place u)) (Refuses t u)
              s₂ s₂'
              (members r n (endsBare m) >>= fun ms => pure (m :: ms))
              (members r' n' (endsBare m') >>= fun ms => pure (m' :: ms))
              (SameBy (List.map (Member.map unplaced))) := by
          rw [endsBare_congr hmm]
          exact (ih n' hs₂).cons (by simp [Refuses, and_or_left]) hmm hgood
        rcases hpast with ⟨hother, hmm, hs₂⟩ | ⟨hown, hbare, ⟨u', ts', hrest', hu'⟩, hresume⟩
        · exact (hcons (by simpa [Refuses] using fun _ => hother) hmm (.inl hs₂)).ok ms s₁ hms
        · by_cases hfn : u.kind = keyword Keyword.fn
          · obtain ⟨hmm, hawait⟩ := hresume hfn
            have hbare' : endsBare m = true := endsBare_congr hmm ▸ hbare
            exact (hcons (fun h => h.1 hfn) hmm (.inr ⟨hbare', hfn, hawait⟩)).ok ms s₁ hms
          · rw [hbare]
            rcases members_refused hi hfn hrest' hu' n' with hout | hfail
            · exact .inl (bind_of_eq_error hout)
            · refine .inr (.inr ⟨id, ⟨hfn, m, ?_, hown⟩, ?_⟩)
              · obtain ⟨others, s₃, -, hms⟩ := bind_eq_ok hms
                cases hms
                exact List.mem_cons_self
              · rintro e ⟨⟩
                exact bind_of_eq_error hfail

end Members

/-- Readers of interfaces follow each other, unless the word is refused. -/
theorem interface_recovers (hi : Insertable t u w) (n n' : Nat)
    (hs : Recovering place t u w s s') :
    FollowsUnless (.loose (Recovering place t u w)) (some (refused place u))
      (fun i => Refuses t u i.members) s s' (interface (.ofDepth n)) (interface (.ofDepth n'))
      (SameBy (Interface.map unplaced)) := by
  have h : Tracking place TokenKind.plain (.loose (Recovering place t u w)) :=
    Recovering.tracking hi
  refine interface_unless (Refuses t u) h.toStepping rfl Iff.rfl ?_ ?_
    (expectSign_follows h rbrace) hs
  · intro s s' hs
    obtain ⟨x, x', hahead⟩ := h.ahead rfl hs
    refine hahead.expect fun hkind xs xs' hrest hrest' => hs.take hrest ?_ ?_ hrest'
    · rintro rfl
      rw [hi.raises] at hkind
      cases hkind
    · rw [hkind]
      decide
  · exact fun m m' s s' hs => members_recovers hi (Level.type_follows h n n') m m' (.inl hs)

/-! ## The first look at the tokens -/

/-- The word is not declared, and neither is what follows it. -/
theorem Inserted.declaredNames_eq (hi : Insertable t u w) {ts ts' : List Token}
    (h : Inserted place t u w ts ts') : declaredNames ts' = declaredNames ts := by
  induction h with
  | here ht hrest =>
    have hraises : t.kind.declares = false := by rw [hi.raises]; rfl
    have hword : w.kind.declares = false := by rw [hi.word]; rfl
    have hsource := Introduces.single hraises
    have hother := Introduces.cons (ht.kind.symm ▸ hraises) (.single hword)
    exact (hother _).trans ((declaredNames_of_recurs hrest).trans (hsource _).symm)
  | there hx _ _ hrest ih =>
    cases hrest with
    | here ht => exact declaredNames_cons_congr hx ht ih
    | there hy => exact declaredNames_cons_congr hx hy ih

theorem Inserted.prepend {before before' ts ts' : List Token}
    (hbefore : List.Forall₂ (Token.Recurs place) before before')
    (hfresh : ∀ x ∈ before, x.pos ≠ t.pos ∧ x.kind ≠ eof) (h : Inserted place t u w ts ts') :
    Inserted place t u w (before ++ ts) (before' ++ ts') := by
  induction hbefore with
  | nil => exact h
  | @cons x x' _ _ hx _ ih =>
    obtain ⟨hpos, hkind⟩ := hfresh x List.mem_cons_self
    exact .there hx hpos hkind (ih fun y hy => hfresh y (List.mem_cons_of_mem x hy))

/-! ## Texts -/

/-- In the tokens of a text, only `t` stands where it stands, and no end mark is in front of it. -/
theorem Inserted.ofTexts {source : String} {before before' after after' : List Token}
    {t' u' : Token} (hsource : Token.readAll source = .ok (before ++ t :: u :: after))
    (hbefore : List.Forall₂ (Token.Recurs place) before before') (ht' : t.Recurs place t')
    (hafter : List.Forall₂ (Token.Recurs place) (u :: after) (u' :: after')) :
    Inserted place t u w (before ++ t :: u :: after) (before' ++ t' :: w :: u' :: after') := by
  obtain ⟨-, hordered, hcross⟩ :=
    List.pairwise_append.1 (Token.readAll_ordered hsource).start_lt_start
  refine .prepend hbefore (fun x hx => ⟨?_, fun heof => ?_⟩) (.here ht' hafter fun x hx => ?_)
  · exact (hcross x hx t List.mem_cons_self).ne
  · obtain ⟨xs, ys, rfl⟩ := List.append_of_mem hx
    rw [List.append_assoc, List.cons_append] at hsource
    simpa using Token.readAll_end hsource heof
  · exact ((List.pairwise_cons.1 hordered).1 x hx).ne'

/-- At the end of the first text the word was noted. -/
theorem Recovering.noted (hi : Insertable t u w) (hs : Recovering place t u w s s')
    (hend : (s.rest.headD s.last).kind = eof) : Noted place w s.skipped s'.skipped := by
  cases hs with
  | before _ _ htokens =>
    generalize s.rest = ts, s'.rest = ts' at htokens hend
    cases htokens with
    | here => simp [hi.raises] at hend
    | there _ _ hkind => exact absurd hend hkind
  | behind _ _ _ _ hnoted => exact hnoted

end Parse

/-- **A word behind a bare clause is recovered from.** Put a word that is no modifier behind a
`raises` of a text that is read, where neither a name nor a parenthesis follows. Then the new text
is read as the same program, and besides the words that were skipped before, the new word is noted
at its place. The one exception is the own clause of an interface member with anything but `fn`
behind it, be it a result type, a semicolon or the closing brace: there the new text is refused. -/
theorem Program.parse_insertWord {place : Pos → Pos} {source other : String} {r : Reading}
    {before before' after after' : List Token} {t t' u u' w : Token}
    (hr : Program.parse source = .ok r)
    (hsource : Token.readAll source = .ok (before ++ t :: u :: after))
    (hother : Token.readAll other = .ok (before' ++ t' :: w :: u' :: after'))
    (hbefore : List.Forall₂ (Token.Recurs place) before before') (ht' : t.Recurs place t')
    (hafter : List.Forall₂ (Token.Recurs place) (u :: after) (u' :: after'))
    (ht : t.kind = .keyword .raises) (hname : u.kind ≠ .ident) (hparen : u.kind ≠ .symbol .lparen)
    (hw : w.kind = .ident) (hmodifier : w.value ∉ memberModifiers) :
    (¬ (∃ i ∈ r.program.interfaces, Parse.Refuses t u i.members) →
      ∃ r' xs ys, Program.parse other = .ok r' ∧
        r'.program.map unplaced = r.program.map unplaced ∧ r.skipped = xs ++ ys ∧
        r'.skipped = xs.map (Ambiguity.move place) ++
          ⟨w.value, w.pos⟩ :: ys.map (Ambiguity.move place)) ∧
    ((∃ i ∈ r.program.interfaces, Parse.Refuses t u i.members) →
      Program.parse other = .error (.fault (.expected (.keyword .fn) u.kind) u'.pos)) := by
  obtain ⟨tokens, hlex, hread⟩ := Program.exists_tokens hr
  cases hsource.symm.trans hlex
  have hi : Parse.Insertable t u w := ⟨ht, hname, hparen, hw, hmodifier⟩
  have hinserted : Parse.Inserted place t u w _ _ :=
    .ofTexts hsource hbefore ht' hafter
  have hstart : Parse.Recovering place t u w (.start (before ++ t :: u :: after))
      (.start (before' ++ t' :: w :: u' :: after')) :=
    .before (Token.readAll_ended hsource)
      (congrArg (fun names => [names ++ builtins]) (hinserted.declaredNames_eq hi)) hinserted rfl
  have hparse : Program.parse other = Program.ofTokens (before' ++ t' :: w :: u' :: after') := by
    rw [Program.parse, hother]
  rw [hparse, (List.forall₂_cons.1 hafter).1.pos]
  rcases Program.ofTokens_unless (Parse.Refuses t u) (Parse.Recovering.tracking hi)
      (fun n n' _ _ => Parse.interface_recovers hi n n') (Token.readAll_ended hother) hstart hread
    with ⟨hgood, r', s, s', hr', hprogram, hs, hend, hskipped, hskipped'⟩ | ⟨hbad, hfail⟩
  · refine ⟨fun _ => ?_, fun hbad => absurd hbad hgood⟩
    obtain ⟨xs, ys, hxs, hys⟩ := hs.noted hi hend
    exact ⟨r', xs, ys, hr', hprogram, hskipped.trans hxs, hskipped'.trans hys⟩
  · exact ⟨fun hgood => absurd hbad hgood, fun _ => hfail _ rfl⟩

def lineToken (kind : TokenKind) (value : String) (column : Nat) : Token :=
  ⟨kind, value, ⟨⟨1, column⟩, ⟨1, column + value.length⟩⟩⟩

/-- A member that ends in its own bare clause, with another one behind it. -/
def bareMemberSource : String := "interface I \x7b fn m() raises fn n(); \x7d"

def wordedMemberSource : String := "interface I \x7b fn m() raises E fn n(); \x7d"

/-- The tokens in front of the clause. -/
def bareMemberStart : List Token :=
  [lineToken (.keyword .interface) "interface" 1, lineToken .ident "I" 11,
    lineToken (.symbol .lbrace) "\x7b" 13, lineToken (.keyword .fn) "fn" 15,
    lineToken .ident "m" 18, lineToken (.symbol .lparen) "(" 19, lineToken (.symbol .rparen) ")" 20]

def bareMemberEnd : List Token :=
  [lineToken .ident "n" 32, lineToken (.symbol .lparen) "(" 33, lineToken (.symbol .rparen) ")" 34,
    lineToken (.symbol .semicolon) ";" 35, lineToken (.symbol .rbrace) "\x7d" 37,
    lineToken .eof "" 38]

def wordPlace (p : Pos) : Pos := if p.column ≤ 28 then p else ⟨p.line, p.column + 2⟩

theorem readAll_bareMemberSource :
    Token.readAll bareMemberSource =
      .ok (bareMemberStart ++ lineToken (.keyword .raises) "raises" 22 ::
        lineToken (.keyword .fn) "fn" 29 :: bareMemberEnd) := by
  decide +kernel

theorem readAll_wordedMemberSource :
    Token.readAll wordedMemberSource =
      .ok (bareMemberStart.map (Token.move wordPlace) ++
        lineToken (.keyword .raises) "raises" 22 :: lineToken .ident "E" 29 ::
          lineToken (.keyword .fn) "fn" 31 :: bareMemberEnd.map (Token.move wordPlace)) := by
  decide +kernel

theorem Program.parse_insertWord_member :
    ∃ r r', Program.parse bareMemberSource = .ok r ∧ Program.parse wordedMemberSource = .ok r' ∧
      r'.program.map unplaced = r.program.map unplaced ∧ r.skipped = [] ∧
      r'.skipped = [⟨"E", ⟨1, 29⟩⟩] := by
  obtain ⟨r, hread, hskipped⟩ := Program.exists_reading bareMemberSource
    (fun r => r.skipped = []) rfl (by decide +kernel)
  obtain ⟨hrecovers, -⟩ := Program.parse_insertWord hread readAll_bareMemberSource
    readAll_wordedMemberSource (Token.recurs_move wordPlace bareMemberStart) ⟨rfl, rfl, rfl⟩
    (.cons ⟨rfl, rfl, rfl⟩ (Token.recurs_move wordPlace bareMemberEnd)) rfl (by decide) (by decide)
    rfl (by decide)
  obtain ⟨r', xs, ys, hr', hprogram, hxs, hys⟩ := hrecovers fun ⟨_, _, hfn, _⟩ => hfn rfl
  refine ⟨r, r', hread, hr', hprogram, hskipped, ?_⟩
  obtain ⟨rfl, rfl⟩ := List.append_eq_nil_iff.1 (hxs.symm.trans hskipped)
  exact hys

/-- A member whose own clause is bare, with a semicolon behind it. -/
def bareClauseSource : String := "interface I \x7b fn m() raises; \x7d"

def wordedClauseSource : String := "interface I \x7b fn m() raises E; \x7d"

instance decidableEqError {ε α : Type} [DecidableEq ε] (x : Except ε α) (e : ε) :
    Decidable (x = .error e) :=
  match x with
  | .error e' => decidable_of_iff (e' = e) (by simp)
  | .ok _ => isFalse (by simp)

/-- There is no recovery behind the own clause of a member that a semicolon ends. -/
theorem word_refused :
    (∃ r, Program.parse bareClauseSource = .ok r ∧ r.skipped = []) ∧
    Program.parse wordedClauseSource =
      .error (.fault (.expected (.keyword .fn) (.symbol .semicolon)) ⟨1, 30⟩) := by
  rw [Program.parse_eq_ofChars bareClauseSource rfl,
    Program.parse_eq_ofChars wordedClauseSource rfl]
  decide +kernel

end RaisingEffects
