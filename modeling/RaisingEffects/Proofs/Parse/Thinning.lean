import RaisingEffects.Proofs.Parse.Moved
import RaisingEffects.Proofs.Parse.Outline

/-!
# Members without their semicolons

The semicolons behind the members of an interface may be left out, any of them. The text is then
read as the same program and the same words are skipped. There is one exception: a result type that
ends in a bare `raises` takes a word that follows it, so the semicolon between the two is needed.

* `Token.withoutSemicolons marked inside tokens`: the tokens without the marked semicolons.
* `Parse.Thinned`: how readers of the two texts stand to each other.
* `Parse.Straying`: the same while a member is read, where the second reader may have taken a word
  that the first one has still ahead.
* `Program.parse_withoutSemicolons` is the result for texts.
-/

namespace RaisingEffects

open TokenKind Sign Keyword

/-- The tokens without the marked semicolons inside interfaces, where the first token stands inside
an interface or outside. -/
def Token.withoutSemicolons (marked : Token → Bool) : (inside : Bool) → List Token → List Token
  | _, [] => []
  | inside, x :: xs =>
    let rest := withoutSemicolons marked (insideAfter inside x.kind) xs
    if inside && x.kind = symbol semicolon && marked x then rest else x :: rest

namespace Parse

/-- A marked semicolon stands between a `raises` and a word. -/
structure Severs (marked : Token → Bool) (tokens : List Token) (t x y : Token) : Prop where
  tokens : [t, x, y] <:+: tokens
  raises : t.kind = keyword Keyword.raises
  marked : marked x = true
  word : y.kind = ident

/-- The member has a result type, and is ended by a marked semicolon that stands between a `raises`
and a word. -/
def Swallows (marked : Token → Bool) (tokens : List Token) (m : Member Span) : Prop :=
  m.result.isSome = true ∧ ∃ t x y, Severs marked tokens t x y ∧ m.loc.stop = x.span.stop

/-- The second reader has the tokens of the first one ahead, without the marked semicolons. -/
structure Thinned (place : Pos → Pos) (marked : Token → Bool) (tokens : List Token) (inside : Bool)
    (s s' : ParseState) : Prop where
  ended : Ended s.rest
  scopes : s'.scopes = s.scopes
  thinned : List.Forall₂ (Token.Recurs place) (Token.withoutSemicolons marked inside s.rest) s'.rest
  outlined : Outlined inside s.rest
  suffix : s.rest <:+ tokens
  skipped : s'.skipped = s.skipped.map (Ambiguity.move place)

/-- The first reader stands behind a `raises` that ends a type, in front of a marked semicolon. The
second one has skipped the word behind it. -/
structure Lost (marked : Token → Bool) (tokens : List Token) (s s' : ParseState) : Prop where
  scopes : s'.scopes = s.scopes
  rest : ∃ x y ys, s.rest = x :: y :: ys ∧ x.kind = symbol semicolon ∧
    Severs marked tokens s.last x y
  rest' : ∃ x' xs', s'.rest = x' :: xs' ∧ x'.kind.followsMember = true

/-- How the readers stand to each other while a member is read. -/
def Straying (place : Pos → Pos) (marked : Token → Bool) (tokens : List Token) (s s' : ParseState) :
    Prop :=
  Thinned place marked tokens true s s' ∨ Lost marked tokens s s'

variable {place : Pos → Pos} {marked : Token → Bool} {tokens : List Token} {inside : Bool}
  {s s' : ParseState}

/-! ## The next token -/

theorem withoutSemicolons_drop {x : Token} {xs : List Token} (hx : x.kind = symbol semicolon)
    (hmarked : marked x = true) :
    Token.withoutSemicolons marked true (x :: xs) = Token.withoutSemicolons marked true xs := by
  simp [Token.withoutSemicolons, hx, hmarked, insideAfter]

theorem withoutSemicolons_keep {x : Token} {xs : List Token}
    (h : ¬ (inside = true ∧ x.kind = symbol semicolon ∧ marked x = true)) :
    Token.withoutSemicolons marked inside (x :: xs) =
      x :: Token.withoutSemicolons marked (insideAfter inside x.kind) xs := by
  rw [Token.withoutSemicolons]
  exact if_neg (by simpa [and_assoc] using h)

namespace Thinned

/-- A marked semicolon is only ahead in the first text. -/
theorem drop (hs : Thinned place marked tokens true s s') {x : Token} {xs : List Token}
    (hrest : s.rest = x :: xs) (hx : x.kind = symbol semicolon) (hmarked : marked x = true) :
    BehindMember xs ∧ Thinned place marked tokens true { s with last := x, rest := xs } s' := by
  obtain ⟨hended, hscopes, hthinned, houtlined, hsuffix, hskipped⟩ := hs
  rw [hrest] at hended hthinned houtlined hsuffix
  rw [withoutSemicolons_drop hx hmarked] at hthinned
  obtain ⟨hbehind, -, hrest'⟩ := houtlined
  rw [hx] at hrest'
  exact ⟨hbehind rfl hx, hended.tail (by rw [hx]; decide), hscopes, hthinned, hrest',
    (List.suffix_cons x xs).trans hsuffix, hskipped⟩

/-- Any other token is ahead in both. -/
theorem keep (hs : Thinned place marked tokens inside s s') {x : Token} {xs : List Token}
    (hrest : s.rest = x :: xs)
    (hkeep : ¬ (inside = true ∧ x.kind = symbol semicolon ∧ marked x = true)) :
    ∃ x' xs', s'.rest = x' :: xs' ∧ x.Recurs place x' ∧
      (x.kind ≠ eof → Thinned place marked tokens (insideAfter inside x.kind)
        { s with last := x, rest := xs } { s' with last := x', rest := xs' }) := by
  obtain ⟨hended, hscopes, hthinned, houtlined, hsuffix, hskipped⟩ := hs
  rw [hrest] at hended hthinned houtlined hsuffix
  rw [withoutSemicolons_keep hkeep] at hthinned
  obtain ⟨x', xs', hx', hxs', hrest'⟩ := List.forall₂_cons_left_iff.1 hthinned
  exact ⟨x', xs', hrest', hx', fun heof => ⟨hended.tail heof, hscopes, hxs', houtlined.2.2,
    (List.suffix_cons x xs).trans hsuffix, hskipped⟩⟩

/-- What may stand behind a member stands behind it in both texts. -/
theorem behind (hs : Thinned place marked tokens true s s') (h : BehindMember s.rest) :
    ∃ x xs x' xs', s.rest = x :: xs ∧ s'.rest = x' :: xs' ∧ x.Recurs place x' ∧
      x'.kind.followsMember = true := by
  obtain ⟨x, xs, hrest, hx⟩ : ∃ x xs, s.rest = x :: xs ∧ x.kind.followsMember = true := by
    generalize s.rest = ts at h
    cases h with
    | close hx | fn hx | word hx => exact ⟨_, _, rfl, by rw [hx]; rfl⟩
  obtain ⟨x', xs', hrest', hrecurs, -⟩ := hs.keep hrest fun ⟨_, hkind, _⟩ => by
    rw [hkind] at hx
    cases hx
  exact ⟨x, xs, x', xs', hrest, hrest', hrecurs, hrecurs.kind.symm ▸ hx⟩

theorem stepping :
    Stepping place (neutral inside) (.loose (Thinned place marked tokens inside)) where
  semicolons h := h.elim
  types _ := neutral_of_ofType
  scopes hs := hs.scopes
  rescope hs scopes := ⟨hs.ended, rfl, hs.thinned, hs.outlined, hs.suffix, hs.skipped⟩
  head hs := by
    obtain ⟨x, xs, hrest⟩ := hs.ended.exists_cons
    by_cases hdrop : inside = true ∧ x.kind = symbol semicolon ∧ marked x = true
    · obtain ⟨rfl, hx, hmarked⟩ := hdrop
      obtain ⟨hbehind, hs₁⟩ := hs.drop hrest hx hmarked
      obtain ⟨-, -, y', ys', -, hrest', -, hy'⟩ := hs₁.behind hbehind
      exact ⟨x, xs, y', ys', hrest, hrest', .inr ⟨rfl, hx, hy'⟩⟩
    · obtain ⟨x', xs', hrest', hx, -⟩ := hs.keep hrest hdrop
      exact ⟨x, xs, x', xs', hrest, hrest', .inl hx⟩
  take {s s' t ts t' ts'} hs hrest hrest' _ hkind := by
    obtain ⟨hstep, hsemicolon⟩ := insideAfter_of_neutral (.inl hkind)
    obtain ⟨u', us', hus', -, htake⟩ := hs.keep hrest fun h => hsemicolon h.1 h.2.1
    rw [hrest', List.cons.injEq] at hus'
    obtain ⟨rfl, rfl⟩ := hus'
    rw [hstep] at htake
    refine htake fun heof => ?_
    rw [heof] at hkind
    cases inside <;> cases hkind
  note hs word pos := by
    refine ⟨hs.ended, hs.scopes, hs.thinned, hs.outlined, hs.suffix, ?_⟩
    rw [hs.skipped, List.map_append]
    rfl

/-- Inside an interface only own clauses of members follow each other in this way. -/
theorem clause {mayDeclare : Bool} (hdeclare : inside = true → mayDeclare = true) :
    Follows (.loose (Thinned place marked tokens inside)) (clause mayDeclare) (clause mayDeclare)
      (SameBy (Option.map (Clause.map unplaced))) := by
  intro s s' (hs : Thinned place marked tokens inside s s')
  obtain ⟨x, xs, hrest⟩ := hs.ended.exists_cons
  by_cases hx : x.kind = keyword Keyword.raises
  · obtain ⟨x', xs', hrest', hrecurs, htake⟩ := hs.keep hrest (by simp [hx])
    rw [hx] at htake
    refine stepping.clauseAhead id hrest hrest' hx (hrecurs.kind.trans hx) (htake (by decide)) ?_
    intro u us _ hskew _
    refine hdeclare ?_
    cases inside with
    | true => rfl
    | false => cases hskew.kinds
  · refine stepping.clauseNone hs mayDeclare fun y ys hy => ?_
    rw [hrest, List.cons.injEq] at hy
    exact hy.1 ▸ hx

theorem tracking :
    Tracking place TokenKind.plain (.loose (Thinned place marked tokens false)) where
  toStepping := (stepping : Stepping place (neutral false) _)
  clause := clause fun h => by cases h

/-- A token at which an interface starts or ends, or which makes no difference to that. -/
theorem expect (hs : Thinned place marked tokens inside s s') (kind : TokenKind)
    (hkind : kind ≠ symbol semicolon) (heof : kind ≠ eof) :
    FollowsAt (.loose (Thinned place marked tokens (insideAfter inside kind))) s s' (expect kind)
      (expect kind) (Token.Recurs place) := by
  refine .ofReturns id fun x s₁ hx => ?_
  obtain ⟨xs, hrest, rfl, rfl⟩ := expect_eq_ok hx
  obtain ⟨x', xs', hrest', hrecurs, htake⟩ := hs.keep hrest fun h => hkind h.2.1
  exact .inr ⟨x', _, expect_of_kind hrest' hrecurs.kind, hrecurs, htake heof⟩

/-- A semicolon behind a member, in the first text or in both. -/
theorem acceptSemicolon (hs : Thinned place marked tokens true s s') :
    FollowsAt (.loose (Thinned place marked tokens true)) s s' (accept (symbol semicolon))
      (accept (symbol semicolon)) fun _ _ => True := by
  obtain ⟨x, xs, hrest⟩ := hs.ended.exists_cons
  by_cases hdrop : x.kind = symbol semicolon ∧ marked x = true
  · obtain ⟨hbehind, hs₁⟩ := hs.drop hrest hdrop.1 hdrop.2
    obtain ⟨-, -, y', ys', -, hrest', -, hy'⟩ := hs₁.behind hbehind
    refine .run (accept_of_kind hrest hdrop.1) (accept_of_ne hrest' fun hkind => ?_) id trivial hs₁
    rw [hkind] at hy'
    cases hy'
  · obtain ⟨x', xs', hrest', hx', htake⟩ := hs.keep hrest fun h => hdrop h.2
    by_cases hx : x.kind = symbol semicolon
    · rw [hx] at htake
      exact .run (accept_of_kind hrest hx) (accept_of_kind hrest' (hx'.kind.trans hx)) id trivial
        (htake (by decide))
    · exact .run (accept_of_ne hrest hx) (accept_of_ne hrest' (hx'.kind ▸ hx)) id trivial hs

end Thinned

/-! ## Inside a member -/

theorem Straying.stepping :
    Stepping place TokenKind.inner (.loose (Straying place marked tokens)) where
  semicolons h := h.elim
  types _ := inner_of_ofType
  scopes hs := hs.elim (·.scopes) (·.scopes)
  rescope hs scopes := hs.imp (Thinned.stepping.rescope · scopes) fun hlost =>
    ⟨rfl, hlost.rest, hlost.rest'⟩
  head hs := by
    rcases hs with hs | hlost
    · exact Thinned.stepping.head hs
    · obtain ⟨x, y, ys, hrest, hx, -⟩ := hlost.rest
      obtain ⟨x', xs', hrest', hx'⟩ := hlost.rest'
      exact ⟨x, y :: ys, x', xs', hrest, hrest', .inr ⟨rfl, hx, hx'⟩⟩
  take hs hrest hrest' hrecurs hkind := by
    rcases hs with hs | hlost
    · exact .inl (Thinned.stepping.take hs hrest hrest' hrecurs hkind)
    · obtain ⟨x, y, ys, hx, hsemicolon, -⟩ := hlost.rest
      rw [hrest, List.cons.injEq] at hx
      rw [hx.1, hsemicolon] at hkind
      cases hkind
  note hs word pos := hs.imp (Thinned.stepping.note · word pos) fun hlost =>
    ⟨hlost.scopes, hlost.rest, hlost.rest'⟩

/-- The word behind a marked semicolon is skipped in the second text, as if it were the type of the
`raises` in front of the semicolon. -/
theorem Thinned.lose (hs : Thinned place marked tokens true s s') {x y z : Token} {zs : List Token}
    (hrest : s.rest = x :: y :: z :: zs) (hx : x.kind = keyword Keyword.raises)
    (hy : y.kind = symbol semicolon) (hmarked : marked y = true) (hz : z.kind = ident) :
    FollowsAt (.loose (Straying place marked tokens)) s s' (Parse.clause false) (Parse.clause false)
      (SameBy (Option.map (Clause.map unplaced))) := by
  have hsevers : Severs marked tokens x y z := by
    refine ⟨?_, hx, hmarked, hz⟩
    exact (List.prefix_append [x, y, z] zs).isInfix.trans (hrest ▸ hs.suffix).isInfix
  obtain ⟨x', xs', hrest', hx', htake⟩ := hs.keep hrest (by simp [hx])
  rw [hx] at htake
  obtain ⟨hbehind, hs₁⟩ := (htake (by decide)).drop rfl hy hmarked
  obtain ⟨z', zs', hzs', hz', htake'⟩ := hs₁.keep rfl (by simp [hz])
  rw [hz] at htake'
  have hnext : ∃ w' ws', zs' = w' :: ws' ∧ w'.kind.followsMember = true := by
    cases hbehind with
    | close h | fn h => cases hz.symm.trans h
    | word _ hw =>
      obtain ⟨w', ws', hws', hw', -⟩ := (htake' (by decide)).keep rfl fun ⟨_, hkind, _⟩ => by
        rcases hw with hw | hw <;> cases hw.symm.trans hkind
      refine ⟨w', ws', hws', ?_⟩
      rw [hw'.kind]
      rcases hw with hw | hw <;> rw [hw] <;> rfl
  dsimp only at hzs'
  subst hzs'
  refine .run (ClauseRun.eq_ok (.bare hrest hx (by rw [hy]; decide) (by simp [hy])))
    (ClauseRun.eq_ok (.word hrest' (hx'.kind.trans hx) (hz'.kind.trans hz) rfl)) id rfl ?_
  exact .inr ⟨hs.scopes, ⟨y, z, zs, rfl, hy, hsevers⟩, hnext⟩

theorem Straying.tracking :
    Tracking place TokenKind.inner (.loose (Straying place marked tokens)) where
  toStepping := stepping
  clause := by
    rintro s s' (hs | hlost)
    · obtain ⟨x, xs, hrest⟩ := hs.ended.exists_cons
      by_cases hx : x.kind = keyword Keyword.raises
      · obtain ⟨x', xs', hrest', hx', htake⟩ := hs.keep hrest (by simp [hx])
        rw [hx] at htake
        have hs₁ := htake (by decide)
        obtain ⟨y, ys, rfl⟩ := hs₁.ended.exists_cons
        by_cases hlose : ∃ z zs, ys = z :: zs ∧ y.kind = symbol semicolon ∧ marked y = true ∧
            z.kind = ident
        · obtain ⟨z, zs, rfl, hy, hmarked, hz⟩ := hlose
          exact hs.lose hrest hx hy hmarked hz
        · refine stepping.clauseAhead id hrest hrest' hx (hx'.kind.trans hx) (.inl hs₁) ?_
          intro u us hu hskew hword
          have hy : y.kind = symbol semicolon := hskew.semicolon
          subst hu
          by_cases hmarked : marked y = true
          · obtain ⟨hbehind, hs₂⟩ := hs₁.drop rfl hy hmarked
            obtain ⟨z, zs, z', zs', hz, hz', hrecurs, -⟩ := hs₂.behind hbehind
            cases hz'
            exact absurd ⟨z, zs, hz, hy, hmarked, hrecurs.kind.symm.trans hword⟩ hlose
          · obtain ⟨y', ys', hys', hy', -⟩ := hs₁.keep rfl (by simp [hmarked])
            cases hys'
            cases hword.symm.trans (hy'.kind.trans hy)
      · refine stepping.clauseNone (.inl hs) false fun y ys hy => ?_
        rw [hrest, List.cons.injEq] at hy
        exact hy.1 ▸ hx
    · obtain ⟨x, y, ys, hrest, hx, -⟩ := hlost.rest
      refine stepping.clauseNone (.inr hlost) false fun z zs hz => ?_
      rw [hrest, List.cons.injEq] at hz
      simp [← hz.1, hx]

/-! ## Members -/

theorem listUntil_last {α : Type} {close : Sign} {item : Parse α} {as : List α} {s₁ : ParseState}
    (h : listUntil close item s = .ok (as, s₁)) : s₁.last.kind = symbol close := by
  obtain ⟨closed, s₂, -, h⟩ := bind_eq_ok h
  split at h
  · obtain ⟨t, s₃, ht, h⟩ := bind_eq_ok h
    cases h
    obtain ⟨ts, -, hkind, rfl⟩ := expect_eq_ok ht
    exact hkind
  · obtain ⟨items, s₃, -, h⟩ := bind_eq_ok h
    obtain ⟨t, s₄, ht, h⟩ := bind_eq_ok h
    cases h
    obtain ⟨ts, -, hkind, rfl⟩ := expect_eq_ok ht
    exact hkind

theorem memberHead_last {r : Level} {afterBare : Bool} {n : Nat}
    {head : List String × Token × List (Param Span)} {s₁ : ParseState}
    (h : memberHead r afterBare n s = .ok (head, s₁)) : s₁.last.kind = symbol rparen := by
  obtain ⟨words, s₂, -, h⟩ := bind_eq_ok h
  obtain ⟨t, s₃, -, h⟩ := bind_eq_ok h
  obtain ⟨name, s₄, -, h⟩ := bind_eq_ok h
  obtain ⟨ps, s₅, hps, h⟩ := bind_eq_ok h
  cases h
  obtain ⟨paren, s₆, -, hps⟩ := bind_eq_ok hps
  exact listUntil_last hps

section Members

variable {r r' : Level} (htype : Follows (.loose (Straying place marked tokens)) r.type r'.type
  (SameBy (TypeExpr.map unplaced))) (hs : Thinned place marked tokens true s s')

include htype hs

theorem memberHead_thins (afterBare : Bool) (n n' : Nat) :
    FollowsAt (.loose (Thinned place marked tokens true)) s s' (memberHead r afterBare n)
      (memberHead r' afterBare n') (SameBy headView) := by
  refine .ofReturns id fun head s₁ hhead => ?_
  rcases (memberHead_follows Straying.tracking htype afterBare n n' s s' (.inl hs)).returns hhead
    with hout | ⟨head', s₁', hhead', hsame, hs₁ | hlost⟩
  · exact .inl hout
  · exact .inr ⟨head', s₁', hhead', hsame, hs₁⟩
  · obtain ⟨x, y, ys, -, -, hsevers⟩ := hlost.rest
    cases (memberHead_last hhead).symm.trans hsevers.raises

/-- Behind its own clause a member is read from both texts, unless the second reader takes a word
that follows it. -/
theorem memberEnd_thins (start start' : Token)
    {head head' : List String × Token × List (Param Span)} {c c' : Option (Clause Span)}
    (hhead : SameBy headView head head') (hc : SameBy (Option.map (Clause.map unplaced)) c c') :
    FollowsUnless (.loose (Thinned place marked tokens true)) none (Swallows marked tokens) s s'
      (memberEnd r start head c) (memberEnd r' start' head' c') (SameBy (Member.map unplaced)) := by
  have hend {res res' : Option (TypeExpr Span)} {s s' : ParseState}
      (hres : SameBy (Option.map (TypeExpr.map unplaced)) res res')
      (hs : Thinned place marked tokens true s s') :
      FollowsAt (.loose (Thinned place marked tokens true)) s s'
        (do
          let _ ← accept (symbol semicolon)
          return (⟨← spanFrom start, head.2.1.value, head.1, head.2.2, c, res⟩ : Member Span))
        (do
          let _ ← accept (symbol semicolon)
          return (⟨← spanFrom start', head'.2.1.value, head'.1, head'.2.2, c', res'⟩ : Member Span))
        (SameBy (Member.map unplaced)) :=
    hs.acceptSemicolon.bind fun _ _ _ => (Follows.spanFrom _ _).bind fun _ _ _ =>
      .pure (member_same hhead hc hres _ _)
  have harrow : Follows (.loose (Thinned place marked tokens true)) (accept (symbol arrow))
      (accept (symbol arrow)) (Option.Rel (Token.Recurs place)) :=
    Thinned.stepping.accept rfl (.inr rfl)
  rw [memberEnd, memberEnd, typeAfter, typeAfter, bind_assoc, bind_assoc]
  refine (harrow s s' hs).bindUnless id fun o o' ho s s' hs => ?_
  cases ho with
  | none =>
    rw [pure_bind, pure_bind]
    exact (hend rfl hs).orDepart id
  | some =>
    dsimp only
    rw [bind_assoc, bind_assoc]
    refine (htype s s' (.inl hs)).bindUnless id fun type type' ht s s' hs => ?_
    rw [pure_bind, pure_bind]
    rcases hs with hs | hlost
    · have hres : SameBy (Option.map (TypeExpr.map unplaced)) (some type) (some type') :=
        congrArg some ht
      exact (hend hres hs).orDepart id
    · -- the first reader takes the semicolon, behind which the second one has taken a word
      obtain ⟨x, y, ys, hrest, hx, hsevers⟩ := hlost.rest
      refine ⟨fun m s₁ hm => .inr (.inr ⟨id, ?_, by simp⟩), fun h => h.elim⟩
      rw [bind_of_eq_ok (accept_of_kind hrest hx)] at hm
      cases hm
      exact ⟨rfl, s.last, x, y, hsevers, rfl⟩

theorem member_thins (afterBare : Bool) :
    FollowsUnless (.loose (Thinned place marked tokens true)) none (Swallows marked tokens) s s'
      (member r afterBare) (member r' afterBare) (SameBy (Member.map unplaced)) := by
  have hclause :
      Follows (.loose (Thinned place marked tokens true)) (clause true) (clause true) _ :=
    Thinned.clause fun _ => rfl
  refine .congr ?_ (member_eq r afterBare s) (member_eq r' afterBare s')
  refine (memberHead_thins htype hs afterBare _ _).bindUnless id fun head head' hhead s s' hs => ?_
  refine (hclause s s' hs).bindUnless id fun c c' hc s s' hs => ?_
  exact memberEnd_thins htype hs _ _ hhead hc

theorem members_thins (n n' : Nat) (afterBare : Bool) :
    FollowsUnless (.loose (Thinned place marked tokens true)) none
      (fun ms => ∃ m ∈ ms, Swallows marked tokens m) s s' (members r n afterBare)
      (members r' n' afterBare) (SameBy (List.map (Member.map unplaced))) := by
  induction n generalizing n' afterBare s s' with
  | zero => exact .spent rfl
  | succ n ih =>
    cases n' with
    | zero => exact .outOfTokens rfl
    | succ n' =>
      refine .ofOk id fun ms s₁ hms => ?_
      obtain ⟨x, xs, x', xs', hrest, hrest', hx, -⟩ := hs.behind (members_behind hs.ended hms)
      have hahead : Ahead place (.loose (Thinned place marked tokens true)) x x' s s' :=
        ⟨hs, ⟨xs, hrest⟩, ⟨xs', hrest'⟩, hx⟩
      refine (hahead.nextIs _).bindUnless id fun closed closed' hclosed s s' hs => ?_
      subst hclosed
      split
      · exact .pure hs rfl (by simp)
      · refine (member_thins htype hs afterBare).andThen id ?_ fun m m' hm hgood s s' hs => ?_
        · exact fun m hbad => .andThen fun ms => .pure ⟨m, List.mem_cons_self, hbad⟩
        · rw [endsBare_congr hm]
          exact (ih hs n' _).cons (by simp) hm (by simpa using hgood)

end Members

theorem interface_thins (n n' : Nat) (hs : Thinned place marked tokens false s s') :
    FollowsUnless (.loose (Thinned place marked tokens false)) none
      (fun i => ∃ m ∈ i.members, Swallows marked tokens m) s s' (interface (.ofDepth n))
      (interface (.ofDepth n')) (SameBy (Interface.map unplaced)) := by
  have h : Stepping place (neutral true) (.loose (Thinned place marked tokens true)) :=
    Thinned.stepping
  refine interface_unless (fun ms => ∃ m ∈ ms, Swallows marked tokens m) h rfl Iff.rfl ?_ ?_ ?_ hs
  · exact fun s s' hs => hs.expect (keyword Keyword.interface) (by decide) (by decide)
  · exact fun k k' s s' hs =>
      members_thins (Level.type_follows Straying.tracking n n') hs k k' false
  · exact fun s s' hs => hs.expect (symbol rbrace) (by decide) (by decide)

/-! ## The first look at the tokens -/

theorem declaredNames_withoutSemicolons {ts : List Token} (h : Outlined inside ts) :
    declaredNames (Token.withoutSemicolons marked inside ts) = declaredNames ts := by
  induction ts generalizing inside with
  | nil => rfl
  | cons x xs ih =>
    obtain ⟨-, hdeclares, hrest⟩ := h
    by_cases hdrop : inside = true ∧ x.kind = symbol semicolon ∧ marked x = true
    · obtain ⟨rfl, hx, hmarked⟩ := hdrop
      rw [hx] at hrest
      rw [withoutSemicolons_drop hx hmarked]
      exact (ih hrest).trans (Introduces.single (by rw [hx]; rfl) xs).symm
    · rw [withoutSemicolons_keep hdrop]
      by_cases hx : x.kind.declares = true
      · cases xs with
        | nil => rfl
        | cons y ys =>
          have hstep : insideAfter inside x.kind = inside := by
            simp only [TokenKind.declares, Bool.or_eq_true, decide_eq_true_eq] at hx
            rcases hx with (hx | hx) | hx <;> rw [hx] <;> rfl
          have hnames := ih hrest
          rw [hstep, withoutSemicolons_keep fun h => hdeclares h.1 hx y rfl h.2.1] at hnames ⊢
          rw [declaredNames, declaredNames, hnames]
      · rw [Bool.not_eq_true] at hx
        exact (Introduces.single hx _).trans ((ih hrest).trans (Introduces.single hx _).symm)

end Parse

/-! ## Texts -/

/-- **Members need no semicolons.** Leave out any of the semicolons inside the interfaces of a text
that is read. Then the new text is read as the same program, and the same words are skipped, at
their new places. The one exception is a semicolon between the `raises` that ends a result type and
a word, which would be taken for the type that is raised. -/
theorem Program.parse_withoutSemicolons {place : Pos → Pos} {marked : Token → Bool}
    {source other : String} {r : Reading} {tokens tokens' : List Token}
    (hr : Program.parse source = .ok r) (hsource : Token.readAll source = .ok tokens)
    (hother : Token.readAll other = .ok tokens')
    (hthinned : List.Forall₂ (Token.Recurs place)
      (Token.withoutSemicolons marked false tokens) tokens')
    (hgood : ∀ i ∈ r.program.interfaces, ∀ m ∈ i.members, ¬ Parse.Swallows marked tokens m) :
    ∃ r', Program.parse other = .ok r' ∧ r'.program.map unplaced = r.program.map unplaced ∧
      r'.skipped = r.skipped.map (Ambiguity.move place) := by
  obtain ⟨ts, hlex, hread⟩ := Program.exists_tokens hr
  cases hsource.symm.trans hlex
  have houtlined := Program.ofTokens_outlined hsource hread
  have hnames : declaredNames tokens' = declaredNames tokens :=
    (declaredNames_of_recurs hthinned).trans (Parse.declaredNames_withoutSemicolons houtlined)
  have hstart : Parse.Thinned place marked tokens false (.start tokens) (.start tokens') :=
    ⟨Token.readAll_ended hsource, congrArg (fun names => [names ++ builtins]) hnames, hthinned,
      houtlined, List.suffix_rfl, rfl⟩
  have hparse : Program.parse other = Program.ofTokens tokens' := by rw [Program.parse, hother]
  rw [hparse]
  rcases Program.ofTokens_unless (fun ms => ∃ m ∈ ms, Parse.Swallows marked tokens m)
      Parse.Thinned.tracking (fun n n' _ _ => Parse.interface_thins n n')
      (Token.readAll_ended hother) hstart hread
    with ⟨-, r', s, s', hr', hprogram, hs, -, hskipped, hskipped'⟩ | ⟨⟨i, hi, m, hm, hbad⟩, -⟩
  · exact ⟨r', hr', hprogram, by rw [hskipped', hs.skipped, hskipped]⟩
  · exact absurd hbad (hgood i hi m hm)

/-- Members with semicolons behind them, one of them with a bare clause. -/
def closedMemberSource : String := "interface I \x7b fn m(); fn n() raises; mut fn k(); \x7d"

def openMemberSource : String := "interface I \x7b fn m() fn n() raises mut fn k() \x7d"

/-- Each semicolon that is left out moves what is behind it by a column. -/
def openPlace (p : Pos) : Pos :=
  ⟨p.line, p.column - ([21, 36, 48].filter (· < p.column)).length⟩

theorem Program.parse_withoutSemicolons_members :
    ∃ r r', Program.parse closedMemberSource = .ok r ∧ Program.parse openMemberSource = .ok r' ∧
      r'.program.map unplaced = r.program.map unplaced ∧ r.skipped = [] ∧ r'.skipped = [] := by
  obtain ⟨ts, hlex, us, hother, hmoved⟩ : ∃ ts, Token.readAll closedMemberSource = .ok ts ∧
      ∃ us, Token.readAll openMemberSource = .ok us ∧
        (Token.withoutSemicolons (fun _ => true) false ts).map (Token.move openPlace) = us := by
    decide +kernel
  obtain ⟨r, hr, hskipped, hnone⟩ := Program.exists_reading closedMemberSource (fun r =>
    r.skipped = [] ∧ ∀ i ∈ r.program.interfaces, ∀ m ∈ i.members, m.result.isSome = false) rfl
      (by decide +kernel)
  obtain ⟨r', hr', hprogram, hskipped'⟩ := Program.parse_withoutSemicolons hr hlex hother
    (hmoved ▸ Token.recurs_move openPlace _) fun i hi m hm hbad => by
      cases (hnone i hi m hm).symm.trans hbad.1
  exact ⟨r, r', hr, hr', hprogram, hskipped, by rw [hskipped', hskipped]; rfl⟩

/-- A member whose result type ends in a bare clause, and a word behind its semicolon. -/
def severedSource : String := "interface I \x7b fn m() -> fn() raises; mut fn n(); \x7d"

def joinedSource : String := "interface I \x7b fn m() -> fn() raises mut fn n(); \x7d"

/-- The words that are skipped in a program, and those in front of the members of its interfaces. -/
def wordsOf (r : Reading) : List Ambiguity × List (List (List String)) :=
  (r.skipped, r.program.interfaces.map fun i => i.members.map Member.modifiers)

/-- Without its semicolon, a member that ends in a bare clause of its result type takes the word in
front of the next member. -/
theorem modifier_swallowed :
    (Token.readAll joinedSource).toOption.map (·.map Token.content) =
      (Token.readAll severedSource).toOption.map (fun ts =>
        (Token.withoutSemicolons (fun x => x.pos = ⟨1, 36⟩) false ts).map Token.content) ∧
    (∃ r, Program.parse severedSource = .ok r ∧ wordsOf r = ([], [[[], ["mut"]]])) ∧
    ∃ r, Program.parse joinedSource = .ok r ∧ wordsOf r = ([⟨"mut", ⟨1, 37⟩⟩], [[[], []]]) := by
  rw [Program.parse_eq_ofChars severedSource rfl, Program.parse_eq_ofChars joinedSource rfl]
  decide +kernel

end RaisingEffects
