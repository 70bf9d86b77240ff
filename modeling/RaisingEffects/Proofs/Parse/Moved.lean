import Mathlib.Data.List.Forall2
import RaisingEffects.Proofs.Parse.Departing

/-!
# Reading moved tokens

Where a token stands has no influence on how it is read: places are only ever copied, into spans,
into failures and into what is noted of skipped words. So reading tokens that are moved, by any
function of places, gives what reading them where they stand gives, apart from places, or is refused
for the same reason (`Program.ofTokens_move`).

The two readings follow each other, in a strict comparison (`Parse.Moved.tracking`). What is left to
say is how a clause is read from moved tokens.
-/

namespace RaisingEffects

section Moving

variable (place : Pos → Pos)

/-- The token at its new place. -/
def Token.move (t : Token) : Token := { t with span := t.span.move place }

@[simp] theorem Token.move_kind (t : Token) : (t.move place).kind = t.kind := rfl

@[simp] theorem Token.move_value (t : Token) : (t.move place).value = t.value := rfl

/-- The skipped word at its new place. -/
def Ambiguity.move (a : Ambiguity) : Ambiguity := { a with pos := place a.pos }

/-- The failure at its new place, if it has one. -/
def ParseFailure.move : ParseFailure → ParseFailure
  | fault why pos => fault why (place pos)
  | numeral why => numeral why
  | outOfTokens => outOfTokens

/-- What was read at a clause of moved tokens. -/
def ClauseReading.move (r : ClauseReading) : ClauseReading where
  clause := r.clause.map (·.map (Span.move place))
  skipped := r.skipped.map (Ambiguity.move place)
  used := r.used.map (Token.move place)
  rest := r.rest.map (Token.move place)

/-- The outcome of reading moved tokens, where `φ` moves what is returned. -/
def ParseFailure.moveOr {α β : Type} (φ : α → β) : Except ParseFailure α → Except ParseFailure β
  | .ok a => .ok (φ a)
  | .error e => .error (e.move place)

end Moving

variable {place : Pos → Pos}

theorem Token.recurs_move (place : Pos → Pos) (ts : List Token) :
    List.Forall₂ (Token.Recurs place) ts (ts.map (Token.move place)) :=
  List.forall₂_map_right_iff.2 (List.forall₂_same.2 fun _ _ => ⟨rfl, rfl, rfl⟩)

/-! ## Clauses -/

theorem Token.getLastD_move (ts : List Token) (t : Token) :
    (ts.map (Token.move place)).getLastD (t.move place) = (ts.getLastD t).move place := by
  rw [List.getLastD_eq_getLast?, List.getLastD_eq_getLast?, List.getLast?_map]
  cases ts.getLast? <;> rfl

namespace ClauseReading

theorem names_move (ts : List Token) :
    names (ts.map (Token.move place)) = ParseFailure.moveOr place
      (fun r => (r.1, r.2.1.map (Token.move place), r.2.2.map (Token.move place))) (names ts) := by
  fun_induction names ts with
  | case1 => rfl
  | case2 t ht => simp [names, ht, ParseFailure.moveOr, ParseFailure.move]
  | case3 t ht u us hu ih =>
    simp only [List.map_cons, names, Token.move_kind, ht, hu, ih, if_true]
    cases names us <;> rfl
  | case4 t ht u us hcomma hu => simp [names, ht, hu, ParseFailure.moveOr]
  | case5 t ht u us hcomma hparen =>
    simp [names, ht, hcomma, hparen, ParseFailure.moveOr, ParseFailure.move, Token.pos, Token.move,
      Span.move]
  | case6 t ts ht =>
    rw [List.map_cons, names.eq_def]
    exact if_neg ht

theorem afterRaises_move (mayDeclare : Bool) (start : Token) (ts : List Token) :
    afterRaises mayDeclare (start.move place) (ts.map (Token.move place)) =
      ParseFailure.moveOr place (ClauseReading.move place) (afterRaises mayDeclare start ts) := by
  cases ts with
  | nil => rfl
  | cons t ts =>
    simp only [List.map_cons, afterRaises]
    by_cases hparen : t.kind = .symbol .lparen
    · have hmoved : (t.move place).kind = .symbol .lparen := hparen
      rw [if_pos hparen, if_pos hmoved, names_move]
      cases names ts with
      | error e => rfl
      | ok r =>
        obtain ⟨ns, used, rest⟩ := r
        simp only [ParseFailure.moveOr, Bind.bind, Except.bind, Token.getLastD_move]
        rfl
    · have hmoved : (t.move place).kind ≠ .symbol .lparen := hparen
      rw [if_neg hparen, if_neg hmoved]
      rw [apply_ite (ParseFailure.moveOr place (ClauseReading.move place))]
      rfl

theorem read_move (mayDeclare : Bool) (ts : List Token) :
    read mayDeclare (ts.map (Token.move place)) =
      ParseFailure.moveOr place (ClauseReading.move place) (read mayDeclare ts) := by
  cases ts with
  | nil => rfl
  | cons t ts =>
    simp only [List.map_cons, read, ← afterRaises_move,
      apply_ite (ParseFailure.moveOr place (ClauseReading.move place))]
    rfl

end ClauseReading

namespace Parse

/-! ## Readers -/

/-- The readers stand at the same tokens, which are moved in the second text. -/
structure Moved (place : Pos → Pos) (s s' : ParseState) : Prop where
  ended : Ended s.rest
  rest : s'.rest = s.rest.map (Token.move place)
  scopes : s'.scopes = s.scopes
  skipped : s'.skipped = s.skipped.map (Ambiguity.move place)

/-- Moved tokens are compared strictly. -/
abbrev moved (place : Pos → Pos) : Alignment := ⟨Moved place, True⟩

namespace Moved

theorem take {s s' : ParseState} (hs : Moved place s s') {t t' : Token} {ts ts' : List Token}
    (hrest : s.rest = t :: ts) (hrest' : s'.rest = t' :: ts') (heof : t.kind ≠ .eof) :
    Moved place { s with last := t, rest := ts } { s' with last := t', rest := ts' } := by
  have hmoved := hs.rest
  rw [hrest, hrest', List.map_cons, List.cons.injEq] at hmoved
  exact ⟨(hrest ▸ hs.ended).tail heof, hmoved.2, hs.scopes, hs.skipped⟩

theorem stepping : Stepping place TokenKind.plain (moved place) where
  semicolons _ := rfl
  types _ := TokenKind.plain_of_ofType
  scopes hs := hs.scopes
  rescope hs scopes := ⟨hs.ended, hs.rest, rfl, hs.skipped⟩
  head {s s'} hs := by
    obtain ⟨t, ts, hrest⟩ := hs.ended.exists_cons
    refine ⟨t, ts, t.move place, ts.map (Token.move place), hrest, ?_, .inl ⟨rfl, rfl, rfl⟩⟩
    rw [hs.rest, hrest, List.map_cons]
  take hs hrest hrest' _ hkind := by
    refine hs.take hrest hrest' fun heof => ?_
    rw [heof] at hkind
    cases hkind
  note hs word pos := by
    refine ⟨hs.ended, hs.rest, hs.scopes, ?_⟩
    rw [hs.skipped, List.map_append]
    rfl

theorem clause (mayDeclare : Bool) :
    Follows (moved place) (clause mayDeclare) (clause mayDeclare)
      (SameBy (Option.map (Clause.map unplaced))) := by
  intro s s' hs
  have hmoved : ClauseReading.read mayDeclare s'.rest = _ :=
    hs.rest ▸ ClauseReading.read_move mayDeclare s.rest
  cases hread : ClauseReading.read mayDeclare s.rest with
  | ok r =>
    rw [hread] at hmoved
    refine .run (by rw [Parse.clause, hread]) (by rw [Parse.clause, hmoved]; rfl) id ?_ ?_
    · cases hclause : r.clause <;> simp [SameBy, ClauseReading.move, hclause, Clause.map]
    · refine ⟨ClauseReading.read_ended hread hs.ended, rfl, hs.scopes, ?_⟩
      rw [hs.skipped, List.map_append]
      cases hskipped : r.skipped <;> simp [ClauseReading.move, hskipped]
  | error e =>
    obtain ⟨why, pos, rfl, -⟩ := Or.resolve_right (ClauseReading.read_error hread) fun h =>
      h.2 hs.ended
    rw [hread] at hmoved
    exact .refuse (by rw [Parse.clause, hread]) (by rw [Parse.clause, hmoved]; rfl)

theorem tracking : Tracking place TokenKind.plain (moved place) :=
  { stepping with clause := clause false }

theorem interface (n n' : Nat) {s s' : ParseState} (hs : Moved place s s') :
    FollowsAt (moved place) s s' (interface (.ofDepth n)) (interface (.ofDepth n'))
      (SameBy (Interface.map unplaced)) := by
  have hopen : Follows (moved place) (expect (.keyword .interface)) (expect (.keyword .interface))
      (Token.Recurs place) := by
    intro s s' hs
    obtain ⟨t, t', hahead⟩ := tracking.ahead rfl hs
    exact hahead.expect fun ht ts ts' hrest hrest' => hs.take hrest hrest' (by rw [ht]; decide)
  have hclose : Follows (moved place) (expectSign .rbrace) (expectSign .rbrace)
      (Token.Recurs place) := expectSign_follows tracking .rbrace
  refine interface_unless (fun _ => False) stepping rfl Iff.rfl hopen (fun m m' => ?_) hclose hs
  exact members_follows tracking (Level.type_follows tracking n n') (clause true) m m' false

end Moved

end Parse

/-- **Reading moved tokens gives what reading the tokens gives, apart from places.** -/
theorem Program.ofTokens_move (place : Pos → Pos) {tokens : List Token} (hended : Ended tokens) :
    (∃ r r', ofTokens tokens = .ok r ∧ ofTokens (tokens.map (Token.move place)) = .ok r' ∧
      r'.program.map unplaced = r.program.map unplaced ∧
      r'.skipped = r.skipped.map (Ambiguity.move place)) ∨
    ∃ e e', ofTokens tokens = .error e ∧ ofTokens (tokens.map (Token.move place)) = .error e' ∧
      Parse.SameReason e e' := by
  have hended' : Ended (tokens.map (Token.move place)) := by
    obtain ⟨t, ht, heof⟩ := hended
    exact ⟨t.move place, by rw [List.getLast?_map, ht]; rfl, heof⟩
  have hstart : Parse.Moved place (.start tokens) (.start (tokens.map (Token.move place))) := by
    refine ⟨hended, rfl, congrArg (fun names => [names ++ builtins]) ?_, rfl⟩
    exact declaredNames_of_recurs (Token.recurs_move place tokens)
  have hinterface (n n' : Nat) (s s' : ParseState) (hs : Parse.Moved place s s') :=
    hs.interface n n'
  cases hr : ofTokens tokens with
  | ok r =>
    rcases ofTokens_unless (fun _ => False) Parse.Moved.tracking hinterface hended' hstart hr with
      ⟨-, r', s, s', hr', hprogram, hs, -, hskipped, hskipped'⟩ | ⟨⟨_, _, hbad⟩, -⟩
    · exact .inl ⟨r, r', rfl, hr', hprogram, by rw [hskipped', hs.skipped, hskipped]⟩
    · exact hbad.elim
  | error e =>
    obtain ⟨e', he', hsame⟩ := ofTokens_refused (fun _ => False) Parse.Moved.tracking hinterface
      hended' hstart trivial hended hr
    exact .inr ⟨e, e', rfl, he', hsame⟩

end RaisingEffects
