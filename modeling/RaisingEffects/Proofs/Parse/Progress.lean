import RaisingEffects.Proofs.Parse.WellFormed

/-!
# Reading always ends

Every reader of a construct takes a token before it reads a construct inside, so the readers for `n`
levels are enough in front of `n` tokens. Hence reading never runs out of levels, rounds or tokens:
`Program.parse_ends`.
-/

namespace RaisingEffects

variable {tokens : List Token}

namespace Parse

variable {n : Nat} {r : Level} {s : ParseState}

/-! ## Constructs -/

/-- The readers of constructs: of types, blocks, statements, expressions and members, and of the
declarations they stand in. None of these constructs is empty. -/
inductive Construct (r : Level) : {α : Type} → Parse α → Prop
  | type : Construct r r.type
  | block : Construct r r.block
  | stmt : Construct r (stmt r)
  | binary (least : Nat) : Construct r (r.binary least)
  | unary : Construct r r.unary
  | primary : Construct r (primary r)
  | collection (start : Token) (kind : CollectionKind) : Construct r (collectionFrom r start kind)
  | closure : Construct r (closure r)
  | param : Construct r (param r)
  | member (afterBare : Bool) : Construct r (member r afterBare)
  | function : Construct r (function r)
  | interface : Construct r (interface r)

/-- **A construct takes a token.** -/
theorem Construct.takes {α : Type} {p : Parse α} (hp : Construct r p) (hr : r.WellScoped n) :
    Takes n 1 s [] s.scopes p fun _ _ _ _ => True := by
  have hany {β : Type} {k : Nat} {q : Parse β} {P : List Token → β → Prop}
      (h : Gives k 1 s.scopes q P) (hk : n ≤ k) : Takes n 1 s [] s.scopes q fun _ _ _ _ => True :=
    ((h s).imp fun _ _ _ _ _ => trivial).mono hk (Nat.le_refl _)
  cases hp with
  | type => exact hany hr.type (Nat.le_refl n)
  | block => exact hany hr.block (Nat.le_refl n)
  | stmt => exact (stmt_declaring hr).imp fun _ _ _ _ _ => trivial
  | binary least => exact hany (hr.binary least) (Nat.le_refl n)
  | unary => exact hany hr.unary (Nat.le_refl n)
  | primary => exact hany (primary_gives hr) (Nat.le_succ n)
  | collection start kind => exact hany (collectionFrom_gives hr start kind) (Nat.le_succ n)
  | closure => exact hany (closure_gives hr) (Nat.le_succ n)
  | param => exact hany (param_gives hr) (Nat.le_succ n)
  | member afterBare => exact (member_takes hr afterBare).imp fun _ _ _ _ _ => trivial
  | function => exact (function_takes hr).imp fun _ _ _ _ _ => trivial
  | interface => exact (interface_takes hr).imp fun _ _ _ _ _ => trivial

end Parse

/-- The tokens of a text end in an end mark. -/
theorem Token.readAll_ended {source : String} (h : readAll source = .ok tokens) : Ended tokens := by
  obtain ⟨ws, p, rfl, -⟩ := exists_written h
  exact ⟨eofAt p, List.getLast?_concat .., rfl⟩

/-- There are enough levels and rounds to read declarations up to the end mark. -/
theorem Program.declarations_takes (p : Program Span) (s : ParseState) :
    Parse.Takes s.rest.length 0 s [] s.scopes
      (Parse.declarations (.ofDepth s.rest.length) s.rest.length p) fun p' used _ s' =>
        p.Adds used p' ∧ (s'.rest.headD s'.last).kind = .eof := by
  have hlevels := Level.ofDepth_wellScoped s.rest.length
  refine Parse.Takes.mono ?_ (Nat.min_self _).ge (Nat.le_refl _)
  exact (Parse.declarations_takes hlevels s.rest.length p).imp fun _ _ _ _ hq => hq.2

/-- Programs are read from ended tokens without running out of them. -/
theorem Program.ofTokens_ends (h : Ended tokens) :
    (∃ r, ofTokens tokens = .ok r) ∨
      ∃ e : ParseFailure, e.Proper tokens ∧ ofTokens tokens = .error e := by
  have htakes := Program.declarations_takes {}
    ⟨tokens.headD (Token.eofAt .start), tokens, [declaredNames tokens ++ builtins], []⟩
  rw [ofTokens]
  cases hread : Parse.declarations (.ofDepth tokens.length) tokens.length {}
      ⟨tokens.headD (Token.eofAt .start), tokens, [declaredNames tokens ++ builtins], []⟩ with
  | ok r => exact .inl ⟨⟨r.1, r.2.skipped⟩, rfl⟩
  | error e => exact .inr ⟨e, ((htakes _ (.refl _) rfl).error e hread).2 h (Nat.le_refl _), rfl⟩

theorem Program.ofTokens_ne_outOfTokens (h : Ended tokens) :
    ofTokens tokens ≠ .error .outOfTokens := by
  intro he
  rcases ofTokens_ends h with ⟨r, hr⟩ | ⟨e, hproper, he'⟩
  · cases hr.symm.trans he
  · cases he'.symm.trans he
    exact hproper

/-- **Reading always ends, and only in the ways it should.** Every text is read, refused at a
position, or refused for a numeral in it that cannot be read, and so are all tokens that end in an
end mark. From any state in front of such tokens, reading goes on in steps that each have a token to
come, a clause leaves tokens behind it, and a construct that is read has taken a token and left
one. -/
theorem Program.parse_ends :
    (∀ source,
      (∃ r, parse source = .ok r) ∨ (∃ why pos, parse source = .error (.fault why pos)) ∨
        ∃ tokens t why, Token.readAll source = .ok tokens ∧ t ∈ tokens ∧ t.Unreadable why ∧
          parse source = .error (.numeral why)) ∧
      ∀ s : ParseState, Ended s.rest →
        ((∃ r, ofTokens s.rest = .ok r) ∨
          ∃ e : ParseFailure, e.Proper s.rest ∧ ofTokens s.rest = .error e) ∧
        (∀ p, Parse.Stays s (Parse.declarations (.ofDepth s.rest.length) s.rest.length p)) ∧
        (∀ mayDeclare, ClauseReading.read mayDeclare s.rest ≠ .error .outOfTokens ∧
          ∀ c, ClauseReading.read mayDeclare s.rest = .ok c →
            s.rest = c.used ++ c.rest ∧ c.rest ≠ []) ∧
        ∀ depth, s.rest.length ≤ depth → ∀ {α : Type} (p : Parse α),
          Parse.Construct (.ofDepth depth) p →
            Parse.Stays s p ∧ (∀ e, p s = .error e → e.Proper s.rest) ∧
              ∀ a s', p s = .ok (a, s') →
                ∃ used, s.rest = used ++ s'.rest ∧ used ≠ [] ∧ s'.rest ≠ [] := by
  refine ⟨fun source => ?_, fun s hs => ⟨ofTokens_ends hs, fun p => ?_, fun mayDeclare => ?_, ?_⟩⟩
  · rw [parse]
    cases hread : Token.readAll source with
    | error e => exact .inr (.inl ⟨_, _, rfl⟩)
    | ok tokens =>
      rcases ofTokens_ends (Token.readAll_ended hread) with ⟨r, hr⟩ | ⟨e, hproper, he⟩
      · exact .inl ⟨r, hr⟩
      · cases e with
        | fault why pos => exact .inr (.inl ⟨why, pos, he⟩)
        | numeral why =>
          obtain ⟨t, ht, hunreadable⟩ := hproper
          exact .inr (.inr ⟨tokens, t, why, rfl, ht, hunreadable, he⟩)
        | outOfTokens => exact hproper.elim
  · exact (declarations_takes p s s (.refl s) rfl).stays hs (Nat.le_refl _)
  · refine ⟨fun he => ?_, fun c hc => ?_⟩
    · rcases ClauseReading.read_error he with ⟨why, pos, hfault, -⟩ | ⟨-, hnot⟩
      · cases hfault
      · exact hnot hs
    · exact ⟨(ClauseReading.read_eq hc).1, (ClauseReading.read_ended hc hs).ne_nil⟩
  · intro depth hdepth α p hp
    have htakes := hp.takes (Level.ofDepth_wellScoped depth) s (.refl s) rfl
    have hstays := htakes.stays hs hdepth
    refine ⟨hstays, fun e he => (htakes.error e he).2 hs hdepth, fun a s' h => ?_⟩
    obtain ⟨used, -, hreach, hlength, -⟩ := htakes.ok a s' h
    exact ⟨used, hreach.rest, List.ne_nil_of_length_pos hlength, hstays.rest_ne_nil h⟩

/-- In front of a block with a bare `return` in it. -/
def bareReturn : ParseState where
  last := Token.eofAt .start
  rest := [⟨.symbol .lbrace, "\x7b", default⟩, ⟨.keyword .return_, "return", default⟩,
    ⟨.symbol .semicolon, ";", default⟩, ⟨.symbol .rbrace, "\x7d", default⟩, Token.eofAt .start]
  scopes := []
  skipped := []

theorem Program.parse_ends_bareReturn :
    Ended bareReturn.rest ∧ ∃ b s, (Level.ofDepth 5).block bareReturn = .ok (b, s) ∧
      ∃ used, bareReturn.rest = used ++ s.rest ∧ used ≠ [] ∧ s.rest ≠ [] := by
  have hended : Ended bareReturn.rest := ⟨Token.eofAt .start, rfl, rfl⟩
  obtain ⟨-, -, -, hconstruct⟩ := parse_ends.2 bareReturn hended
  obtain ⟨-, -, htaken⟩ := hconstruct 5 (Nat.le_refl _) _ .block
  exact ⟨hended, _, _, rfl, htaken _ _ rfl⟩

end RaisingEffects
