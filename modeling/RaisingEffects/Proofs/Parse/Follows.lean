import RaisingEffects.Proofs.Parse.Reads

/-!
# One reading follows another

Two texts that differ in a few tokens, or in places only, are read side by side. What the first
reading returns, the second one returns too, apart from places.

* `Token.Recurs place t t'`: the token `t'` is `t` again, in another text.
* `Parse.Alignment`: which states of the two readings belong together, and whether what is refused
  in the first text is refused in the second one too.
* `Parse.Follows R p p' ρ`: from states that `R` relates, if `p` returns then so does `p'`, the
  results are related by `ρ` and the states at the end by `R`. Only that one of them runs out of
  rounds is left open, since their repetitions may be bounded otherwise.
* `Parse.Tracking place K R`: what is asked of `R`. Tokens of the kinds `K` that are next in the
  first text are next in the second one, and can be taken from both. Readers of types, expressions
  and statements then follow each other.

The next tokens may differ in one way, where the first text has a semicolon that the second one has
not, and only if semicolons are not among the kinds (`Parse.Skewed`).
-/

namespace RaisingEffects

/-! ## Tokens -/

/-- The second token is the first one, at a place that `place` gives. -/
structure Token.Recurs (place : Pos → Pos) (t t' : Token) : Prop where
  kind : t'.kind = t.kind
  value : t'.value = t.value
  pos : t'.pos = place t.pos

/-- The kinds of tokens that types and parameters consist of, apart from their clauses. -/
def TokenKind.ofType : TokenKind → Bool
  | .ident | .keyword .fn | .symbol .lparen | .symbol .rparen | .symbol .comma | .symbol .colon
  | .symbol .arrow | .symbol .lt | .symbol .gt => true
  | _ => false

/-- The kinds of tokens that functions consist of, apart from their clauses. -/
def TokenKind.plain : TokenKind → Bool
  | .keyword .raises | .keyword .interface | .eof => false
  | _ => true

theorem TokenKind.plain_of_ofType {kind : TokenKind} (h : kind.ofType = true) :
    kind.plain = true := by
  unfold ofType at h
  split at h <;> first | rfl | cases h

/-- The kinds of tokens that may stand behind a member of an interface and its semicolon. -/
def TokenKind.followsMember : TokenKind → Bool
  | .ident | .keyword .fn | .symbol .rbrace => true
  | _ => false

/-- The kinds of tokens that stand neither where a semicolon ends a member nor behind it. -/
def TokenKind.inMember (kind : TokenKind) : Bool :=
  !kind.followsMember && kind != .symbol .semicolon

/-! The names that a first look finds depend on the tokens only, not on their places. -/

theorem declaredNames_cons_congr {place : Pos → Pos} {x x' y y' : Token} {ys ys' : List Token}
    (hx : x.Recurs place x') (hy : y.Recurs place y')
    (h : declaredNames (y' :: ys') = declaredNames (y :: ys)) :
    declaredNames (x' :: y' :: ys') = declaredNames (x :: y :: ys) := by
  rw [declaredNames, declaredNames, hx.kind, hy.kind, hy.value, h]

theorem declaredNames_of_recurs {place : Pos → Pos} {ts ts' : List Token}
    (h : List.Forall₂ (Token.Recurs place) ts ts') : declaredNames ts' = declaredNames ts := by
  induction h with
  | nil => rfl
  | cons hx hrest ih =>
    cases hrest with
    | nil => rfl
    | cons hy => exact declaredNames_cons_congr hx hy ih

namespace Parse

variable {α β γ δ : Type}

/-! ## Following -/

/-- The second failure has the reason of the first one, at a place of its own. -/
inductive SameReason : ParseFailure → ParseFailure → Prop
  | fault (why : ParseFault) (pos pos' : Pos) : SameReason (.fault why pos) (.fault why pos')
  | numeral (why : NumeralFault) : SameReason (.numeral why) (.numeral why)

/-- How the readings of two texts are compared: which of their states belong together, and whether
what is refused in the first text has to be refused in the second one for the same reason. -/
structure Alignment where
  Aligned : ParseState → ParseState → Prop
  strict : Prop

instance : CoeFun Alignment fun _ => ParseState → ParseState → Prop := ⟨Alignment.Aligned⟩

/-- Only what is read in the first text is followed. -/
abbrev Alignment.loose (Aligned : ParseState → ParseState → Prop) : Alignment := ⟨Aligned, False⟩

/-- If `p` returns from the first state something that is not `bad`, then `p'` returns from the
second one, unless its rounds run out; the results are related by `ρ`, and the states at the end by
`R`. If it returns something `bad`, then `p'` fails as `failure` tells, or ends anyhow if it tells
nothing; a strict comparison does not allow this. -/
structure FollowsUnless (R : Alignment) (failure : Option ParseFailure) (bad : α → Prop)
    (s s' : ParseState) (p : Parse α) (p' : Parse β) (ρ : α → β → Prop) : Prop where
  ok : ∀ a s₁, p s = .ok (a, s₁) →
    p' s' = .error .outOfTokens ∨
    (¬ bad a ∧ ∃ b s₁', p' s' = .ok (b, s₁') ∧ ρ a b ∧ R s₁ s₁') ∨
    (¬ R.strict ∧ bad a ∧ ∀ e ∈ failure, p' s' = .error e)
  error : R.strict → ∀ e, p s = .error e →
    e = .outOfTokens ∨ p' s' = .error .outOfTokens ∨ ∃ e', p' s' = .error e' ∧ SameReason e e'

/-- The same if nothing is bad. -/
abbrev FollowsAt (R : Alignment) (s s' : ParseState) (p : Parse α) (p' : Parse β)
    (ρ : α → β → Prop) : Prop :=
  FollowsUnless R none (fun _ => False) s s' p p' ρ

/-- The same from all states that `R` relates. -/
def Follows (R : Alignment) (p : Parse α) (p' : Parse β) (ρ : α → β → Prop) : Prop :=
  ∀ s s', R s s' → FollowsAt R s s' p p' ρ

/-- Both results look the same. -/
def SameBy (view : α → γ) (a b : α) : Prop := view b = view a

/-- `P` holds of what the reader returns, wherever it starts. -/
def Returns (p : Parse α) (P : α → Prop) : Prop :=
  ∀ s a s', p s = .ok (a, s') → P a

namespace Returns

variable {P : α → Prop}

theorem pure {a : α} (h : P a) : Returns (Pure.pure a) P := by
  intro s a' s' hs
  cases hs
  exact h

theorem fail {failure : ParseFailure} : Returns (Parse.fail failure : Parse α) P := by
  intro s a s' hs
  cases hs

/-- What comes before the reader that matters is passed over. -/
theorem andThen {p : Parse β} {f : β → Parse α} (hf : ∀ b, Returns (f b) P) :
    Returns (p >>= f) P := by
  intro s a s' hs
  obtain ⟨b, s₁, -, ha⟩ := bind_eq_ok hs
  exact hf b s₁ a s' ha

end Returns

theorem bind_of_eq_error {f : α → Parse β} {e : ParseFailure} (h : p s = .error e) :
    (p >>= f) s = .error e := by
  simp only [Bind.bind, StateT.bind, h, Except.bind]

section NextToken

variable {s : ParseState} {t : Token} {ts : List Token} {kind : TokenKind}
  (hrest : s.rest = t :: ts)

include hrest

theorem accept_of_kind (hkind : t.kind = kind) :
    accept kind s = .ok (some t, { s with last := t, rest := ts }) := by
  rw [accept, bind_of_eq_ok (peek_of_rest hrest), if_pos hkind, bind_of_eq_ok (skip_of_rest hrest)]
  rfl

theorem accept_of_ne (hkind : t.kind ≠ kind) : accept kind s = .ok (none, s) := by
  rw [accept, bind_of_eq_ok (peek_of_rest hrest), if_neg hkind]
  rfl

theorem expect_of_kind (hkind : t.kind = kind) :
    expect kind s = .ok (t, { s with last := t, rest := ts }) := by
  rw [expect, bind_of_eq_ok (peek_of_rest hrest), if_pos hkind, bind_of_eq_ok (skip_of_rest hrest)]
  rfl

theorem expect_of_ne (hkind : t.kind ≠ kind) :
    expect kind s = .error (.fault (.expected kind t.kind) t.pos) := by
  rw [expect, bind_of_eq_ok (peek_of_rest hrest), if_neg hkind]
  rfl

theorem nextIs_of_kind (hkind : t.kind = kind) : nextIs kind s = .ok (true, s) := by
  rw [nextIs, bind_of_eq_ok (peek_of_rest hrest), decide_eq_true hkind]
  rfl

theorem nextIs_of_ne (hkind : t.kind ≠ kind) : nextIs kind s = .ok (false, s) := by
  rw [nextIs, bind_of_eq_ok (peek_of_rest hrest), decide_eq_false hkind]
  rfl

end NextToken

/-- How a clause is read: there is none, it is bare, it is bare and a word behind it is skipped, or
it names types. -/
inductive ClauseRun (mayDeclare : Bool) (s : ParseState) : Option (Clause Span) → ParseState → Prop
  | none {t : Token} {ts : List Token} (hrest : s.rest = t :: ts)
      (ht : t.kind ≠ .keyword .raises) : ClauseRun mayDeclare s none s
  | bare {t u : Token} {ts : List Token} (hrest : s.rest = t :: u :: ts)
      (ht : t.kind = .keyword .raises) (hparen : u.kind ≠ .symbol .lparen)
      (hword : u.kind = .ident → mayDeclare = true) :
      ClauseRun mayDeclare s (some ⟨t.span, []⟩) { s with last := t, rest := u :: ts }
  | word {t u : Token} {ts : List Token} (hrest : s.rest = t :: u :: ts)
      (ht : t.kind = .keyword .raises) (hu : u.kind = .ident) (hdeclare : mayDeclare = false) :
      ClauseRun mayDeclare s (some ⟨t.span, []⟩)
        { s with last := u, rest := ts, skipped := s.skipped ++ [⟨u.value, u.pos⟩] }
  | typed {t u : Token} {ts : List Token} {names : List String} {used rest : List Token}
      (hrest : s.rest = t :: u :: ts) (ht : t.kind = .keyword .raises)
      (hu : u.kind = .symbol .lparen)
      (hnames : ClauseReading.names ts = .ok (names, used, rest)) :
      ClauseRun mayDeclare s (some ⟨⟨t.pos, (used.getLastD u).span.stop⟩, names⟩)
        { s with last := used.getLastD u, rest }

theorem clause_eq_ok {mayDeclare : Bool} {s s₁ : ParseState} {c : Option (Clause Span)}
    (h : clause mayDeclare s = .ok (c, s₁)) : ClauseRun mayDeclare s c s₁ := by
  obtain ⟨last, rest, scopes, skipped⟩ := s
  rw [clause] at h
  split at h
  · rename_i r hread
    cases h
    dsimp only at hread
    unfold ClauseReading.read at hread
    split at hread
    · cases hread
    · rename_i t ts
      split at hread
      · rename_i ht
        unfold ClauseReading.afterRaises at hread
        split at hread
        · cases hread
        · rename_i u us
          dsimp only at hread
          split at hread
          · rename_i hu
            obtain ⟨⟨names, used, others⟩, hnames, heq⟩ := except_bind_eq_ok hread
            cases heq
            simp only [Option.toList_none, List.append_nil, List.getLastD_cons]
            exact .typed rfl ht hu hnames
          · rename_i hparen
            split at hread
            · rename_i hword
              cases hread
              rw [Bool.and_eq_true, decide_eq_true_eq, Bool.not_eq_true'] at hword
              exact .word rfl ht hword.1 hword.2
            · rename_i hword
              cases hread
              simp only [Option.toList_none, List.append_nil]
              exact .bare rfl ht hparen (by simpa using hword)
      · rename_i ht
        cases hread
        simp only [Option.toList_none, List.append_nil]
        exact .none rfl ht
  · cases h

theorem ClauseRun.eq_ok {mayDeclare : Bool} {s s₁ : ParseState} {c : Option (Clause Span)}
    (h : ClauseRun mayDeclare s c s₁) : clause mayDeclare s = .ok (c, s₁) := by
  obtain ⟨last, rest, scopes, skipped⟩ := s
  cases h with
  | none hrest ht =>
    cases hrest
    simp [clause, ClauseReading.read, ht]
  | @bare t u ts hrest ht hparen hword =>
    cases hrest
    have hnone : ¬ (u.kind = .ident ∧ mayDeclare = false) := fun h => by
      simp [hword h.1] at h
    simp [clause, ClauseReading.read, ClauseReading.afterRaises, ht, hparen, hnone]
  | word hrest ht hu hdeclare =>
    cases hrest
    simp [clause, ClauseReading.read, ClauseReading.afterRaises, ht, hu, hdeclare]
  | typed hrest ht hu hnames =>
    cases hrest
    simp only [clause, ClauseReading.read, ClauseReading.afterRaises, ht, hu, hnames, if_true,
      Bind.bind, Except.bind, Pure.pure, Except.pure, Option.toList_none, List.append_nil,
      List.getLastD_cons]

variable {Q R : Alignment} {failure : Option ParseFailure} {bad : α → Prop} {worse : γ → Prop}
  {s s' : ParseState} {p : Parse α} {p' : Parse β} {ρ ρ' : α → β → Prop} {f : α → Parse γ}
  {f' : β → Parse δ} {σ : γ → δ → Prop}

namespace FollowsUnless

/-- Only the runs from the two states count. -/
theorem congr {q : Parse α} {q' : Parse β} {t t' : ParseState}
    (h : FollowsUnless R failure bad t t' q q' ρ) (hp : p s = q t) (hp' : p' s' = q' t') :
    FollowsUnless R failure bad s s' p p' ρ :=
  ⟨hp ▸ hp' ▸ h.ok, hp ▸ hp' ▸ h.error⟩

/-- Both readers return. -/
theorem run {a : α} {b : β} {s₁ s₁' : ParseState} (hp : p s = .ok (a, s₁))
    (hp' : p' s' = .ok (b, s₁')) (hgood : ¬ bad a) (hab : ρ a b) (hs₁ : R s₁ s₁') :
    FollowsUnless R failure bad s s' p p' ρ where
  ok a' t ha := by
    cases hp.symm.trans ha
    exact .inr (.inl ⟨hgood, b, s₁', hp', hab, hs₁⟩)
  error _ e he := by cases hp.symm.trans he

theorem pure {a : α} {b : β} (hs : R s s') (h : ρ a b) (hgood : ¬ bad a) :
    FollowsUnless R failure bad s s' (Pure.pure a) (Pure.pure b) ρ :=
  run rfl rfl hgood h hs

/-- Both readers refuse what comes, for the same reason. -/
theorem refuse {why : ParseFault} {pos pos' : Pos} (hp : p s = .error (.fault why pos))
    (hp' : p' s' = .error (.fault why pos')) : FollowsUnless R failure bad s s' p p' ρ where
  ok a t ha := by cases hp.symm.trans ha
  error _ e he := by
    cases hp.symm.trans he
    exact .inr (.inr ⟨_, hp', .fault why pos pos'⟩)

theorem fault (why : ParseFault) (pos pos' : Pos) :
    FollowsUnless R failure bad s s' (faultAt pos why) (faultAt pos' why) ρ :=
  refuse rfl rfl

theorem numeral (why : NumeralFault) :
    FollowsUnless R failure bad s s' (Parse.fail (.numeral why) : Parse α)
      (Parse.fail (.numeral why) : Parse β) ρ where
  ok a t ha := by cases ha
  error _ e he := by
    cases he
    exact .inr (.inr ⟨_, rfl, .numeral why⟩)

/-- The rounds of the first reader run out. -/
theorem spent (hp : p s = .error .outOfTokens) : FollowsUnless R failure bad s s' p p' ρ where
  ok a t ha := by cases hp.symm.trans ha
  error _ e he := by
    cases hp.symm.trans he
    exact .inl rfl

/-- The rounds of the second reader run out. -/
theorem outOfTokens (hp' : p' s' = .error .outOfTokens) :
    FollowsUnless R failure bad s s' p p' ρ :=
  ⟨fun _ _ _ => .inl hp', fun _ _ _ => .inr (.inl hp')⟩

/-- What is done behind a reader that may depart. What it returned must not get better. -/
theorem andThen (h : FollowsUnless Q failure bad s s' p p' ρ) (hstrict : R.strict → Q.strict)
    (hworse : ∀ a, bad a → Returns (f a) worse)
    (hf : ∀ a b, ρ a b → ¬ bad a → ∀ s s', Q s s' →
      FollowsUnless R failure worse s s' (f a) (f' b) σ) :
    FollowsUnless R failure worse s s' (p >>= f) (p' >>= f') σ where
  ok c s₂ hc := by
    obtain ⟨a, s₁, ha, hc⟩ := bind_eq_ok hc
    rcases h.ok a s₁ ha with hout | ⟨hgood, b, s₁', hb, hab, hs₁⟩ | ⟨hloose, hbad, hfail⟩
    · exact .inl (bind_of_eq_error hout)
    · rw [bind_of_eq_ok hb]
      exact (hf a b hab hgood s₁ s₁' hs₁).ok c s₂ hc
    · exact .inr (.inr ⟨fun hR => hloose (hstrict hR), hworse a hbad s₁ c s₂ hc,
        fun e he => bind_of_eq_error (hfail e he)⟩)
  error hR e he := by
    rcases bind_eq_error he with he | ⟨a, s₁, ha, he⟩
    · rcases h.error (hstrict hR) e he with hout | hout | ⟨e', he', hsame⟩
      · exact .inl hout
      · exact .inr (.inl (bind_of_eq_error hout))
      · exact .inr (.inr ⟨e', bind_of_eq_error he', hsame⟩)
    · rcases h.ok a s₁ ha with hout | ⟨hgood, b, s₁', hb, hab, hs₁⟩ | ⟨hloose, -⟩
      · exact .inr (.inl (bind_of_eq_error hout))
      · rw [bind_of_eq_ok hb]
        exact (hf a b hab hgood s₁ s₁' hs₁).error hR e he
      · exact absurd (hstrict hR) hloose

/-- What is put in front of a list. The list departs if that does, or if it did before. -/
theorem cons {γ : Type} {view : α → γ} {bad : List α → Prop} {q q' : Parse (List α)} {a a' : α}
    (h : FollowsUnless R failure bad s s' q q' (SameBy (List.map view)))
    (hbad : ∀ as, bad (a :: as) ↔ bad [a] ∨ bad as) (ha : SameBy view a a') (hgood : ¬ bad [a]) :
    FollowsUnless R failure bad s s' (q >>= fun as => Pure.pure (a :: as))
      (q' >>= fun as => Pure.pure (a' :: as)) (SameBy (List.map view)) := by
  refine h.andThen id (fun as has => .pure ((hbad as).2 (.inr has)))
    fun as as' has hrest s s' hs => .pure hs (congrArg₂ List.cons ha has) ?_
  exact fun h => ((hbad as).1 h).elim hgood hrest

/-- In a comparison that is not strict, the first reader may be assumed to return. -/
theorem ofOk (hR : ¬ R.strict)
    (h : ∀ a s₁, p s = .ok (a, s₁) → FollowsUnless R failure bad s s' p p' ρ) :
    FollowsUnless R failure bad s s' p p' ρ :=
  ⟨fun a s₁ ha => (h a s₁ ha).ok a s₁ ha, fun hstrict => absurd hstrict hR⟩

end FollowsUnless

namespace FollowsAt

theorem pure {a : α} {b : β} (hs : R s s') (h : ρ a b) :
    FollowsAt R s s' (Pure.pure a) (Pure.pure b) ρ :=
  FollowsUnless.pure hs h id

theorem returns (h : FollowsAt R s s' p p' ρ) {a : α} {s₁ : ParseState}
    (ha : p s = .ok (a, s₁)) :
    p' s' = .error .outOfTokens ∨ ∃ b s₁', p' s' = .ok (b, s₁') ∧ ρ a b ∧ R s₁ s₁' := by
  rcases h.ok a s₁ ha with hout | ⟨-, hb⟩ | ⟨-, hbad, -⟩
  · exact .inl hout
  · exact .inr hb
  · exact hbad.elim

/-- A comparison that is not strict is about what is returned only. -/
theorem ofReturns (hR : ¬ R.strict)
    (h : ∀ a s₁, p s = .ok (a, s₁) →
      p' s' = .error .outOfTokens ∨ ∃ b s₁', p' s' = .ok (b, s₁') ∧ ρ a b ∧ R s₁ s₁') :
    FollowsAt R s s' p p' ρ where
  ok a s₁ ha := (h a s₁ ha).imp_right fun hb => .inl ⟨id, hb⟩
  error hstrict := absurd hstrict hR

/-- A reader that follows may be said to depart where it need not. -/
theorem orDepart (hR : ¬ R.strict) (h : FollowsAt R s s' p p' ρ) :
    FollowsUnless R none bad s s' p p' ρ where
  ok a s₁ ha := by
    by_cases hbad : bad a
    · exact .inr (.inr ⟨hR, hbad, by simp⟩)
    · exact (h.returns ha).imp_right fun hb => .inl ⟨hbad, hb⟩
  error hstrict := absurd hstrict hR

/-- What is done behind a reader that follows. -/
theorem bindUnless (h : FollowsAt Q s s' p p' ρ) (hstrict : R.strict → Q.strict)
    (hf : ∀ a b, ρ a b → ∀ s s', Q s s' → FollowsUnless R failure worse s s' (f a) (f' b) σ) :
    FollowsUnless R failure worse s s' (p >>= f) (p' >>= f') σ := by
  have hunless : FollowsUnless Q failure (fun _ => False) s s' p p' ρ :=
    ⟨fun a s₁ ha => (h.returns ha).imp_right fun hb => .inl ⟨id, hb⟩, h.error⟩
  exact hunless.andThen hstrict (fun _ hbad => hbad.elim) fun a b hab _ => hf a b hab

theorem bind (h : FollowsAt R s s' p p' ρ) (hf : ∀ a b, ρ a b → Follows R (f a) (f' b) σ) :
    FollowsAt R s s' (p >>= f) (p' >>= f') σ :=
  h.bindUnless id hf

/-- A token that only serves as the start of a span. -/
theorem start {f : Token → Parse γ} {f' : Token → Parse δ}
    (hf : ∀ t t', FollowsAt R s s' (f t) (f' t') σ) :
    FollowsAt R s s' (peek >>= f) (peek >>= f') σ :=
  (hf (s.rest.headD s.last) (s'.rest.headD s'.last)).congr rfl rfl

end FollowsAt

namespace Follows

theorem pure {a : α} {b : β} (h : ρ a b) : Follows R (Pure.pure a) (Pure.pure b) ρ :=
  fun _ _ hs => .pure hs h

theorem bind (h : Follows R p p' ρ) (hf : ∀ a b, ρ a b → Follows R (f a) (f' b) σ) :
    Follows R (p >>= f) (p' >>= f') σ :=
  fun s s' hs => (h s s' hs).bind hf

theorem fault (why : ParseFault) (pos pos' : Pos) :
    Follows R (faultAt pos why) (faultAt pos' why) ρ :=
  fun _ _ _ => .fault why pos pos'

theorem spent : Follows R (Parse.fail .outOfTokens : Parse α) p' ρ := fun _ _ _ => .spent rfl

theorem outOfTokens : Follows R p (Parse.fail .outOfTokens : Parse β) ρ :=
  fun _ _ _ => .outOfTokens rfl

theorem ite {c : Prop} [Decidable c] {p₁ p₂ : Parse α} {p₁' p₂' : Parse β}
    (h₁ : c → Follows R p₁ p₁' ρ) (h₂ : ¬ c → Follows R p₂ p₂' ρ) :
    Follows R (if c then p₁ else p₂) (if c then p₁' else p₂') ρ := by
  split
  · exact h₁ ‹_›
  · exact h₂ ‹_›

theorem previous : Follows R previous previous fun _ _ => True :=
  fun _ _ hs => .run rfl rfl id trivial hs

theorem remaining : Follows R remaining remaining fun _ _ => True :=
  fun _ _ hs => .run rfl rfl id trivial hs

/-- Spans are places. -/
theorem spanFrom (start start' : Token) :
    Follows R (spanFrom start) (spanFrom start') fun _ _ => True :=
  previous.bind fun _ _ _ => .pure trivial

/-- What is returned with a span of its own. -/
theorem spanned {start start' : Token} {g : Span → α} {g' : Span → β}
    (h : ∀ span span', ρ (g span) (g' span')) :
    Follows R (Parse.spanFrom start >>= fun span => Pure.pure (g span))
      (Parse.spanFrom start' >>= fun span => Pure.pure (g' span)) ρ :=
  (spanFrom start start').bind fun _ _ _ => .pure (h _ _)

end Follows

/-! ## Tracking -/

/-- The first token is a semicolon that the second text has not, and the second token stands behind
a member. -/
structure Skewed (K : TokenKind → Bool) (t t' : Token) : Prop where
  kinds : K (.symbol .semicolon) = false
  semicolon : t.kind = .symbol .semicolon
  follows : t'.kind.followsMember = true

/-- Neither of the two is of a kind that stands elsewhere in a member. -/
theorem Skewed.kind_ne {K : TokenKind → Bool} {t t' : Token} {kind : TokenKind} (h : Skewed K t t')
    (hkind : K (.symbol .semicolon) = true ∨ kind.inMember = true) :
    t.kind ≠ kind ∧ t'.kind ≠ kind := by
  rcases hkind with hkind | hkind
  · rw [h.kinds] at hkind
    cases hkind
  · simp only [TokenKind.inMember, Bool.and_eq_true, Bool.not_eq_true', bne_iff_ne] at hkind
    refine ⟨fun heq => hkind.2 ?_, fun heq => ?_⟩
    · rw [← heq, h.semicolon]
    · have hfollows := h.follows
      rw [heq, hkind.1] at hfollows
      cases hfollows

/-- Tokens of the kinds `K` can be taken from both texts, wherever `R` relates the states, and words
that are skipped in both can be noted. A strict comparison needs the same tokens. -/
structure Stepping (place : Pos → Pos) (K : TokenKind → Bool) (R : Alignment) : Prop where
  semicolons : R.strict → K (.symbol .semicolon) = true
  types : ∀ kind, kind.ofType = true → K kind = true
  scopes : ∀ {s s'}, R s s' → s'.scopes = s.scopes
  rescope : ∀ {s s'}, R s s' → ∀ scopes, R { s with scopes } { s' with scopes }
  head : ∀ {s s'}, R s s' → ∃ t ts t' ts', s.rest = t :: ts ∧ s'.rest = t' :: ts' ∧
    (t.Recurs place t' ∨ Skewed K t t')
  take : ∀ {s s' t ts t' ts'}, R s s' → s.rest = t :: ts → s'.rest = t' :: ts' →
    t.Recurs place t' → K t.kind = true →
    R { s with last := t, rest := ts } { s' with last := t', rest := ts' }
  note : ∀ {s s'}, R s s' → ∀ word pos, R { s with skipped := s.skipped ++ [⟨word, pos⟩] }
    { s' with skipped := s'.skipped ++ [⟨word, place pos⟩] }

/-- Clauses follow each other too. -/
structure Tracking (place : Pos → Pos) (K : TokenKind → Bool) (R : Alignment) : Prop
    extends Stepping place K R where
  clause : Follows R (clause false) (clause false) (SameBy (Option.map (Clause.map unplaced)))

/-- The next tokens of related states, where they are the same. -/
structure Ahead (place : Pos → Pos) (R : Alignment) (t t' : Token) (s s' : ParseState) :
    Prop where
  related : R s s'
  rest : ∃ ts, s.rest = t :: ts
  rest' : ∃ ts', s'.rest = t' :: ts'
  recurs : t.Recurs place t'

theorem Ahead.nextIs {place : Pos → Pos} {t t' : Token} (hs : Ahead place R t t' s s')
    (kind : TokenKind) : FollowsAt R s s' (nextIs kind) (nextIs kind) fun b b' => b' = b := by
  obtain ⟨ts, hrest⟩ := hs.rest
  obtain ⟨ts', hrest'⟩ := hs.rest'
  refine .run rfl rfl id (decide_eq_decide.2 ?_) hs.related
  rw [hrest, hrest', List.headD_cons, List.headD_cons, hs.recurs.kind]

/-- The next token is expected. Taking it may lead to states that are related otherwise. -/
theorem Ahead.expect {place : Pos → Pos} {t t' : Token} (hs : Ahead place Q t t' s s')
    {kind : TokenKind}
    (htake : t.kind = kind → ∀ ts ts', s.rest = t :: ts → s'.rest = t' :: ts' →
      R { s with last := t, rest := ts } { s' with last := t', rest := ts' }) :
    FollowsAt R s s' (expect kind) (expect kind) (Token.Recurs place) := by
  obtain ⟨ts, hrest⟩ := hs.rest
  obtain ⟨ts', hrest'⟩ := hs.rest'
  by_cases ht : t.kind = kind
  · exact .run (expect_of_kind hrest ht) (expect_of_kind hrest' (hs.recurs.kind.trans ht)) id
      hs.recurs (htake ht ts ts' hrest hrest')
  · have hrefused := expect_of_ne hrest' (hs.recurs.kind ▸ ht)
    rw [hs.recurs.kind] at hrefused
    exact .refuse (expect_of_ne hrest ht) hrefused

namespace Stepping

variable {place : Pos → Pos} {K : TokenKind → Bool} {t t' : Token} {kind : TokenKind}
  {view : α → γ} {q q' : Parse α} (h : Stepping place K R)

include h

/-- A token that can be taken is next in both texts. -/
theorem recurs (hs : R s s') {ts : List Token} (hrest : s.rest = t :: ts)
    (hkind : K t.kind = true) :
    ∃ t' ts', s'.rest = t' :: ts' ∧ t.Recurs place t' ∧
      R { s with last := t, rest := ts } { s' with last := t', rest := ts' } := by
  obtain ⟨u, us, u', us', hu, hu', hrecurs⟩ := h.head hs
  rw [hrest, List.cons.injEq] at hu
  obtain ⟨rfl, rfl⟩ := hu
  rcases hrecurs with hrecurs | hskew
  · exact ⟨u', us', hu', hrecurs, h.take hs hrest hu' hrecurs hkind⟩
  · rw [hskew.semicolon, hskew.kinds] at hkind
    cases hkind

theorem not_strict (hskew : Skewed K t t') : ¬ R.strict := by
  intro hR
  have hkinds := h.semicolons hR
  rw [hskew.kinds] at hkinds
  cases hkinds

/-- The names of a clause are read from both texts. -/
theorem names {ts : List Token} {ns : List String} {used rest : List Token}
    (hnames : ClauseReading.names ts = .ok (ns, used, rest)) (hs : R s s') (hrest : s.rest = ts) :
    ∃ used' rest', ClauseReading.names s'.rest = .ok (ns, used', rest') ∧
      R { s with last := used.getLastD s.last, rest }
        { s' with last := used'.getLastD s'.last, rest := rest' } := by
  fun_induction ClauseReading.names ts generalizing s s' ns used rest with
  | case3 t ht u us hu ih =>
    obtain ⟨⟨ms, more, others⟩, hmore, heq⟩ := except_bind_eq_ok hnames
    cases heq
    obtain ⟨t', ts', hrest', ht', hs₁⟩ := h.recurs hs hrest (h.types _ (by rw [ht]; rfl))
    obtain ⟨u', us', hus', hu', hs₂⟩ := h.recurs hs₁ rfl (h.types _ (by rw [hu]; rfl))
    obtain ⟨used', rest', hread, hs₃⟩ := ih hmore hs₂ rfl
    dsimp only at hus' hread
    subst hus'
    refine ⟨t' :: u' :: used', rest', ?_, by simpa only [List.getLastD_cons] using hs₃⟩
    rw [hrest', ClauseReading.names, if_pos (ht'.kind.trans ht), if_pos (hu'.kind.trans hu), hread,
      ht'.value]
    rfl
  | case4 t ht u us hcomma hu =>
    cases hnames
    obtain ⟨t', ts', hrest', ht', hs₁⟩ := h.recurs hs hrest (h.types _ (by rw [ht]; rfl))
    obtain ⟨u', us', hus', hu', hs₂⟩ := h.recurs hs₁ rfl (h.types _ (by rw [hu]; rfl))
    dsimp only at hus'
    subst hus'
    refine ⟨[t', u'], us', ?_, hs₂⟩
    rw [hrest', ClauseReading.names, if_pos (ht'.kind.trans ht), if_neg (hu'.kind ▸ hcomma),
      if_pos (hu'.kind.trans hu), ht'.value]
  | _ => cases hnames

/-- No clause stands next in either text. -/
theorem clauseNone (hs : R s s') (mayDeclare : Bool)
    (ht : ∀ t ts, s.rest = t :: ts → t.kind ≠ .keyword .raises) :
    FollowsAt R s s' (clause mayDeclare) (clause mayDeclare)
      (SameBy (Option.map (Clause.map unplaced))) := by
  obtain ⟨t, ts, t', ts', hrest, hrest', hrecurs⟩ := h.head hs
  have hne : t'.kind ≠ .keyword .raises := by
    rcases hrecurs with hrecurs | hskew
    · exact hrecurs.kind ▸ ht t ts hrest
    · exact (hskew.kind_ne (.inr rfl)).2
  exact .run (ClauseRun.eq_ok (.none hrest (ht t ts hrest))) (ClauseRun.eq_ok (.none hrest' hne)) id
    rfl hs

/-- The clause that starts with the next tokens, if the word behind a bare one is skipped in both
texts or in none. -/
theorem clauseAhead (hR : ¬ R.strict) {mayDeclare : Bool} {ts ts' : List Token}
    (hrest : s.rest = t :: ts)
    (hrest' : s'.rest = t' :: ts') (ht : t.kind = .keyword .raises)
    (ht' : t'.kind = .keyword .raises)
    (hs₁ : R { s with last := t, rest := ts } { s' with last := t', rest := ts' })
    (hword : ∀ u us, ts' = u :: us → Skewed K (ts.headD t) u → u.kind = .ident →
      mayDeclare = true) :
    FollowsAt R s s' (clause mayDeclare) (clause mayDeclare)
      (SameBy (Option.map (Clause.map unplaced))) := by
  refine .ofReturns hR fun c s₂ hc => ?_
  obtain ⟨u, us, u', us', hu, hu', hrecurs⟩ := h.head hs₁
  dsimp only at hu hu'
  subst hu hu'
  cases (clause_eq_ok hc) with
  | none hrest₁ hne =>
    rw [hrest, List.cons.injEq] at hrest₁
    exact absurd ht (hrest₁.1 ▸ hne)
  | bare hrest₁ _ hparen hbare =>
    obtain ⟨rfl, rfl, rfl⟩ : _ ∧ _ ∧ _ := by simpa [hrest] using hrest₁
    refine .inr ⟨some ⟨t'.span, []⟩, _, ClauseRun.eq_ok (.bare hrest' ht' ?_ ?_), rfl, hs₁⟩
    · rcases hrecurs with hrecurs | hskew
      · exact hrecurs.kind ▸ hparen
      · exact (hskew.kind_ne (.inr rfl)).2
    · rcases hrecurs with hrecurs | hskew
      · exact hrecurs.kind ▸ hbare
      · exact hword u' us' rfl hskew
  | word hrest₁ _ hident hdeclare =>
    obtain ⟨rfl, rfl, rfl⟩ : _ ∧ _ ∧ _ := by simpa [hrest] using hrest₁
    obtain ⟨v, vs, hv, hrecurs, hs₂⟩ := h.recurs hs₁ rfl (h.types _ (by rw [hident]; rfl))
    cases hv
    refine .inr ⟨_, _, ClauseRun.eq_ok (.word hrest' ht' (hrecurs.kind.trans hident) hdeclare), rfl,
      ?_⟩
    rw [hrecurs.value, hrecurs.pos]
    exact h.note hs₂ _ _
  | typed hrest₁ _ hparen hnames =>
    obtain ⟨rfl, rfl, rfl⟩ : _ ∧ _ ∧ _ := by simpa [hrest] using hrest₁
    obtain ⟨v, vs, hv, hrecurs, hs₂⟩ := h.recurs hs₁ rfl (h.types _ (by rw [hparen]; rfl))
    cases hv
    obtain ⟨used', rest', hnames', hs₃⟩ := h.names hnames hs₂ rfl
    exact .inr ⟨_, _, ClauseRun.eq_ok (.typed hrest' ht' (hrecurs.kind.trans hparen) hnames'), rfl,
      hs₃⟩

/-! ### Single tokens -/

theorem expect (hkind : K kind = true) :
    Follows R (expect kind) (expect kind) (Token.Recurs place) := by
  intro s s' hs
  obtain ⟨t, ts, t', ts', hrest, hrest', hrecurs | hskew⟩ := h.head hs
  · have hahead : Ahead place R t t' s s' := ⟨hs, ⟨ts, hrest⟩, ⟨ts', hrest'⟩, hrecurs⟩
    exact hahead.expect fun ht us us' hus hus' => h.take hs hus hus' hrecurs (ht ▸ hkind)
  · refine .ofReturns (h.not_strict hskew) fun u s₁ hu => ?_
    obtain ⟨us, hrest₁, hu, -⟩ := expect_eq_ok hu
    rw [hrest, List.cons.injEq] at hrest₁
    rw [← hu, ← hrest₁.1, hskew.semicolon, hskew.kinds] at hkind
    cases hkind

theorem expectName :
    Follows R expectName expectName (Token.Recurs place) :=
  h.expect (h.types _ rfl)

theorem nextIs (hkind : K (.symbol .semicolon) = true ∨ kind.inMember = true) :
    Follows R (nextIs kind) (nextIs kind) fun b b' => b' = b := by
  intro s s' hs
  obtain ⟨t, ts, t', ts', hrest, hrest', hrecurs | hskew⟩ := h.head hs
  · exact Ahead.nextIs ⟨hs, ⟨ts, hrest⟩, ⟨ts', hrest'⟩, hrecurs⟩ kind
  · obtain ⟨hne, hne'⟩ := hskew.kind_ne hkind
    exact .run (nextIs_of_ne hrest hne) (nextIs_of_ne hrest' hne') id rfl hs

theorem acceptAhead (hs : Ahead place R t t' s s') (hK : K kind = true) :
    FollowsAt R s s' (accept kind) (accept kind) (Option.Rel (Token.Recurs place)) := by
  obtain ⟨ts, hrest⟩ := hs.rest
  obtain ⟨ts', hrest'⟩ := hs.rest'
  by_cases hkind : t.kind = kind
  · exact .run (accept_of_kind hrest hkind) (accept_of_kind hrest' (hs.recurs.kind.trans hkind)) id
      (.some hs.recurs) (h.take hs.related hrest hrest' hs.recurs (hkind ▸ hK))
  · exact .run (accept_of_ne hrest hkind) (accept_of_ne hrest' (hs.recurs.kind ▸ hkind)) id .none
      hs.related

theorem accept (hK : K kind = true)
    (hkind : K (.symbol .semicolon) = true ∨ kind.inMember = true) :
    Follows R (accept kind) (accept kind) (Option.Rel (Token.Recurs place)) := by
  intro s s' hs
  obtain ⟨t, ts, t', ts', hrest, hrest', hrecurs | hskew⟩ := h.head hs
  · exact h.acceptAhead ⟨hs, ⟨ts, hrest⟩, ⟨ts', hrest'⟩, hrecurs⟩ hK
  · obtain ⟨hne, hne'⟩ := hskew.kind_ne hkind
    exact .run (accept_of_ne hrest hne) (accept_of_ne hrest' hne') id .none hs

/-! ### Looking at tokens -/

omit h in
/-- The next tokens are looked at. -/
theorem peekAhead (hs : Ahead place Q t t' s s') {f : Token → Parse γ} {f' : Token → Parse δ}
    (hf : FollowsUnless R failure worse s s' (f t) (f' t') σ) :
    FollowsUnless R failure worse s s' (Parse.peek >>= f) (Parse.peek >>= f') σ := by
  obtain ⟨ts, hrest⟩ := hs.rest
  obtain ⟨ts', hrest'⟩ := hs.rest'
  exact hf.congr (bind_of_eq_ok (peek_of_rest hrest)) (bind_of_eq_ok (peek_of_rest hrest'))

/-- With semicolons among the kinds the next token is the same in both texts. -/
theorem ahead (hK : K (.symbol .semicolon) = true) (hs : R s s') :
    ∃ t t', Ahead place R t t' s s' := by
  obtain ⟨t, ts, t', ts', hrest, hrest', hrecurs | hskew⟩ := h.head hs
  · exact ⟨t, t', hs, ⟨ts, hrest⟩, ⟨ts', hrest'⟩, hrecurs⟩
  · rw [hskew.kinds] at hK
    cases hK

theorem peek (hK : K (.symbol .semicolon) = true)
    {f : Token → Parse γ} {f' : Token → Parse δ}
    (hf : ∀ t t' s s', Ahead place R t t' s s' → FollowsAt R s s' (f t) (f' t') σ) :
    Follows R (Parse.peek >>= f) (Parse.peek >>= f') σ := by
  intro s s' hs
  obtain ⟨t, t', hahead⟩ := h.ahead hK hs
  exact peekAhead hahead (hf t t' s s' hahead)

theorem skip (hs : Ahead place R t t' s s') (hkind : K t.kind = true)
    {f : Unit → Parse γ} {f' : Unit → Parse δ} (hf : Follows R (f ()) (f' ()) σ) :
    FollowsAt R s s' (Parse.skip >>= f) (Parse.skip >>= f') σ := by
  obtain ⟨ts, hrest⟩ := hs.rest
  obtain ⟨ts', hrest'⟩ := hs.rest'
  exact (hf _ _ (h.take hs.related hrest hrest' hs.recurs hkind)).congr
    (bind_of_eq_ok (skip_of_rest hrest)) (bind_of_eq_ok (skip_of_rest hrest'))

omit h in
theorem peekSecond_eq (s : ParseState) : ∃ u, Parse.peekSecond s = .ok (u, s) := by
  rw [Parse.peekSecond]
  split <;> exact ⟨_, rfl⟩

/-- The token after the next one is looked at. If the next one can be taken, it is the same in both
texts. -/
theorem peekSecond (hK : K (.symbol .semicolon) = true)
    (hs : Ahead place R t t' s s') {f : Token → Parse γ} {f' : Token → Parse δ}
    (hf : ∀ u u', (K t.kind = true → u'.kind = u.kind) → FollowsAt R s s' (f u) (f' u') σ) :
    FollowsAt R s s' (Parse.peekSecond >>= f) (Parse.peekSecond >>= f') σ := by
  obtain ⟨u, hu⟩ := peekSecond_eq s
  obtain ⟨u', hu'⟩ := peekSecond_eq s'
  have hkind : K t.kind = true → u'.kind = u.kind := by
    intro hkind
    obtain ⟨ts, hrest⟩ := hs.rest
    obtain ⟨ts', hrest'⟩ := hs.rest'
    obtain ⟨v, vs, v', vs', hv, hv', hrecurs | hskew⟩ :=
      h.head (h.take hs.related hrest hrest' hs.recurs hkind)
    · dsimp only at hv hv'
      subst hv hv'
      rw [Parse.peekSecond, hrest] at hu
      rw [Parse.peekSecond, hrest'] at hu'
      cases hu
      cases hu'
      exact hrecurs.kind
    · rw [hskew.kinds] at hK
      cases hK
  exact (hf u u' hkind).congr (bind_of_eq_ok hu) (bind_of_eq_ok hu')

/-! ### Names -/

theorem declare (name : String) (pos pos' : Pos) :
    Follows R (declare name pos) (declare name pos') fun _ _ => True := by
  intro s s' hs
  have hscopes := h.scopes hs
  unfold Parse.declare
  cases hcases : s.scopes with
  | nil => exact .run (by rw [hcases]) (by rw [hscopes, hcases]) id trivial (h.rescope hs _)
  | cons scope outer =>
    by_cases hname : name ∈ scope
    · exact .refuse (by rw [hcases]; exact if_pos hname)
        (by rw [hscopes, hcases]; exact if_pos hname)
    · exact .run (by rw [hcases]; exact if_neg hname)
        (by rw [hscopes, hcases]; exact if_neg hname) id trivial (h.rescope hs _)

theorem declareAll (names : List String) (pos pos' : Pos) :
    Follows R (declareAll names pos) (declareAll names pos') fun _ _ => True := by
  induction names with
  | nil => exact .pure trivial
  | cons name names ih => exact (h.declare name pos pos').bind fun _ _ _ => ih

theorem require (name : String) (pos pos' : Pos) :
    Follows R (require name pos) (require name pos') fun _ _ => True := by
  intro s s' hs
  have hscopes := h.scopes hs
  unfold Parse.require
  by_cases hname : s.scopes.any (name ∈ ·) = true
  · exact .run (by rw [if_pos hname]) (by rw [hscopes, if_pos hname]) id trivial hs
  · exact .refuse (by rw [if_neg hname]) (by rw [hscopes, if_neg hname])

theorem inScope (hp : Follows R p p' ρ) :
    Follows R (inScope p) (inScope p') ρ := by
  intro s s' hs
  have hinner := hp _ _ (h.rescope hs ([] :: s.scopes))
  unfold Parse.inScope
  constructor
  · intro a s₁ ha
    rw [h.scopes hs]
    split at ha
    · rename_i a s₁ hrun
      cases ha
      rcases hinner.returns hrun with hout | ⟨b, s₁', hb, hab, hs₁⟩
      · exact .inl (by rw [hout])
      · refine .inr (.inl ⟨id, b, _, by rw [hb], hab, ?_⟩)
        rw [h.scopes hs₁]
        exact h.rescope hs₁ _
    · cases ha
  · intro hR e he
    rw [h.scopes hs]
    split at he
    · cases he
    · rename_i hrun
      cases he
      rcases hinner.error hR e hrun with hout | hout | ⟨e', he', hsame⟩
      · exact .inl hout
      · exact .inr (.inl (by rw [hout]))
      · exact .inr (.inr ⟨e', by rw [he'], hsame⟩)

/-! ### Repetitions -/

variable (hq : Follows R q q' (SameBy view))

include hq

theorem sepTail (n n' : Nat) :
    Follows R (sepTail q n) (sepTail q' n') (SameBy (List.map view)) := by
  induction n generalizing n' with
  | zero => exact .spent
  | succ n ih =>
    cases n' with
    | zero => exact .outOfTokens
    | succ n' =>
      refine (h.accept (h.types _ rfl) (.inr rfl)).bind fun t t' ht => ?_
      cases ht with
      | none => exact .pure rfl
      | some =>
        refine hq.bind fun a a' ha => (ih n').bind fun as as' has => .pure ?_
        exact congrArg₂ List.cons ha has

theorem commaList :
    Follows R (commaList q) (commaList q') (SameBy (List.map view)) :=
  hq.bind fun _ _ ha => Follows.remaining.bind fun n n' _ =>
    (h.sepTail hq n n').bind fun _ _ has => .pure (congrArg₂ List.cons ha has)

theorem listUntil {close : Sign} (hK : K (.symbol close) = true)
    (hclose : K (.symbol .semicolon) = true ∨ (TokenKind.symbol close).inMember = true) :
    Follows R (listUntil close q) (listUntil close q') (SameBy (List.map view)) := by
  refine (h.nextIs hclose).bind fun closed closed' hclosed => ?_
  subst hclosed
  refine .ite (fun _ => ?_) fun _ => ?_
  · exact (h.expect hK).bind fun _ _ _ => .pure rfl
  · refine (h.commaList hq).bind fun as as' has => (h.expect hK).bind fun _ _ _ => .pure has

theorem untilKind (hK : K (.symbol .semicolon) = true) (n n' : Nat) :
    Follows R (untilKind kind q n) (untilKind kind q' n') (SameBy (List.map view)) := by
  induction n generalizing n' with
  | zero => exact .spent
  | succ n ih =>
    cases n' with
    | zero => exact .outOfTokens
    | succ n' =>
      refine (h.nextIs (.inl hK)).bind fun closed closed' hclosed => ?_
      subst hclosed
      refine .ite (fun _ => .pure rfl) fun _ => ?_
      refine hq.bind fun a a' ha => (ih n').bind fun as as' has => .pure ?_
      exact congrArg₂ List.cons ha has

end Stepping

end Parse

end RaisingEffects
