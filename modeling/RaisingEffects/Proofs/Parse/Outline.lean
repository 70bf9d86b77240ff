import RaisingEffects.Proofs.Parse.Departing

/-!
# Semicolons in interfaces

In a text that is read, a semicolon inside an interface ends a member, and what follows it could as
well follow the member itself.

* `Parse.Taken`: the kinds of the tokens that a reader takes.
* `Parse.Outlined inside tokens`: what is known of the semicolons inside interfaces, where the first
  of the tokens stands inside an interface or outside.
* `Parse.Surveys`: a reader passes over tokens that are outlined if those behind them are.
* `Program.ofTokens_outlined` is the result for programs.
-/

namespace RaisingEffects

/-- Whether the next token stands inside an interface, where this one does or does not. -/
def TokenKind.insideAfter (inside : Bool) : TokenKind → Bool
  | .keyword .interface => true
  | .symbol .rbrace => false
  | _ => inside

/-- The kinds of tokens that a member consists of, apart from its clauses and its semicolon. -/
def TokenKind.inner (kind : TokenKind) : Bool :=
  kind.plain && kind != .symbol .semicolon && kind != .symbol .rbrace

/-- The kinds of tokens, apart from `raises`, that make no difference to where the next one stands,
inside an interface or outside. -/
def TokenKind.neutral : (inside : Bool) → TokenKind → Bool
  | true => inner
  | false => plain

/-- Nothing that follows the tokens is declared by the last of them. -/
theorem Introduces.last {xs : List Token} {x : Token} {names : List String}
    (h : Introduces (xs ++ [x]) names) : x.kind.declares = false := by
  by_contra hx
  rw [Bool.not_eq_false] at hx
  have hlonger (v : Token) (hv : v.kind = .ident) :
      (declaredNames (xs ++ [x, v])).length = (declaredNames (xs ++ [x])).length + 1 := by
    clear h
    rw [TokenKind.declares] at hx
    induction xs with
    | nil => simp [declaredNames, hx, hv]
    | cons y ys ih =>
      cases ys with
      | nil =>
        simp only [List.cons_append, List.nil_append, declaredNames] at ih ⊢
        split <;> simp_all
      | cons z zs =>
        simp only [List.cons_append, declaredNames] at ih ⊢
        split <;> simp [ih]
  have hword := hlonger ⟨.ident, "", ⟨.start, .start⟩⟩ rfl
  have hnone := h []
  have hsome := h [⟨.ident, "", ⟨.start, .start⟩⟩]
  simp only [List.append_assoc, List.singleton_append, List.append_nil] at hnone hsome
  rw [hsome, hnone] at hword
  simp [declaredNames] at hword

namespace Parse

open TokenKind Sign Keyword

variable {s₁ : ParseState} {kind : TokenKind} {afterBare : Bool} {n : Nat}

/-! ## The kinds of the tokens that are taken -/

/-- Both states are the same, and since `origin` only tokens of the kinds `K` and `raises` were
taken. -/
structure Taken (K : TokenKind → Bool) (origin s s' : ParseState) : Prop where
  same : s' = s
  ended : Ended s.rest
  kinds : ∃ used, origin.rest = used ++ s.rest ∧
    ∀ x ∈ used, K x.kind = true ∨ x.kind = keyword Keyword.raises

variable {K : TokenKind → Bool} {origin s s' : ParseState}

theorem Taken.start (hs : Ended s.rest) : Taken K s s s :=
  ⟨rfl, hs, [], rfl, by simp⟩

theorem Taken.take (h : Taken K origin s s) {x : Token} {xs : List Token}
    (hrest : s.rest = x :: xs) (hx : K x.kind = true ∨ x.kind = keyword Keyword.raises)
    (heof : x.kind ≠ eof) :
    Taken K origin { s with last := x, rest := xs } { s with last := x, rest := xs } := by
  obtain ⟨used, hused, hkinds⟩ := h.kinds
  refine ⟨rfl, (hrest ▸ h.ended).tail heof, used ++ [x], ?_, fun y hy => ?_⟩
  · rw [hused, hrest, List.append_assoc]
    rfl
  · rcases List.mem_append.1 hy with hy | hy
    · exact hkinds y hy
    · exact List.mem_singleton.1 hy ▸ hx

section Kinds

variable (htypes : ∀ kind, kind.ofType = true → K kind = true) (heof : K eof = false)

include htypes heof

theorem Taken.stepping : Stepping id K (.loose (Taken K origin)) where
  semicolons h := h.elim
  types := htypes
  scopes hs := by rw [hs.same]
  rescope hs scopes := by
    obtain ⟨rfl, hended, hkinds⟩ := hs
    exact ⟨rfl, hended, hkinds⟩
  head hs := by
    obtain ⟨rfl, hended, hkinds⟩ := hs
    obtain ⟨x, xs, hrest⟩ := hended.exists_cons
    exact ⟨x, xs, x, xs, hrest, hrest, .inl ⟨rfl, rfl, rfl⟩⟩
  take hs hrest hrest' _ hkind := by
    obtain ⟨rfl, hended, hkinds⟩ := hs
    obtain ⟨rfl, rfl⟩ := List.cons.inj (hrest.symm.trans hrest')
    refine Taken.take ⟨rfl, hended, hkinds⟩ hrest (.inl hkind) fun h => ?_
    rw [h, heof] at hkind
    cases hkind
  note hs word pos := by
    obtain ⟨rfl, hended, hkinds⟩ := hs
    exact ⟨rfl, hended, hkinds⟩

theorem Taken.clause (mayDeclare : Bool) :
    Follows (.loose (Taken K origin)) (clause mayDeclare) (clause mayDeclare)
      (SameBy (Option.map (Clause.map unplaced))) := by
  intro s s' (hs : Taken K origin s s')
  have hstepping : Stepping id K (.loose (Taken K origin)) := Taken.stepping htypes heof
  obtain ⟨rfl, -⟩ := id hs
  obtain ⟨x, xs, hrest⟩ := hs.ended.exists_cons
  by_cases hx : x.kind = keyword Keyword.raises
  · have htaken := hs.take hrest (.inr hx) (by rw [hx]; decide)
    refine hstepping.clauseAhead id hrest hrest hx hx htaken fun u us hus hskew _ => ?_
    -- one token cannot be a semicolon and stand behind a member
    subst hus
    have hfollows := hskew.follows
    rw [show u.kind = symbol semicolon from hskew.semicolon] at hfollows
    cases hfollows
  · refine hstepping.clauseNone hs mayDeclare fun y ys hy => ?_
    obtain ⟨rfl, -⟩ := List.cons.inj (hrest.symm.trans hy)
    exact hx

theorem Taken.tracking : Tracking id K (.loose (Taken K origin)) :=
  { Taken.stepping htypes heof with clause := Taken.clause htypes heof false }

end Kinds

/-- A reader that follows itself takes tokens of the kinds only. -/
theorem FollowsAt.kinds {p : Parse α} {ρ : α → α → Prop}
    (h : FollowsAt (.loose (Taken K s)) s s p p ρ) {a : α} (hp : p s = .ok (a, s₁)) :
    Ended s₁.rest ∧ ∃ used, s.rest = used ++ s₁.rest ∧
      ∀ x ∈ used, K x.kind = true ∨ x.kind = keyword Keyword.raises := by
  rcases h.returns hp with hout | ⟨b, s₁', -, -, hs₁⟩
  · rw [hp] at hout
    cases hout
  · exact ⟨hs₁.ended, hs₁.kinds⟩

theorem inner_of_ofType (h : kind.ofType = true) : kind.inner = true := by
  unfold TokenKind.ofType at h
  split at h <;> first | rfl | cases h

theorem neutral_of_ofType (h : kind.ofType = true) : neutral inside kind = true := by
  cases inside with
  | true => exact inner_of_ofType h
  | false => exact plain_of_ofType h

theorem insideAfter_of_neutral (h : neutral inside kind = true ∨ kind = keyword Keyword.raises) :
    insideAfter inside kind = inside ∧ (inside = true → kind ≠ symbol semicolon) := by
  rcases h with h | rfl
  · refine ⟨?_, ?_⟩
    · unfold insideAfter
      split
      · cases inside <;> cases h
      · cases inside with
        | true => cases h
        | false => rfl
      · rfl
    · rintro rfl rfl
      cases h
  · exact ⟨rfl, fun _ => by decide⟩

/-! ## Stretches of tokens -/

/-- How the tokens may go on behind a member: with the closing brace, with `fn`, or with a word and
then another word or `fn`. -/
inductive BehindMember : List Token → Prop
  | close {x : Token} {xs : List Token} (hx : x.kind = symbol rbrace) : BehindMember (x :: xs)
  | fn {x : Token} {xs : List Token} (hx : x.kind = keyword Keyword.fn) : BehindMember (x :: xs)
  | word {x y : Token} {ys : List Token} (hx : x.kind = ident)
      (hy : y.kind = ident ∨ y.kind = keyword Keyword.fn) : BehindMember (x :: y :: ys)

/-- Inside an interface, a semicolon has something behind it that may stand behind a member, and it
does not stand right behind a token that declares a name. -/
def Outlined : (inside : Bool) → List Token → Prop
  | _, [] => True
  | inside, x :: xs =>
    (inside = true → x.kind = symbol semicolon → BehindMember xs) ∧
    (inside = true → x.kind.declares = true → ∀ y ∈ xs.head?, y.kind ≠ symbol semicolon) ∧
    Outlined (insideAfter inside x.kind) xs

variable {α β : Type} {inside inside' inside'' : Bool}

/-- A token that neither is a semicolon nor declares a name. -/
theorem Outlined.cons {x : Token} {xs : List Token}
    (hx : inside = true → x.kind ≠ symbol semicolon ∧ x.kind.declares = false)
    (h : Outlined (insideAfter inside x.kind) xs) : Outlined inside (x :: xs) := by
  refine ⟨fun hin hkind => absurd hkind (hx hin).1, fun hin hdeclares => ?_, h⟩
  rw [(hx hin).2] at hdeclares
  cases hdeclares

/-- Tokens that leave the reader inside the interface or outside. -/
theorem Outlined.append {used rest : List Token}
    (hkinds : ∀ x ∈ used, neutral inside x.kind = true ∨ x.kind = keyword Keyword.raises)
    (hlast : inside = true → ∀ x ∈ used.getLast?, x.kind.declares = false)
    (h : Outlined inside rest) : Outlined inside (used ++ rest) := by
  induction used with
  | nil => exact h
  | cons x xs ih =>
    obtain ⟨hx, hxs⟩ := List.forall_mem_cons.1 hkinds
    obtain ⟨hstep, hsemicolon⟩ := insideAfter_of_neutral hx
    refine ⟨fun hin hkind => absurd hkind (hsemicolon hin), fun hin hdeclares => ?_, ?_⟩
    · cases xs with
      | nil =>
        rw [hlast hin x rfl] at hdeclares
        cases hdeclares
      | cons y ys =>
        rintro z ⟨⟩
        exact (insideAfter_of_neutral (hxs y List.mem_cons_self)).2 hin
    · rw [hstep]
      refine ih hxs fun hin y hy => hlast hin y ?_
      cases xs with
      | nil => cases hy
      | cons z zs => rwa [List.getLast?_cons_cons]

/-! ## Readers -/

/-- If `p` reads on from `s`, and the tokens where it stops are outlined, so are those of `s`. -/
def Surveys (inside inside' : Bool) (s : ParseState) (p : Parse α) : Prop :=
  Ended s.rest → ∀ a s₁, p s = .ok (a, s₁) →
    Ended s₁.rest ∧ (Outlined inside' s₁.rest → Outlined inside s.rest)

namespace Surveys

variable {p : Parse α} {f : α → Parse β}

theorem pure (a : α) : Surveys inside inside s (Pure.pure a) := by
  intro hs a' s₁ ha
  cases ha
  exact ⟨hs, id⟩

theorem bind (h : Surveys inside inside' s p)
    (hf : ∀ a s₁, p s = .ok (a, s₁) → Surveys inside' inside'' s₁ (f a)) :
    Surveys inside inside'' s (p >>= f) := by
  intro hs b s₂ hb
  obtain ⟨a, s₁, ha, hb⟩ := bind_eq_ok hb
  obtain ⟨hs₁, hout₁⟩ := h hs a s₁ ha
  obtain ⟨hs₂, hout₂⟩ := hf a s₁ ha hs₁ b s₂ hb
  exact ⟨hs₂, fun h => hout₁ (hout₂ h)⟩

theorem look {a : α} (ha : p s = .ok (a, s)) (hf : Surveys inside inside' s (f a)) :
    Surveys inside inside' s (p >>= f) := by
  intro hs b s₁ hb
  rw [bind_of_eq_ok ha] at hb
  exact hf hs b s₁ hb

theorem expect (heof : kind ≠ eof)
    (hkind : inside = true → kind ≠ symbol semicolon ∧ kind.declares = false) :
    Surveys inside (insideAfter inside kind) s (expect kind) := by
  intro hs x s₁ hx
  obtain ⟨xs, hrest, rfl, rfl⟩ := expect_eq_ok hx
  rw [hrest] at hs ⊢
  exact ⟨hs.tail heof, .cons hkind⟩

theorem skip (hkind : (s.rest.headD s.last).kind.plain = true) :
    Surveys false false s skip := by
  intro hs u s₁ hu
  obtain ⟨xs, hrest, rfl⟩ := skip_eq_ok hu
  generalize s.rest.headD s.last = x at hkind hrest
  rw [hrest] at hs ⊢
  refine ⟨hs.tail fun heof => ?_, fun h => .cons (fun h => by cases h) ?_⟩
  · rw [heof] at hkind
    cases hkind
  · have hneutral : neutral false x.kind = true := hkind
    rw [(insideAfter_of_neutral (.inl hneutral)).1]
    exact h

/-- A reader that takes tokens of the kinds only. -/
theorem ofTaken {ρ : α → α → Prop}
    (h : Follows (.loose (Taken (neutral inside) s)) p p ρ)
    (hlast : inside = true → Takes 0 0 s [] s.scopes p fun _ _ _ _ => True) :
    Surveys inside inside s p := by
  intro hs a s₁ ha
  obtain ⟨hs₁, used, hused, hkinds⟩ := (h s s (Taken.start hs)).kinds ha
  refine ⟨hs₁, fun hout => hused ▸ hout.append hkinds fun hin x hx => ?_⟩
  obtain ⟨used', names, hreach, -, hnames, -⟩ := (hlast hin).ok ha
  obtain rfl : used = used' := List.append_cancel_right (hused.symm.trans hreach.rest)
  obtain ⟨xs, rfl⟩ := List.getLast?_eq_some_iff.1 hx
  exact hnames.last

end Surveys

/-- The kinds of the tokens that readers take inside an interface or outside. -/
theorem Taken.neutral (inside : Bool) :
    Tracking id (neutral inside) (.loose (Taken (neutral inside) origin)) :=
  Taken.tracking (fun _ => neutral_of_ofType) (by cases inside <;> rfl)

/-! ## Members -/

/-- Reads a member up to its semicolon: how it starts, its own clause and its result. -/
def memberBody (r : Level) (afterBare : Bool) (n : Nat) :
    Parse ((List String × Token × List (Param Span)) × Option (Clause Span) ×
      Option (TypeExpr Span)) := do
  let head ← memberHead r afterBare n
  let c ← clause true
  let result ← typeAfter arrow r
  return (head, c, result)

/-- A member ends behind its semicolon, or where its body ends. -/
theorem member_eq_ok {r : Level} {m : Member Span} (hm : member r afterBare s = .ok (m, s₁)) :
    ∃ body s₂, memberBody r afterBare s.rest.length s = .ok (body, s₂) ∧
      (s₁ = s₂ ∨ ∃ x xs, s₂.rest = x :: xs ∧ x.kind = symbol semicolon ∧
        s₁ = { s₂ with last := x, rest := xs }) := by
  rw [member_eq] at hm
  obtain ⟨head, t₁, hhead, hm⟩ := bind_eq_ok hm
  obtain ⟨c, t₂, hc, hm⟩ := bind_eq_ok hm
  obtain ⟨result, s₂, hresult, hm⟩ := bind_eq_ok hm
  obtain ⟨o, t₃, ho, hm⟩ := bind_eq_ok hm
  cases hm
  refine ⟨(head, c, result), s₂, ?_, ?_⟩
  · rw [memberBody, bind_of_eq_ok hhead, bind_of_eq_ok hc, bind_of_eq_ok hresult]
    rfl
  · rcases accept_eq_ok ho with ⟨-, rfl⟩ | ⟨x, xs, -, hrest, hkind, rfl⟩
    · exact .inl rfl
    · exact .inr ⟨x, xs, hrest, hkind, rfl⟩

theorem memberBody_takes {r : Level} (hr : r.WellScoped n) (afterBare : Bool) (m : Nat) :
    Takes (min n m) 0 s [] s.scopes (memberBody r afterBare m) fun _ _ _ _ => True := by
  rw [memberBody, memberHead]
  simp only [bind_assoc, pure_bind]
  have hr' : r.WellScoped (min n m) := hr.mono (Nat.min_le_left ..)
  have hwords : GivesFrom (min n m) 0 s.scopes s [] (modifiers afterBare m []) _ :=
    (modifiers_gives afterBare m (by simp)).mono (Nat.min_le_right ..) (Nat.le_refl _)
  refine hwords.thenGiven fun words _ _ _ => .naming rfl (by decide) fun start name _ _ => ?_
  refine (params_gives hr').behind.bind fun ps _ _ _ => (clause_gives true).bind fun c _ _ _ => ?_
  exact (typeAfter_gives hr' _).behind.bind fun result _ _ _ => .pure fun _ _ _ => trivial

theorem memberBody_surveys (n : Nat) (afterBare : Bool) (k : Nat) :
    Surveys true true s (memberBody (.ofDepth n) afterBare k) := by
  have h : Tracking id TokenKind.inner (.loose (Taken TokenKind.inner s)) := Taken.neutral true
  have htype := Level.type_follows h n n
  have hclause : Follows (.loose (Taken TokenKind.inner s)) (clause true) (clause true) _ :=
    Taken.clause (fun _ => inner_of_ofType) rfl true
  have hbody : Follows (.loose (Taken TokenKind.inner s)) (memberBody (.ofDepth n) afterBare k)
      (memberBody (.ofDepth n) afterBare k) fun _ _ => True :=
    (memberHead_follows h htype afterBare k k).bind fun _ _ _ => hclause.bind fun _ _ _ =>
      (typeAfter_follows h htype rfl).bind fun _ _ _ => .pure trivial
  have htakes := memberBody_takes (s := s) (Level.ofDepth_wellScoped n) afterBare k
  exact .ofTaken hbody fun _ => htakes.mono (Nat.zero_le _) (Nat.zero_le _)

theorem member_outlined (hs : Ended s.rest) {m : Member Span}
    (hm : member (.ofDepth n) afterBare s = .ok (m, s₁)) :
    Ended s₁.rest ∧ (BehindMember s₁.rest → Outlined true s₁.rest → Outlined true s.rest) := by
  obtain ⟨body, s₂, hbody, hend⟩ := member_eq_ok hm
  obtain ⟨hs₂, hout⟩ := memberBody_surveys n afterBare _ hs body s₂ hbody
  rcases hend with rfl | ⟨x, xs, hx, hkind, rfl⟩
  · exact ⟨hs₂, fun _ => hout⟩
  · rw [hx] at hs₂ hout
    refine ⟨hs₂.tail (by rw [hkind]; decide), fun hbehind h => hout ⟨fun _ _ => hbehind, ?_, ?_⟩⟩
    · intro _ hdeclares
      rw [hkind] at hdeclares
      cases hdeclares
    · rw [hkind]
      exact h

theorem modifiers_head {found words : List String} {t : Token} {s₁ s₂ : ParseState}
    (hwords : modifiers afterBare n found s = .ok (words, s₁))
    (hfn : expect (keyword Keyword.fn) s₁ = .ok (t, s₂)) :
    ∃ x xs, s.rest = x :: xs ∧ (x.kind = ident ∨ x.kind = keyword Keyword.fn) := by
  cases n with
  | zero => cases hwords
  | succ n =>
    rw [modifiers] at hwords
    obtain ⟨o, s₃, ho, hrun⟩ := bind_eq_ok hwords
    rcases accept_eq_ok ho with ⟨rfl, rfl⟩ | ⟨x, xs, rfl, hrest, hkind, rfl⟩
    · cases hrun
      obtain ⟨ts, hrest, hkind, -⟩ := expect_eq_ok hfn
      exact ⟨t, ts, hrest, .inr hkind⟩
    · exact ⟨x, xs, hrest, .inl hkind⟩

theorem modifiers_behind {found words : List String} {t : Token} {s₁ s₂ : ParseState}
    (hwords : modifiers afterBare n found s = .ok (words, s₁))
    (hfn : expect (keyword Keyword.fn) s₁ = .ok (t, s₂)) : BehindMember s.rest := by
  obtain ⟨x, xs, hrest, hx | hx⟩ := modifiers_head hwords hfn
  · cases n with
    | zero => cases hwords
    | succ n =>
      rw [hrest]
      have hnext {s' : ParseState} {found' : List String} (hs' : s'.rest = xs)
          (h : modifiers afterBare n found' s' = .ok (words, s₁)) : BehindMember (x :: xs) := by
        obtain ⟨y, ys, hy, hkind⟩ := modifiers_head h hfn
        rw [← hs', hy]
        exact .word hx hkind
      by_cases hvalue : x.value ∈ memberModifiers
      · exact hnext rfl ((modifiers_of_mem hrest hx hvalue).symm.trans hwords)
      · rw [modifiers_of_not_mem hrest hx hvalue] at hwords
        split at hwords
        · exact hnext rfl hwords
        · cases hwords
  · rw [hrest]
    exact .fn hx

/-- Members are read from where they may stand behind another one. -/
theorem members_behind {r : Level} {ms : List (Member Span)} (hs : Ended s.rest)
    (hms : members r n afterBare s = .ok (ms, s₁)) : BehindMember s.rest := by
  obtain ⟨x, xs, hrest⟩ := hs.exists_cons
  cases n with
  | zero => cases hms
  | succ n =>
    by_cases hx : x.kind = symbol rbrace
    · rw [hrest]
      exact .close hx
    · rw [members, bind_of_eq_ok (nextIs_of_ne hrest hx)] at hms
      obtain ⟨m, s₂, hm, -⟩ := bind_eq_ok hms
      rw [member_eq] at hm
      obtain ⟨head, s₃, hhead, -⟩ := bind_eq_ok hm
      obtain ⟨words, s₄, hwords, hhead⟩ := bind_eq_ok hhead
      obtain ⟨t, s₅, hfn, -⟩ := bind_eq_ok hhead
      exact modifiers_behind hwords hfn

/-! ## Interfaces and programs -/

theorem members_surveys (n k : Nat) (afterBare : Bool) :
    Surveys true true s (members (.ofDepth n) k afterBare) := by
  induction k generalizing s afterBare with
  | zero =>
    intro _ ms s₁ hms
    cases hms
  | succ k ih =>
    intro hs ms s₁ hms
    rw [members] at hms
    obtain ⟨closed, s₂, hnext, hms⟩ := bind_eq_ok hms
    cases hnext
    split at hms
    · cases hms
      exact ⟨hs, id⟩
    · obtain ⟨m, s₂, hm, hms⟩ := bind_eq_ok hms
      obtain ⟨ms', s₃, hms', heq⟩ := bind_eq_ok hms
      cases heq
      obtain ⟨hs₂, hmember⟩ := member_outlined hs hm
      obtain ⟨hs₃, hrest⟩ := ih (endsBare m) hs₂ ms' _ hms'
      exact ⟨hs₃, fun h => hmember (members_behind hs₂ hms') (hrest h)⟩

theorem interface_surveys (n : Nat) : Surveys false false s (interface (.ofDepth n)) := by
  refine (Surveys.expect (by decide) (by simp)).bind fun start s₁ _ => ?_
  refine (Surveys.expect (by decide) fun _ => by decide).bind fun name s₂ _ => ?_
  refine (Surveys.expect (by decide) fun _ => by decide).bind fun brace s₃ _ => ?_
  refine .look rfl ((members_surveys n _ false).bind fun ms s₄ _ => ?_)
  refine (Surveys.expect (by decide) fun _ => by decide).bind fun close s₅ _ => ?_
  exact .look rfl (.pure _)

theorem nameDecl_surveys {t : Token} (hkind : (s.rest.headD s.last).kind.plain = true) :
    Surveys false false s (skip >>= fun _ => nameDecl t) := by
  refine (Surveys.skip hkind).bind fun _ s₁ _ => ?_
  refine (Surveys.expect (by decide) fun h => by cases h).bind fun name s₂ _ => ?_
  refine (Surveys.expect (by decide) fun h => by cases h).bind fun _ s₃ _ => ?_
  exact .look rfl (.pure _)

theorem declarations_surveys (n k : Nat) (p : Program Span) :
    Surveys false false s (declarations (.ofDepth n) k p) := by
  induction k generalizing p s with
  | zero =>
    intro _ q s₁ hq
    cases hq
  | succ k ih =>
    have hplain : Tracking id TokenKind.plain (.loose (Taken TokenKind.plain s)) :=
      Taken.neutral false
    refine .look rfl ?_
    split
    · exact .pure p
    · rename_i hkind
      rw [← bind_assoc]
      exact (nameDecl_surveys (by rw [hkind]; rfl)).bind fun d s₁ _ => ih _
    · rename_i hkind
      rw [← bind_assoc]
      exact (nameDecl_surveys (by rw [hkind]; rfl)).bind fun d s₁ _ => ih _
    · exact (interface_surveys n).bind fun i s₁ _ => ih _
    · have hfunction : Surveys false false s (function (.ofDepth n)) :=
        .ofTaken (function_follows hplain (Level.ofDepth_follows hplain n n)) (by simp)
      refine hfunction.bind fun f s₁ _ => ?_
      split
      · intro _ q s₂ hq
        cases hq
      · exact ih _

end Parse

/-- **The semicolons in the interfaces of a program end members.** -/
theorem Program.ofTokens_outlined {source : String} {tokens : List Token} {r : Reading}
    (hlex : Token.readAll source = .ok tokens) (hr : Program.ofTokens tokens = .ok r) :
    Parse.Outlined false tokens := by
  obtain ⟨⟨p, s⟩, hread, heq⟩ := except_bind_eq_ok hr
  cases heq
  obtain ⟨used, -, hreach, -, -, -, hend⟩ :=
    (Program.declarations_takes {} (.start tokens)).ok hread
  obtain ⟨hended, hout⟩ := Parse.declarations_surveys _ _ {} (Token.readAll_ended hlex) p s hread
  refine hout ?_
  obtain ⟨x, xs, hrest⟩ := hended.exists_cons
  rw [hrest, List.headD_cons] at hend
  rw [show tokens = used ++ s.rest from hreach.rest, hrest] at hlex
  rw [hrest, Token.readAll_end hlex hend]
  exact .cons (fun h => by cases h) trivial

end RaisingEffects
