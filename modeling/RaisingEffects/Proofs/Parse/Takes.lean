import RaisingEffects.Proofs.Parse.Laid

/-!
# What a reader takes and gives

The tokens of a text end in an end mark, which no reader takes. So a reader always has a token in
front of it, and repetitions and nested constructs use up tokens. Some of the tokens introduce
names, and others are checked against the scopes that the reader keeps. This module says so of the
parts that readers are made of.

* `Parse.Stays s p`: reading with `p` from `s` goes on in single steps, each of them taken where
  there is a token to come. It holds of runs that fail, too, up to where they fail.
* `ParseFailure.Proper`: a failure that is meant for the writer of the source, which is any but
  running out of tokens.
* `Parse.Takes n k s used scopes p Q`: `p` reads on where the tokens `used` were taken since `s`, in
  the scopes `scopes`. If it returns, it has taken `k` tokens or more, and `Q` holds of the result,
  of all the tokens since `s`, of the names that the new ones introduce, and of where the reader
  stops. If it refuses the source, it does so where a token starts. In front of at most `n` tokens,
  it stays at tokens and fails properly.
* `Parse.Gives n k scopes p P`: the case that is met inside declarations. Wherever the reader
  starts, the tokens introduce no names, the scopes are the same afterwards, and `P` holds of the
  tokens and the result.

The numbers are what makes readers fit together: what is read behind `k` tokens has `n - k` of them
left (`Takes.bind`), and a repetition of at most `n` rounds is long enough in front of `n` tokens
(`Parse.sepTail_gives`).
-/

namespace RaisingEffects

/-! ## Failures -/

/-- The token is a numeral that cannot be read. -/
def Token.Unreadable (t : Token) (fault : NumeralFault) : Prop :=
  (t.kind = .int ∧ Numeral.int t.value = .error fault) ∨
    (t.kind = .float ∧ Numeral.decimal t.value = .error fault)

/-- A failure at a position, or one of the tokens is a numeral that cannot be read. -/
def ParseFailure.Proper (ts : List Token) : ParseFailure → Prop
  | .fault .. => True
  | .numeral why => ∃ t ∈ ts, t.Unreadable why
  | .outOfTokens => False

theorem ParseFailure.Proper.mono {ts us : List Token} {e : ParseFailure} (h : e.Proper ts)
    (hsub : ts ⊆ us) : e.Proper us := by
  cases e with
  | fault => exact trivial
  | numeral why =>
    obtain ⟨t, ht, hunreadable⟩ := h
    exact ⟨t, hsub ht, hunreadable⟩
  | outOfTokens => exact h.elim

/-- A failure at a position is at one of the places. -/
def ParseFailure.At (places : List Pos) : ParseFailure → Prop
  | .fault _ pos => pos ∈ places
  | _ => True

namespace Parse

variable {α β : Type}

/-! ## Steps -/

/-- Reading from the state goes on in steps, each of them taken where there is a token to come. Only
`skip` and `clause` move on, and there is a token behind what they take. -/
inductive Stays : {α : Type} → ParseState → Parse α → Prop
  | pure {α : Type} {s : ParseState} (hs : s.rest ≠ []) (a : α) : Stays s (Pure.pure a)
  | fail {α : Type} {s : ParseState} (hs : s.rest ≠ []) (e : ParseFailure) :
    Stays s (fail e : Parse α)
  | peek {s : ParseState} (hs : s.rest ≠ []) : Stays s peek
  | peekSecond {s : ParseState} (hs : s.rest ≠ []) : Stays s peekSecond
  | previous {s : ParseState} (hs : s.rest ≠ []) : Stays s previous
  | remaining {s : ParseState} (hs : s.rest ≠ []) : Stays s remaining
  | skip {s : ParseState} {t u : Token} {ts : List Token} (hs : s.rest = t :: u :: ts) :
    Stays s skip
  | clause {s : ParseState} (hs : s.rest ≠ []) (mayDeclare : Bool)
      (h : ∀ r, ClauseReading.read mayDeclare s.rest = .ok r → r.rest ≠ []) :
    Stays s (clause mayDeclare)
  | declare {s : ParseState} (hs : s.rest ≠ []) (name : String) (pos : Pos) :
    Stays s (declare name pos)
  | require {s : ParseState} (hs : s.rest ≠ []) (name : String) (pos : Pos) :
    Stays s (require name pos)
  | noteSkipped {s : ParseState} (hs : s.rest ≠ []) (a : Ambiguity) : Stays s (noteSkipped a)
  | bind {α β : Type} {s : ParseState} {p : Parse α} {f : α → Parse β} (hp : Stays s p)
      (hf : ∀ a s', p s = .ok (a, s') → Stays s' (f a)) : Stays s (p >>= f)
  | inScope {α : Type} {s : ParseState} {p : Parse α}
      (hp : Stays { s with scopes := [] :: s.scopes } p) : Stays s (inScope p)

theorem Stays.rest_ne_nil {s s' : ParseState} {a : α} (h : Stays s p) (hp : p s = .ok (a, s')) :
    s'.rest ≠ [] := by
  induction h generalizing s' with
  | pure hs | peek hs | previous hs | remaining hs | noteSkipped hs => cases hp; exact hs
  | fail => cases hp
  | peekSecond hs =>
    rw [Parse.peekSecond] at hp
    split at hp <;> cases hp <;> exact hs
  | skip hs =>
    rw [skip_of_rest hs] at hp
    cases hp
    simp
  | clause hs mayDeclare h =>
    rw [Parse.clause] at hp
    split at hp
    · rename_i r hr
      cases hp
      exact h r hr
    · cases hp
  | declare hs name pos =>
    rw [Parse.declare] at hp
    split at hp
    · split at hp <;> cases hp
      exact hs
    · cases hp
      exact hs
  | require hs name pos =>
    rw [Parse.require] at hp
    split at hp <;> cases hp
    exact hs
  | bind _ _ ihp ihf =>
    obtain ⟨b, s₁, hb, hp⟩ := bind_eq_ok hp
    exact ihf b s₁ hb hp
  | inScope _ ih =>
    rw [Parse.inScope] at hp
    split at hp
    · rename_i s₁ hrun
      have hrest : s₁.rest ≠ [] := ih hrun
      cases hp
      exact hrest
    · cases hp

/-- The reader reads on from `s₁`, where the tokens `used` were taken since `s`. The tokens `held`
are the last of them, and introduce names together with those that follow. -/
structure TakesAt (n k : Nat) (s : ParseState) (used held : List Token) (s₁ : ParseState)
    (p : Parse α) (Q : α → List Token → List String → ParseState → Prop) : Prop where
  ok : ∀ a s₂, p s₁ = .ok (a, s₂) → ∃ more names, Reached s (used ++ more) s₂ ∧
    k ≤ more.length ∧ Introduces (held ++ more) names ∧ Q a (used ++ more) names s₂
  stays : Ended s₁.rest → s₁.rest.length ≤ n → Stays s₁ p
  error : ∀ e, p s₁ = .error e →
    e.At s.places ∧ (Ended s₁.rest → s₁.rest.length ≤ n → e.Proper s₁.rest)

/-- The reader reads on wherever the tokens `used` were taken since `s` and the scopes are these. -/
def Takes (n k : Nat) (s : ParseState) (used : List Token) (scopes : List (List String))
    (p : Parse α) (Q : α → List Token → List String → ParseState → Prop) : Prop :=
  ∀ s₁, Reached s used s₁ → s₁.scopes = scopes → TakesAt n k s used [] s₁ p Q

variable {n n' m j k k' : Nat} {s s₁ : ParseState} {used held : List Token} {t : Token}
  {scopes : List (List String)} {p : Parse α} {f : α → Parse β}

/-! ## Rules -/

/-- The tokens that are taken between two states that were reached. -/
theorem Reached.rest_eq {s₂ : ParseState} {more : List Token} (h : Reached s used s₁)
    (h' : Reached s (used ++ more) s₂) : s₁.rest = more ++ s₂.rest := by
  have hrest := h'.rest
  rw [h.rest, List.append_assoc] at hrest
  exact List.append_cancel_left hrest

/-- A reader at the first of the tokens since `s`. -/
theorem Reached.headD (h : Reached s [] s₁) : s₁.rest.headD s₁.last = s.rest.headD s.last := by
  rw [h.rest, h.last]
  rfl

variable {Q Q' : α → List Token → List String → ParseState → Prop}
  {R : β → List Token → List String → ParseState → Prop}

namespace TakesAt

/-- Readers one after the other. The second has to take what the first one leaves of `k` tokens. -/
theorem bind (hs₁ : Reached s used s₁) (hp : TakesAt n j s used [] s₁ p Q)
    (hf : ∀ a total names s₂, Q a total names s₂ → total <+: s.rest →
      Takes (n - j) (k - j) s total s₂.scopes (f a) fun b total' names' s₃ =>
        R b total' (names ++ names') s₃) :
    TakesAt n k s used [] s₁ (p >>= f) R := by
  -- what the second reader does behind the tokens of the first one
  have hrest (a : α) (s₂ : ParseState) (ha : p s₁ = .ok (a, s₂)) : ∃ more names,
      s₁.rest = more ++ s₂.rest ∧ j ≤ more.length ∧ Introduces more names ∧
        TakesAt (n - j) (k - j) s (used ++ more) [] s₂ (f a) fun b total names' s₃ =>
          R b total (names ++ names') s₃ := by
    obtain ⟨more, names, hreach, hj, hnames, hq⟩ := hp.ok a s₂ ha
    exact ⟨more, names, hs₁.rest_eq hreach, hj, hnames,
      hf a _ names s₂ hq hreach.isPrefix s₂ hreach rfl⟩
  have hafter (a : α) (s₂ : ParseState) (ha : p s₁ = .ok (a, s₂)) (hs : Ended s₁.rest)
      (hn : s₁.rest.length ≤ n) : Ended s₂.rest ∧ s₂.rest.length ≤ n - j := by
    obtain ⟨more, -, hmore, hj, -⟩ := hrest a s₂ ha
    have hne := (hp.stays hs hn).rest_ne_nil ha
    rw [hmore] at hs
    rw [hmore, List.length_append] at hn
    exact ⟨hs.of_suffix hne, by omega⟩
  refine ⟨fun b s₃ hb => ?_, fun hs hn => .bind (hp.stays hs hn) fun a s₂ ha => ?_, fun e he => ?_⟩
  · obtain ⟨a, s₂, ha, hb⟩ := bind_eq_ok hb
    obtain ⟨more, names, -, hj, hnames, hfa⟩ := hrest a s₂ ha
    obtain ⟨more', names', hreach', hk, hnames', hr⟩ := hfa.ok b s₃ hb
    rw [List.append_assoc] at hreach' hr
    refine ⟨more ++ more', names ++ names', hreach', ?_, hnames.append hnames', hr⟩
    rw [List.length_append]
    omega
  · obtain ⟨more, names, -, -, -, hfa⟩ := hrest a s₂ ha
    obtain ⟨hended, hlength⟩ := hafter a s₂ ha hs hn
    exact hfa.stays hended hlength
  · rcases bind_eq_error he with hpe | ⟨a, s₂, ha, he⟩
    · exact hp.error e hpe
    · obtain ⟨more, names, hmore, -, -, hfa⟩ := hrest a s₂ ha
      refine ⟨(hfa.error e he).1, fun hs hn => ?_⟩
      obtain ⟨hended, hlength⟩ := hafter a s₂ ha hs hn
      exact ((hfa.error e he).2 hended hlength).mono (hmore ▸ List.subset_append_right ..)

/-- The tokens that were held introduce names by themselves. -/
theorem release {names : List String} (hheld : Introduces held names)
    (h : TakesAt n k s used [] s₁ p fun a total names' s' => Q a total (names ++ names') s') :
    TakesAt n k s used held s₁ p Q := by
  refine ⟨fun a s₂ hp => ?_, h.stays, h.error⟩
  obtain ⟨more, names', hreach, hk, hmore, hq⟩ := h.ok a s₂ hp
  exact ⟨more, names ++ names', hreach, hk, hheld.append hmore, hq⟩

/-- A look at the token to come. -/
theorem peek {f : Token → Parse β}
    (h : TakesAt n k s used held s₁ (f (s₁.rest.headD s₁.last)) R) :
    TakesAt n k s used held s₁ (Parse.peek >>= f) R := by
  refine ⟨h.ok, fun hs hn => .bind (.peek hs.ne_nil) fun t s' ht => ?_, h.error⟩
  cases ht
  exact h.stays hs hn

/-- The token to come is taken, since it is no end mark. -/
theorem skip {f : Unit → Parse β} (heof : (s₁.rest.headD s₁.last).kind ≠ .eof)
    (h : ∀ t ts, s₁.rest = t :: ts →
      TakesAt (n - 1) (k - 1) s (used ++ [t]) (held ++ [t]) { s₁ with last := t, rest := ts }
        (f ()) R) :
    TakesAt n k s used held s₁ (Parse.skip >>= f) R := by
  cases hrest : s₁.rest with
  | nil =>
    have hrun : (Parse.skip >>= f) s₁ = .error .outOfTokens := by
      simp [Bind.bind, StateT.bind, Parse.skip, hrest, Except.bind]
    refine ⟨fun b s₂ hb => ?_, fun hs _ => absurd hrest hs.ne_nil, fun e he => ?_⟩
    · cases hrun.symm.trans hb
    · cases hrun.symm.trans he
      exact ⟨trivial, fun hs _ => absurd hrest hs.ne_nil⟩
  | cons t ts =>
    have hrun := bind_of_eq_ok (f := f) (skip_of_rest hrest)
    obtain ⟨hok, hstays, herror⟩ := h t ts hrest
    rw [hrest] at heof
    refine ⟨fun b s₂ hb => ?_, fun hs hn => ?_, fun e he => ?_⟩
    · obtain ⟨more, names, hreach, hk, hmore, hr⟩ := hok b s₂ (hrun ▸ hb)
      rw [List.append_assoc] at hreach hmore hr
      exact ⟨t :: more, names, hreach, by simp only [List.length_cons]; omega, hmore, hr⟩
    · rw [hrest] at hs hn
      obtain ⟨u, us, rfl⟩ := (hs.tail heof).exists_cons
      refine .bind (.skip hrest) fun _ s₂ hs₂ => ?_
      rw [skip_of_rest hrest] at hs₂
      cases hs₂
      exact hstays (hs.tail heof) (Nat.le_sub_one_of_lt hn)
    · refine ⟨(herror e (hrun ▸ he)).1, fun hs hn => ?_⟩
      rw [hrest] at hs hn ⊢
      exact ((herror e (hrun ▸ he)).2 (hs.tail heof) (Nat.le_sub_one_of_lt hn)).mono
        (List.subset_cons_self ..)

/-- The token to come introduces nothing and is taken. -/
theorem skipPlain {f : Unit → Parse β} (hs₁ : Reached s used s₁)
    (hkind : (s₁.rest.headD s₁.last).kind.isPlain = true)
    (h : ∀ t, s₁.rest.headD s₁.last = t → (used ++ [t]) <+: s.rest →
      Takes (n - 1) (k - 1) s (used ++ [t]) s₁.scopes (f ()) R) :
    TakesAt n k s used [] s₁ (Parse.skip >>= f) R := by
  obtain ⟨hdeclares, heof⟩ := TokenKind.isPlain_iff.1 hkind
  refine .skip heof fun t ts hrest => ?_
  rw [hrest] at hdeclares h
  have hreach := hs₁.trans (.token hrest)
  exact .release (.single hdeclares) (h t rfl hreach.isPrefix _ hreach rfl)

/-- A token of the kind that is due is taken. -/
theorem expect {kind : TokenKind} {f : Token → Parse β} (heof : kind ≠ .eof)
    (hs₁ : s₁.places ⊆ s.places)
    (h : ∀ t ts, s₁.rest = t :: ts → t.kind = kind →
      TakesAt (n - 1) (k - 1) s (used ++ [t]) (held ++ [t]) { s₁ with last := t, rest := ts }
        (f t) R) :
    TakesAt n k s used held s₁ (Parse.expect kind >>= f) R := by
  rw [Parse.expect, bind_assoc]
  refine .peek ?_
  split
  · rename_i ht
    rw [bind_assoc]
    refine .skip (ht ▸ heof) fun t ts hrest => ?_
    rw [hrest] at ht ⊢
    exact h t ts hrest ht
  · refine ⟨fun b s₂ hb => (by cases hb), fun hs _ => ?_, fun e he => ?_⟩
    · exact .bind (.fail hs.ne_nil _) fun _ _ h => (by cases h)
    · cases he
      exact ⟨hs₁ (headD_mem_places s₁), fun _ _ => trivial⟩

end TakesAt

namespace Takes

variable {pos : Pos} {kind : TokenKind}

/-- What a run comes to. -/
theorem ok {a : α} {s' : ParseState} (h : Takes n k s [] s.scopes p Q) (hp : p s = .ok (a, s')) :
    ∃ used names, Reached s used s' ∧ k ≤ used.length ∧ Introduces used names ∧
      Q a used names s' :=
  (h s (.refl s) rfl).ok a s' hp

theorem mono (h : Takes n k s used scopes p Q) (hn : n' ≤ n) (hk : k' ≤ k) :
    Takes n' k' s used scopes p Q := by
  intro s₁ hs₁ hscopes
  obtain ⟨hok, hstays, herror⟩ := h s₁ hs₁ hscopes
  refine ⟨fun a s₂ hp => ?_, fun hs hlength => hstays hs (hlength.trans hn), fun e he =>
    ⟨(herror e he).1, fun hs hlength => (herror e he).2 hs (hlength.trans hn)⟩⟩
  obtain ⟨more, names, hreach, hmore, hq⟩ := hok a s₂ hp
  exact ⟨more, names, hreach, hk.trans hmore, hq⟩

theorem imp (h : Takes n k s used scopes p Q)
    (hQ : ∀ a total names s', Q a total names s' → Q' a total names s') :
    Takes n k s used scopes p Q' := by
  intro s₁ hs₁ hscopes
  obtain ⟨hok, hstays, herror⟩ := h s₁ hs₁ hscopes
  refine ⟨fun a s₂ hp => ?_, hstays, herror⟩
  obtain ⟨more, names, hreach, hmore, hnames, hq⟩ := hok a s₂ hp
  exact ⟨more, names, hreach, hmore, hnames, hQ _ _ _ _ hq⟩

theorem bind (h : Takes n j s used scopes p Q)
    (hf : ∀ a total names s₂, Q a total names s₂ → total <+: s.rest →
      Takes (n - j) (k - j) s total s₂.scopes (f a) fun b total' names' s₃ =>
        R b total' (names ++ names') s₃) :
    Takes n k s used scopes (p >>= f) R :=
  fun s₁ hs₁ hscopes => (h s₁ hs₁ hscopes).bind hs₁ hf

theorem pure {a : α} (h : ∀ s₁, Reached s used s₁ → s₁.scopes = scopes → Q a used [] s₁) :
    Takes n 0 s used scopes (Pure.pure a) Q := by
  refine fun s₁ hs₁ hscopes => ⟨fun a' s₂ hp => ?_, fun hs _ => .pure hs.ne_nil a,
    fun e he => (by cases he)⟩
  cases hp
  refine ⟨[], [], ?_, Nat.le_refl _, .nil, ?_⟩ <;> rw [List.append_nil]
  · exact hs₁
  · exact h s₁ hs₁ hscopes

/-- A failure at a position. -/
theorem fault {why : ParseFault} (h : pos ∈ s.places) :
    Takes n k s used scopes (faultAt pos why) Q := by
  refine fun s₁ _ _ => ⟨fun a s₂ hp => (by cases hp), fun hs _ => .fail hs.ne_nil _, fun e he => ?_⟩
  cases he
  exact ⟨h, fun _ _ => trivial⟩

/-- Where no tokens are left for it, a reader may run out of them. -/
theorem spent (hn : n = 0) : Takes n k s used scopes (Parse.fail .outOfTokens) Q := by
  have hnot {s₁ : ParseState} (hs : Ended s₁.rest) (hlength : s₁.rest.length ≤ n) : False := by
    have hpos := hs.length_pos
    omega
  refine fun s₁ _ _ => ⟨fun a s₂ hp => (by cases hp), fun hs hlength => (hnot hs hlength).elim,
    fun e he => ?_⟩
  cases he
  exact ⟨trivial, hnot⟩

/-- What follows a step that takes no token. -/
theorem afterStep {C : α → List (List String) → Prop}
    (hstays : ∀ s₁ : ParseState, s₁.rest ≠ [] → Stays s₁ p)
    (hp : ∀ s₁, Reached s used s₁ → s₁.scopes = scopes →
      (∃ a scopes', p s₁ = .ok (a, { s₁ with scopes := scopes' }) ∧ C a scopes') ∨
        ∃ why pos, p s₁ = .error (.fault why pos) ∧ pos ∈ s.places)
    (h : ∀ a scopes', C a scopes' → Takes n k s used scopes' (f a) R) :
    Takes n k s used scopes (p >>= f) R := by
  intro s₁ hs₁ hscopes
  rcases hp s₁ hs₁ hscopes with ⟨a, scopes', ha, hC⟩ | ⟨why, pos, he, hpos⟩
  · obtain ⟨hok, hstays', herror⟩ := h a scopes' hC _ (hs₁.rescope scopes') rfl
    rw [← bind_of_eq_ok (f := f) ha] at hok herror
    refine ⟨hok, fun hs hn => .bind (hstays s₁ hs.ne_nil) fun a' s' ha' => ?_, herror⟩
    cases ha.symm.trans ha'
    exact hstays' hs hn
  · refine ⟨fun b s₂ hb => ?_, fun hs _ => .bind (hstays s₁ hs.ne_nil) fun a s' ha => ?_,
      fun e he' => ?_⟩
    · obtain ⟨a, s', ha, -⟩ := bind_eq_ok hb
      cases he.symm.trans ha
    · cases he.symm.trans ha
    · rcases bind_eq_error he' with he' | ⟨a, s', ha, -⟩
      · cases he.symm.trans he'
        exact ⟨hpos, fun _ _ => trivial⟩
      · cases he.symm.trans ha

/-- What follows a step that only looks. -/
theorem afterLook {P : α → Prop} (hstays : ∀ s₁ : ParseState, s₁.rest ≠ [] → Stays s₁ p)
    (hp : ∀ s₁, Reached s used s₁ → ∃ a, p s₁ = .ok (a, s₁) ∧ P a)
    (h : ∀ a, P a → Takes n k s used scopes (f a) R) : Takes n k s used scopes (p >>= f) R := by
  refine .afterStep (C := fun a scopes' => P a ∧ scopes' = scopes) hstays
    (fun s₁ hs₁ hscopes => .inl ?_) ?_
  · obtain ⟨a, ha, hpa⟩ := hp s₁ hs₁
    exact ⟨a, s₁.scopes, ha, hpa, hscopes⟩
  · rintro a _ ⟨ha, rfl⟩
    exact h a ha

theorem peek {f : Token → Parse β} (h : Takes n k s [] scopes (f (s.rest.headD s.last)) R) :
    Takes n k s [] scopes (Parse.peek >>= f) R := by
  refine fun s₁ hs₁ hscopes => .peek ?_
  rw [hs₁.headD]
  exact h s₁ hs₁ hscopes

theorem skip {f : Unit → Parse β} (hkind : (s.rest.headD s.last).kind.isPlain = true)
    (h : ∀ t, s.rest.headD s.last = t → [t] <+: s.rest →
      Takes (n - 1) (k - 1) s [t] scopes (f ()) R) :
    Takes n k s [] scopes (Parse.skip >>= f) R := by
  intro s₁ hs₁ hscopes
  rw [← hs₁.headD] at hkind h
  exact .skipPlain hs₁ hkind (hscopes ▸ h)

theorem expect {f : Token → Parse β} (hkind : kind.isPlain = true)
    (h : ∀ t, t.kind = kind → (used ++ [t]) <+: s.rest →
      Takes (n - 1) (k - 1) s (used ++ [t]) scopes (f t) R) :
    Takes n k s used scopes (Parse.expect kind >>= f) R := by
  obtain ⟨hdeclares, heof⟩ := TokenKind.isPlain_iff.1 hkind
  refine fun s₁ hs₁ hscopes => .expect heof hs₁.places_subset fun t ts hrest ht => ?_
  have hreach := hs₁.trans (.token hrest)
  exact .release (.single (ht ▸ hdeclares)) (h t ht hreach.isPrefix _ hreach hscopes)

/-- A token and the one behind it, which together introduce names. -/
theorem pair {f : Token → Parse β} (names : Token → List String)
    (heof : (s.rest.headD s.last).kind ≠ .eof) (hkind : kind ≠ .eof)
    (hnames : ∀ u, u.kind = kind → Introduces [s.rest.headD s.last, u] (names u))
    (h : ∀ t u, s.rest.headD s.last = t → u.kind = kind → [t, u] <+: s.rest →
      Takes (n - 1) (k - 1) s [t, u] scopes (f u) fun b total names' s' =>
        R b total (names u ++ names') s') :
    Takes n k s [] scopes (do Parse.skip; let u ← Parse.expect kind; f u) R := by
  intro s₁ hs₁ hscopes
  rw [← hs₁.headD] at heof hnames h
  refine .skip heof fun t ts hrest => ?_
  rw [hrest] at hnames h
  have hreach := hs₁.trans (.token hrest)
  refine .expect hkind hreach.places_subset fun u us hrest' hu => .release (hnames u hu) ?_
  have hreach' := hreach.trans (.token hrest')
  exact ((h t u rfl hu hreach'.isPrefix).mono (Nat.sub_le ..) (Nat.sub_le ..)) _ hreach' hscopes

/-- A token that may be there, where it matters which state comes after it. -/
theorem acceptAt {f : Option Token → Parse β} (hkind : kind.isPlain = true)
    (hnone : Takes n k s used scopes (f none) R)
    (hsome : ∀ t ts s₁, Reached s used s₁ → s₁.scopes = scopes → s₁.rest = t :: ts →
      t.kind = kind → TakesAt (n - 1) (k - 1) s (used ++ [t]) []
        { s₁ with last := t, rest := ts } (f (some t)) R) :
    Takes n k s used scopes (Parse.accept kind >>= f) R := by
  obtain ⟨hdeclares, heof⟩ := TokenKind.isPlain_iff.1 hkind
  intro s₁ hs₁ hscopes
  rw [Parse.accept, bind_assoc]
  refine .peek ?_
  split
  · rename_i ht
    rw [bind_assoc]
    refine .skip (ht ▸ heof) fun t ts hrest => ?_
    rw [hrest] at ht ⊢
    exact .release (.single (ht ▸ hdeclares)) (hsome t ts s₁ hs₁ hscopes hrest ht)
  · exact hnone s₁ hs₁ hscopes

theorem accept {f : Option Token → Parse β} (hkind : kind.isPlain = true)
    (hnone : Takes n k s used scopes (f none) R)
    (hsome : ∀ t, t.kind = kind → (used ++ [t]) <+: s.rest →
      Takes (n - 1) (k - 1) s (used ++ [t]) scopes (f (some t)) R) :
    Takes n k s used scopes (Parse.accept kind >>= f) R := by
  refine .acceptAt hkind hnone fun t ts s₁ hs₁ hscopes hrest ht => ?_
  have hreach := hs₁.trans (.token hrest)
  exact hsome t ht hreach.isPrefix _ hreach hscopes

theorem peekSecond {f : Token → Parse β} (h : ∀ t, Takes n k s used scopes (f t) R) :
    Takes n k s used scopes (Parse.peekSecond >>= f) R := by
  refine .afterLook (P := fun _ => True) (fun _ => .peekSecond) (fun s₁ _ => ?_) fun t _ => h t
  rw [Parse.peekSecond]
  split <;> exact ⟨_, rfl, trivial⟩

/-- The token that was taken last. -/
theorem previous {f : Token → Parse β}
    (h : ∀ t, t.pos ∈ s.places → Takes n k s used scopes (f t) R) :
    Takes n k s used scopes (Parse.previous >>= f) R :=
  .afterLook (fun _ => .previous) (fun _ hs₁ =>
    ⟨_, rfl, hs₁.places_subset (List.mem_map_of_mem (List.mem_cons_self ..))⟩) h

theorem nextIs {f : Bool → Parse β} (h : ∀ b, Takes n k s used scopes (f b) R) :
    Takes n k s used scopes (Parse.nextIs kind >>= f) R := by
  refine .afterLook (P := fun _ => True) (fun _ hs => .bind (.peek hs) fun t s' ht => ?_)
    (fun _ _ => ⟨_, rfl, trivial⟩) fun b _ => h b
  cases ht
  exact .pure hs _

/-- A span ends with the last token that was taken. -/
theorem spanFrom {start : Token} {f : Span → Parse β}
    (h : Takes n k s used scopes (f ⟨start.pos, (used.getLastD s.last).span.stop⟩) R) :
    Takes n k s used scopes (Parse.spanFrom start >>= f) R := by
  refine .afterLook (P := fun span => span = ⟨start.pos, (used.getLastD s.last).span.stop⟩)
    (fun _ hs => .bind (.previous hs) fun t s' ht => ?_)
    (fun _ hs₁ => ⟨_, rfl, by rw [hs₁.last]⟩) fun span hspan => hspan ▸ h
  cases ht
  exact .pure hs _

/-- What is read in as many rounds as there are tokens to come. -/
theorem remaining {f : Nat → Parse β} (h : ∀ m, Takes (min n m) k s used scopes (f m) R) :
    Takes n k s used scopes (Parse.remaining >>= f) R := by
  intro s₁ hs₁ hscopes
  have hlook : Takes (min n s₁.rest.length) k s used scopes (Parse.remaining >>= f) R :=
    .afterLook (P := fun m => m = s₁.rest.length) (fun _ => .remaining) (fun s₂ hs₂ => ?_)
      fun m hm => hm ▸ h _
  · obtain ⟨hok, hstays, herror⟩ := hlook s₁ hs₁ hscopes
    exact ⟨hok, fun hs hn => hstays hs (by omega), fun e he =>
      ⟨(herror e he).1, fun hs hn => (herror e he).2 hs (by omega)⟩⟩
  · exact ⟨_, rfl, congrArg List.length (by simpa using hs₂.rest.symm.trans hs₁.rest)⟩

/-! ## Names -/

theorem require {name : String} {f : Unit → Parse β} (hpos : pos ∈ s.places)
    (h : name ∈ scopes.flatten → Takes n k s used scopes (f ()) R) :
    Takes n k s used scopes (Parse.require name pos >>= f) R := by
  refine .afterStep (C := fun _ scopes' => name ∈ scopes.flatten ∧ scopes' = scopes)
    (fun _ hs => .require hs name pos) (fun s₁ _ hscopes => ?_) ?_
  · rw [Parse.require]
    split
    · rename_i hname
      obtain ⟨scope, hmem, hin⟩ := List.any_eq_true.1 (hscopes ▸ hname)
      exact .inl ⟨(), s₁.scopes, rfl, List.mem_flatten.2 ⟨scope, hmem, of_decide_eq_true hin⟩,
        hscopes⟩
    · exact .inr ⟨_, _, rfl, hpos⟩
  · rintro _ _ ⟨hname, rfl⟩
    exact h hname

/-- A name is declared in the innermost scope, where it is new. -/
theorem declare {name : String} {f : Unit → Parse β} (hpos : pos ∈ s.places)
    (h : name ∉ scopes.headD [] →
      Takes n k s used ((name :: scopes.headD []) :: scopes.drop 1) (f ()) R) :
    Takes n k s used scopes (Parse.declare name pos >>= f) R := by
  refine .afterStep (C := fun _ scopes' => name ∉ scopes.headD [] ∧
      scopes' = (name :: scopes.headD []) :: scopes.drop 1)
    (fun _ hs => .declare hs name pos) (fun s₁ _ hscopes => ?_) ?_
  · rw [Parse.declare, hscopes]
    split
    · split
      · exact .inr ⟨_, _, rfl, hpos⟩
      · rename_i hnew
        exact .inl ⟨(), _, rfl, hnew, rfl⟩
    · exact .inl ⟨(), _, rfl, List.not_mem_nil, rfl⟩
  · rintro _ _ ⟨hnew, rfl⟩
    exact h hnew

/-- Names can be declared only if they are different, and new in the scope. -/
theorem declareAll {declared scope : List String} {outer : List (List String)} {f : Unit → Parse β}
    (hpos : pos ∈ s.places)
    (h : ∀ inner, inner ⊆ declared ++ scope → declared.Nodup →
      (∀ name ∈ declared, name ∉ scope) → Takes n k s used (inner :: outer) (f ()) R) :
    Takes n k s used (scope :: outer) (Parse.declareAll declared pos >>= f) R := by
  induction declared generalizing scope with
  | nil => exact h scope (List.subset_append_right ..) .nil (by simp)
  | cons name declared ih =>
    rw [Parse.declareAll, bind_assoc]
    refine .declare hpos fun hname => ih fun inner hinner hnodup hnew => h inner ?_ ?_ ?_
    · intro x hx
      have hmem := hinner hx
      grind
    · exact List.nodup_cons.2 ⟨fun hmem => hnew name hmem (List.mem_cons_self ..), hnodup⟩
    · refine List.forall_mem_cons.2 ⟨hname, fun x hx hmem => ?_⟩
      exact hnew x hx (List.mem_cons_of_mem _ hmem)

end Takes

/-- A token is noted as a word that is skipped, right behind it. -/
theorem TakesAt.noted {ts : List Token} {f : Unit → Parse β} (hs₁ : Reached s used s₁)
    (hrest : s₁.rest = t :: ts) (ht : t.kind = .ident)
    (h : Takes n k s (used ++ [t]) s₁.scopes (f ()) R) :
    TakesAt n k s (used ++ [t]) [] { s₁ with last := t, rest := ts }
      (noteSkipped ⟨t.value, t.pos⟩ >>= f) R := by
  obtain ⟨hok, hstays, herror⟩ := h _ (hs₁.trans (.word hrest ht)) rfl
  refine ⟨hok, fun hs hn => .bind (.noteSkipped hs.ne_nil _) fun _ s' hs' => ?_, herror⟩
  cases hs'
  exact hstays hs hn

/-! ## Readers inside declarations -/

/-- The tokens introduce no names, the scopes are the same afterwards, and `P` holds of all the
tokens since `s` and of the result. -/
abbrev GivesFrom (n k : Nat) (scopes : List (List String)) (s : ParseState) (used : List Token)
    (p : Parse α) (P : List Token → α → Prop) : Prop :=
  Takes n k s used scopes p fun a total names s' => names = [] ∧ s'.scopes = scopes ∧ P total a

/-- Wherever the reader starts in the scopes, it takes `k` tokens or more that introduce no names,
the scopes are the same afterwards, and `P` holds of the tokens and of the result. In front of at
most `n` tokens, it stays at tokens and fails properly. -/
def Gives (n k : Nat) (scopes : List (List String)) (p : Parse α) (P : List Token → α → Prop) :
    Prop :=
  ∀ s, GivesFrom n k scopes s [] p P

section Gives

variable {P P' : List Token → α → Prop} {S : β → List Token → List String → ParseState → Prop}

theorem Takes.give {a : α} (h : P used a) : GivesFrom n 0 scopes s used (Pure.pure a) P :=
  .pure fun _ _ hscopes => ⟨rfl, hscopes, h⟩

theorem Takes.thenGiven (h : GivesFrom n j scopes s used p P)
    (hf : ∀ a total, P total a → total <+: s.rest → Takes (n - j) (k - j) s total scopes (f a) S) :
    Takes n k s used scopes (p >>= f) S := by
  refine h.bind ?_
  rintro a total _ s₂ ⟨rfl, hs₂, ha⟩ hpre
  rw [hs₂]
  exact hf a total ha hpre

/-- What is known of a reader wherever it starts. -/
theorem Takes.lift (h : ∀ s, Takes n k s [] scopes p Q) :
    Takes n k s used scopes p fun a total names s' =>
      ∃ more, total = used ++ more ∧ Q a more names s' := by
  intro s₁ hs₁ hscopes
  obtain ⟨hok, hstays, herror⟩ := h s₁ s₁ (.refl s₁) hscopes
  refine ⟨fun a s₂ hp => ?_, hstays, fun e he => ⟨?_, (herror e he).2⟩⟩
  · obtain ⟨more, names, hreach, hk, hmore, hq⟩ := hok a s₂ hp
    exact ⟨more, names, hs₁.trans hreach, hk, hmore, more, rfl, hq⟩
  · cases e with
    | fault why pos => exact hs₁.places_subset (herror _ he).1
    | _ => trivial

namespace Gives

/-- What follows such a reader. -/
theorem bind (h : Gives n j scopes p P)
    (hf : ∀ a more, P more a → (used ++ more) <+: s.rest →
      Takes (n - j) (k - j) s (used ++ more) scopes (f a) S) :
    Takes n k s used scopes (p >>= f) S := by
  refine (Takes.lift h).bind ?_
  rintro a _ _ s₂ ⟨more, rfl, rfl, hs₂, ha⟩ hpre
  rw [hs₂]
  exact hf a more ha hpre

theorem mono (h : Gives n k scopes p P) (hn : n' ≤ n) (hk : k' ≤ k) : Gives n' k' scopes p P :=
  fun s => (h s).mono hn hk

/-- A reader of which it does not matter what it takes. -/
theorem weaken (h : Gives n k scopes p P) : Gives n 0 scopes p P :=
  h.mono (Nat.le_refl _) (Nat.zero_le _)

/-- A reader behind a token. -/
theorem behind (h : Gives n k scopes p P) : Gives (n - 1) 0 scopes p P :=
  h.mono (Nat.sub_le ..) (Nat.zero_le _)

end Gives

/-- What is read in a scope of its own. -/
theorem Takes.inScope (h : Takes n k s used ([] :: scopes) p fun a total names s' =>
      names = [] ∧ s'.scopes.drop 1 = scopes ∧ P total a) :
    GivesFrom n k scopes s used (Parse.inScope p) P := by
  intro s₁ hs₁ hscopes
  obtain ⟨hok, hstays, herror⟩ := h _ (hs₁.rescope ([] :: s₁.scopes)) (by rw [hscopes])
  refine ⟨fun a s₂ hp => ?_, fun hs hn => .inScope (hstays hs hn), fun e he => ?_⟩
  · rw [Parse.inScope] at hp
    split at hp
    · rename_i s₃ hread
      cases hp
      obtain ⟨more, names, hreach, hq⟩ := hok a s₃ hread
      exact ⟨more, names, hreach.rescope _, hq⟩
    · cases hp
  · rw [Parse.inScope] at he
    split at he
    · cases he
    · rename_i hread
      cases he
      exact herror _ hread

/-- A reader that leaves the scopes as they are may be the last to read in a scope. -/
theorem Takes.closing {scope : List String} (h : GivesFrom n k (scope :: scopes) s used p P) :
    Takes n k s used (scope :: scopes) p fun a total names s' =>
      names = [] ∧ s'.scopes.drop 1 = scopes ∧ P total a :=
  h.imp fun _ _ _ _ hq => ⟨hq.1, by rw [hq.2.1]; rfl, hq.2.2⟩

/-- What is read where the parameters `declared` are known. -/
theorem Takes.inScopeOf {declared : List String} {pos : Pos} (hpos : pos ∈ s.places)
    (h : ∀ inner, inner ⊆ declared → declared.Nodup → GivesFrom n k (inner :: scopes) s used p P) :
    GivesFrom n k scopes s used (Parse.inScope do Parse.declareAll declared pos; p) P :=
  .inScope (.declareAll hpos fun inner hinner hnodup _ =>
    (h inner (by simpa using hinner) hnodup).closing)

end Gives

/-! ## Clauses -/

theorem clause_gives (mayDeclare : Bool) : Gives n 0 scopes (clause mayDeclare)
    fun more c => Laid more (c.toList.map .clause) (c.toList.map .clause) := by
  intro s s₁ hs₁ hscopes
  refine ⟨fun c s₂ hp => ?_, fun hs _ => ?_, fun e he => ?_⟩
  · rw [clause] at hp
    split at hp
    · rename_i r hr
      cases hp
      obtain ⟨hlaid, hskipped, hwords⟩ := ClauseReading.read_laid hr
      obtain ⟨hrest, hused, -⟩ := ClauseReading.read_eq hr
      exact ⟨r.used, [], hs₁.trans ⟨hrest, rfl, _, rfl, hskipped, hwords⟩, Nat.zero_le _, hused,
        rfl, hscopes, hlaid⟩
    · cases hp
  · exact .clause hs.ne_nil mayDeclare fun r hr => (ClauseReading.read_ended hr hs).ne_nil
  · rw [clause] at he
    split at he
    · cases he
    · rename_i hr
      cases he
      rcases ClauseReading.read_error hr with ⟨why, pos, rfl, hpos⟩ | ⟨rfl, hnot⟩
      · exact ⟨hs₁.places_subset (List.mem_cons_of_mem _ hpos), fun _ _ => trivial⟩
      · exact ⟨trivial, fun hs _ => absurd hs hnot⟩

/-! ## Repetitions -/

/-- The tokens hold stretches for the items, one behind the other. -/
inductive Strung (P : List Token → α → Prop) : List Token → List α → Prop
  | nil (ts : List Token) : Strung P ts []
  | cons {a : α} {as : List α} {us ts : List Token} (before : List Token) (ha : P us a)
      (has : Strung P ts as) : Strung P (before ++ (us ++ ts)) (a :: as)

namespace Strung

variable {P : List Token → α → Prop} {as : List α} {ts : List Token} (h : Strung P ts as)

include h

theorem widen (before behind : List Token) : Strung P (before ++ (ts ++ behind)) as := by
  induction h generalizing before with
  | nil => exact .nil _
  | cons before' ha _ ih =>
    simpa using Strung.cons (before ++ before') ha (ih [])

theorem forall_mem {C : α → Prop} (hC : ∀ us a, P us a → C a) : ∀ a ∈ as, C a := by
  induction h with
  | nil => simp
  | cons _ ha _ ih => exact List.forall_mem_cons.2 ⟨hC _ _ ha, ih⟩

theorem laid {tops ns : α → List (Node Span)} (hP : ∀ us a, P us a → Laid us (tops a) (ns a)) :
    Laid ts (as.flatMap tops) (as.flatMap ns) := by
  induction h with
  | nil ts => exact .nil ts
  | cons before ha _ ih => exact ((hP _ _ ha).append ih).behind before

theorem laidEach {node : α → Node Span} {ns : α → List (Node Span)}
    (hP : ∀ us a, P us a → Laid us [node a] (ns a)) : Laid ts (as.map node) (as.flatMap ns) := by
  rw [List.map_eq_flatMap]
  exact h.laid hP

end Strung

section Repetitions

variable {P : List Token → α → Prop}

/-- In front of `m` tokens there are less than `m` further items. -/
theorem sepTail_gives (h : Gives n 0 scopes p P) (m : Nat) :
    Gives (min n m) 0 scopes (sepTail p m) (Strung P) := by
  induction m with
  | zero => exact fun s => .spent (Nat.min_zero n)
  | succ m ih =>
    intro s
    refine .accept rfl (.give (.nil _)) fun t _ _ => ?_
    have hitem : Gives (min n (m + 1) - 1) 0 scopes p P := h.mono (by omega) (Nat.le_refl _)
    refine hitem.bind fun a us ha _ => ?_
    refine (ih.mono (by omega) (Nat.le_refl _)).bind fun as ts has _ => .give ?_
    simpa using Strung.cons [t] ha has

theorem commaList_gives (h : Gives n 1 scopes p P) :
    Gives n 1 scopes (commaList p) (Strung P) := by
  intro s
  refine h.bind fun a us ha _ => .remaining fun m => ?_
  refine (sepTail_gives h.behind m).bind fun as ts has _ => .give ?_
  simpa using Strung.cons [] ha has

theorem listUntil_gives (close : Sign) (h : Gives n 1 scopes p P) :
    Gives n 1 scopes (listUntil close p) (Strung P) := by
  intro s
  refine .nextIs fun closed => ?_
  split
  · exact .expect rfl fun _ _ _ => .give (.nil _)
  · refine (commaList_gives h).bind fun as ts has _ => ?_
    refine .expect rfl fun t _ _ => .give ?_
    simpa using has.widen [] [t]

end Repetitions

end Parse

end RaisingEffects
