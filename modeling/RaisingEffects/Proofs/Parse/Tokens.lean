import RaisingEffects.Proofs.Tree.WellFormed

/-!
# The tokens in front of a reader

The reader knows the names of declarations from a first look at the tokens, and takes the tokens one
by one up to the end mark.

* `Introduces used names`: a first look finds the names `names` in the tokens `used`, whatever
  tokens come after them.
* `Ended ts`: the tokens end in an end mark.
* `ClauseReading.read_eq` and `ClauseReading.read_error`: a clause takes tokens from the front that
  introduce no names, none of them the end mark, or is refused at one of them.
* `Parse.skip_eq_ok`, `Parse.expect_eq_ok`, `Parse.accept_eq_ok`: how a token is taken.
-/

namespace RaisingEffects

/-! ## The first look at the tokens -/

/-- Whether a token of this kind in front of a name makes it known everywhere. -/
def TokenKind.declares (kind : TokenKind) : Bool :=
  kind = .keyword .fn || kind = .keyword .error || kind = .keyword .type

/-- Whether a token of this kind neither declares a name nor ends the tokens. -/
def TokenKind.isPlain (kind : TokenKind) : Bool := !kind.declares && kind ≠ .eof

theorem TokenKind.isPlain_iff {kind : TokenKind} :
    kind.isPlain = true ↔ kind.declares = false ∧ kind ≠ .eof := by
  simp [isPlain]

/-- A first look finds the names `names` in the tokens `used`, whatever comes after them. -/
def Introduces (used : List Token) (names : List String) : Prop :=
  ∀ rest, declaredNames (used ++ rest) = names ++ declaredNames rest

namespace Introduces

variable {used more : List Token} {names others : List String} {t u : Token}

theorem nil : Introduces [] [] := fun _ => rfl

theorem append (h : Introduces used names) (h' : Introduces more others) :
    Introduces (used ++ more) (names ++ others) := by
  intro rest
  rw [List.append_assoc, h, h', List.append_assoc]

theorem single (h : t.kind.declares = false) : Introduces [t] [] := by
  intro rest
  cases rest with
  | nil => rfl
  | cons u rest =>
    rw [TokenKind.declares] at h
    simp [declaredNames, h]

theorem cons (h : t.kind.declares = false) (h' : Introduces used names) :
    Introduces (t :: used) names :=
  (single h).append h'

theorem pair (hu : u.kind.declares = false) (h : u.kind ≠ .ident) : Introduces [t, u] [] := by
  intro rest
  have htail := single hu rest
  simp only [List.singleton_append, List.nil_append] at htail
  simp [declaredNames, h, htail]

/-- A name after a word that declares it. -/
theorem named (ht : t.kind.declares = true) (hu : u.kind = .ident) :
    Introduces [t, u] [u.value] := by
  intro rest
  have htail := single (show u.kind.declares = false by rw [hu]; rfl) rest
  simp only [List.singleton_append, List.nil_append] at htail
  rw [TokenKind.declares] at ht
  simp [declaredNames, ht, hu, htail]

end Introduces

/-! ## The end mark -/

/-- The tokens end in an end mark. -/
def Ended (ts : List Token) : Prop := ∃ t, ts.getLast? = some t ∧ t.kind = .eof

namespace Ended

variable {t : Token} {ts : List Token}

theorem ne_nil (h : Ended ts) : ts ≠ [] := by
  rintro rfl
  obtain ⟨t, ht, -⟩ := h
  cases ht

theorem exists_cons (h : Ended ts) : ∃ u us, ts = u :: us := List.exists_cons_of_ne_nil h.ne_nil

theorem length_pos (h : Ended ts) : 0 < ts.length := List.length_pos_iff.2 h.ne_nil

/-- Behind a token that is no end mark there is another. -/
theorem tail (h : Ended (t :: ts)) (ht : t.kind ≠ .eof) : Ended ts := by
  obtain ⟨u, hu, hkind⟩ := h
  cases ts with
  | nil =>
    cases hu
    exact absurd hkind ht
  | cons v vs => exact ⟨u, by rwa [List.getLast?_cons_cons] at hu, hkind⟩

theorem of_suffix {used : List Token} (h : Ended (used ++ ts)) (hts : ts ≠ []) : Ended ts := by
  obtain ⟨t, ht, hkind⟩ := h
  rw [List.getLast?_append, Option.or_of_isSome (by simpa using hts)] at ht
  exact ⟨t, ht, hkind⟩

/-- Behind tokens that are no end marks there are others. -/
theorem of_append {used : List Token} (h : Ended (used ++ ts)) (hused : ∀ t ∈ used, t.kind ≠ .eof) :
    Ended ts := by
  induction used with
  | nil => exact h
  | cons t used ih =>
    obtain ⟨ht, hused⟩ := List.forall_mem_cons.1 hused
    exact ih (h.tail ht) hused

end Ended

/-- The failure is at one of the tokens, or for want of an end mark. -/
def ParseFailure.Within (ts : List Token) (e : ParseFailure) : Prop :=
  (∃ fault pos, e = .fault fault pos ∧ pos ∈ ts.map Token.pos) ∨ (e = .outOfTokens ∧ ¬Ended ts)

theorem ParseFailure.Within.nil : ParseFailure.outOfTokens.Within [] :=
  .inr ⟨rfl, fun h => h.ne_nil rfl⟩

theorem ParseFailure.Within.cons {e : ParseFailure} {t : Token} {ts : List Token}
    (h : e.Within ts) (ht : t.kind ≠ .eof) : e.Within (t :: ts) := by
  rcases h with ⟨fault, pos, rfl, hpos⟩ | ⟨rfl, hnot⟩
  · exact .inl ⟨fault, pos, rfl, List.mem_cons_of_mem _ hpos⟩
  · exact .inr ⟨rfl, fun h => hnot (h.tail ht)⟩

/-! ## Clauses -/

namespace ClauseReading

variable {ts : List Token} {mayDeclare : Bool}

theorem names_eq {ts used rest : List Token} {ns : List String}
    (h : names ts = .ok (ns, used, rest)) :
    ts = used ++ rest ∧ Introduces used [] ∧ ∀ t ∈ used, t.kind ≠ .eof := by
  fun_induction names ts generalizing ns used rest with
  | case1 | case2 | case5 | case6 => cases h
  | case3 t ht u us hu ih =>
    obtain ⟨⟨ns', used', rest'⟩, hread, heq⟩ := except_bind_eq_ok h
    cases heq
    obtain ⟨rfl, hused, hkinds⟩ := ih hread
    refine ⟨rfl, .cons (by rw [ht]; rfl) (.cons (by rw [hu]; rfl) hused), ?_⟩
    simpa [ht, hu] using hkinds
  | case4 t ht u us _ hu =>
    cases h
    exact ⟨rfl, .cons (by rw [ht]; rfl) (.single (by rw [hu]; rfl)), by simp [ht, hu]⟩

/-- A clause takes tokens from the front, which introduce no names. -/
theorem read_eq {r : ClauseReading} (h : read mayDeclare ts = .ok r) :
    ts = r.used ++ r.rest ∧ Introduces r.used [] ∧ ∀ t ∈ r.used, t.kind ≠ .eof := by
  cases ts with
  | nil => cases h
  | cons t ts =>
    rw [read] at h
    split at h
    · rename_i ht
      have hstart : t.kind.declares = false := by rw [ht]; rfl
      cases ts with
      | nil => cases h
      | cons u us =>
        rw [afterRaises] at h
        dsimp only at h
        split at h
        · rename_i hu
          obtain ⟨⟨ns, used, rest⟩, hread, heq⟩ := except_bind_eq_ok h
          cases heq
          obtain ⟨rfl, hused, hkinds⟩ := names_eq hread
          refine ⟨rfl, .cons hstart (.cons (by rw [hu]; rfl) hused), ?_⟩
          simpa [ht, hu] using hkinds
        · split at h
          · rename_i hu
            rw [Bool.and_eq_true, decide_eq_true_eq] at hu
            cases h
            exact ⟨rfl, .cons hstart (.single (by rw [hu.1]; rfl)), by simp [ht, hu.1]⟩
          · cases h
            exact ⟨rfl, .single hstart, by simp [ht]⟩
    · cases h
      exact ⟨rfl, .nil, by simp⟩

/-- A clause stays in front of the end mark. -/
theorem read_ended {r : ClauseReading} (h : read mayDeclare ts = .ok r) (hts : Ended ts) :
    Ended r.rest := by
  obtain ⟨rfl, -, hkinds⟩ := read_eq h
  exact hts.of_append hkinds

/-- A list of names is refused at one of its tokens, or for want of an end mark. -/
theorem names_error {e : ParseFailure} (h : names ts = .error e) : e.Within ts := by
  fun_induction names ts with
  | case1 =>
    cases h
    exact .nil
  | case2 t ht =>
    cases h
    exact .cons .nil (by rw [ht]; decide)
  | case3 t ht u us hu ih =>
    rcases except_bind_eq_error h with hread | ⟨r, -, h⟩
    · exact .cons (.cons (ih hread) (by rw [hu]; decide)) (by rw [ht]; decide)
    · cases h
  | case4 => cases h
  | case5 | case6 =>
    cases h
    exact .inl ⟨_, _, rfl, by simp⟩

/-- A clause is refused at one of the tokens, or for want of an end mark. -/
theorem read_error {e : ParseFailure} (h : read mayDeclare ts = .error e) : e.Within ts := by
  cases ts with
  | nil =>
    cases h
    exact .nil
  | cons t ts =>
    rw [read] at h
    split at h
    · rename_i ht
      refine .cons ?_ (by rw [ht]; decide)
      cases ts with
      | nil =>
        cases h
        exact .nil
      | cons u us =>
        rw [afterRaises] at h
        dsimp only at h
        split at h
        · rename_i hu
          rcases except_bind_eq_error h with hread | ⟨r, -, h⟩
          · exact .cons (names_error hread) (by rw [hu]; decide)
          · cases h
        · split at h <;> cases h
    · cases h

end ClauseReading

namespace Parse

variable {α β : Type} {s : ParseState} {p : Parse α} {f : α → Parse β} {s' : ParseState}

/-! ## Taking tokens -/

theorem skip_eq_ok {u : Unit} (h : skip s = .ok (u, s')) :
    ∃ ts, s.rest = s.rest.headD s.last :: ts ∧
      s' = { s with last := s.rest.headD s.last, rest := ts } := by
  rw [skip] at h
  split at h
  · rename_i t ts hrest
    cases h
    rw [hrest]
    exact ⟨ts, rfl, rfl⟩
  · cases h

theorem peek_of_rest {t : Token} {ts : List Token} (h : s.rest = t :: ts) :
    peek s = .ok (t, s) := by
  rw [peek, h]
  rfl

theorem skip_of_rest {t : Token} {ts : List Token} (h : s.rest = t :: ts) :
    skip s = .ok ((), { s with last := t, rest := ts }) := by
  rw [skip, h]

theorem bind_of_eq_ok {a : α} (h : p s = .ok (a, s')) : (p >>= f) s = f a s' := by
  simp only [Bind.bind, StateT.bind, h, Except.bind]

theorem expect_eq_ok {kind : TokenKind} {t : Token} (h : expect kind s = .ok (t, s')) :
    ∃ ts, s.rest = t :: ts ∧ t.kind = kind ∧ s' = { s with last := t, rest := ts } := by
  obtain ⟨u, s₁, hu, h⟩ := bind_eq_ok h
  cases hu
  split at h
  · rename_i hkind
    obtain ⟨_, s₂, hskip, h⟩ := bind_eq_ok h
    cases h
    obtain ⟨ts, hrest, rfl⟩ := skip_eq_ok hskip
    exact ⟨ts, hrest, hkind, rfl⟩
  · cases h

theorem accept_eq_ok {kind : TokenKind} {o : Option Token} (h : accept kind s = .ok (o, s')) :
    (o = none ∧ s' = s) ∨ ∃ t ts, o = some t ∧ s.rest = t :: ts ∧ t.kind = kind ∧
      s' = { s with last := t, rest := ts } := by
  obtain ⟨u, s₁, hu, h⟩ := bind_eq_ok h
  cases hu
  split at h
  · rename_i hkind
    obtain ⟨_, s₂, hskip, h⟩ := bind_eq_ok h
    cases h
    obtain ⟨ts, hrest, rfl⟩ := skip_eq_ok hskip
    exact .inr ⟨_, ts, rfl, hrest, hkind, rfl⟩
  · cases h
    exact .inl ⟨rfl, rfl⟩

end Parse

end RaisingEffects
