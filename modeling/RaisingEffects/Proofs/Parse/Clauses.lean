import RaisingEffects.Proofs.Parse.Tokens

/-!
# Clauses and the tokens they are read from

A clause with types is spelled `raises ( n₁ , … , nₖ )` with `k ≥ 1` names. The reader of clauses
takes such a clause exactly where one stands, and where `raises (` begins none, it stops at the
first token after which no such clause can be completed.

* `Clause.typedKinds` and `Clause.SpelledBy` give the tokens of a clause with types;
  `Clause.BegunBy` are those that begin one.
* `ClauseReading.names_eq_ok_iff` and `ClauseReading.names_misfit` are the two sides for the names
  after the opening parenthesis, from which `ClauseReading.read_exact` is put together.
-/

namespace RaisingEffects

namespace Clause

/-- The kinds of the tokens `n₁ , … , nₖ )`. -/
def namesKinds (k : Nat) : List TokenKind :=
  (List.replicate k .ident).intersperse (.symbol .comma) ++ [.symbol .rparen]

/-- The kinds of the tokens `raises ( n₁ , … , nₖ )`. -/
def typedKinds (k : Nat) : List TokenKind :=
  .keyword .raises :: .symbol .lparen :: namesKinds k

/-- The texts of the names among the tokens. -/
def namesIn (ts : List Token) : List String := (ts.filter (·.kind = .ident)).map Token.value

/-- The tokens are `n₁ , … , nₖ )`, for the `k ≥ 1` names. -/
def NamesSpelledBy (ts : List Token) (names : List String) : Prop :=
  names ≠ [] ∧ ts.map Token.kind = namesKinds names.length ∧ namesIn ts = names

/-- The tokens are `raises ( n₁ , … , nₖ )`, for the `k ≥ 1` names. -/
def SpelledBy (ts : List Token) (names : List String) : Prop :=
  names ≠ [] ∧ ts.map Token.kind = typedKinds names.length ∧ namesIn ts = names

/-- The tokens begin some `n₁ , … , nₖ )` with `k ≥ 1`. -/
def NamesBegunBy (ts : List Token) : Prop := ∃ k, ts.map Token.kind <+: namesKinds (k + 1)

/-- The tokens begin some `raises ( n₁ , … , nₖ )` with `k ≥ 1`. -/
def BegunBy (ts : List Token) : Prop := ∃ k, ts.map Token.kind <+: typedKinds (k + 1)

/-- What is wrong with a token that cannot come after the tokens before it: behind a name the list
goes on or ends, anywhere else a name is due. -/
def misfit (before : List Token) (t : Token) : ParseFault :=
  if before.getLast?.map Token.kind = some .ident then .expected (.symbol .rparen) t.kind
  else .expectedErrorType t.kind

theorem namesKinds_one : namesKinds 1 = [.ident, .symbol .rparen] := rfl

theorem namesKinds_succ (k : Nat) :
    namesKinds (k + 2) = .ident :: .symbol .comma :: namesKinds (k + 1) := rfl

/-! ## Where a list of names goes on -/

section Names

variable {t u : Token} {us : List Token} {names : List String}

theorem NamesBegunBy.nil : NamesBegunBy [] := ⟨0, List.nil_prefix⟩

theorem NamesBegunBy.kind (h : NamesBegunBy (t :: us)) : t.kind = .ident := by
  obtain ⟨k, hk⟩ := h
  cases k with
  | zero => exact (List.cons_prefix_cons.1 hk).1
  | succ k => exact (List.cons_prefix_cons.1 hk).1

theorem NamesBegunBy.single (ht : t.kind = .ident) : NamesBegunBy [t] :=
  ⟨0, by simp [namesKinds_one, ht]⟩

/-- Behind a name the list of names ends, or goes on after a comma. -/
theorem namesBegunBy_cons_cons (ht : t.kind = .ident) :
    NamesBegunBy (t :: u :: us) ↔
      u.kind = .symbol .rparen ∧ us = [] ∨ u.kind = .symbol .comma ∧ NamesBegunBy us := by
  constructor
  · rintro ⟨k, hk⟩
    cases k with
    | zero =>
      rw [namesKinds_one, List.map_cons, List.map_cons, List.cons_prefix_cons,
        List.cons_prefix_cons] at hk
      exact .inl ⟨hk.2.1, by simpa using hk.2.2⟩
    | succ k =>
      rw [namesKinds_succ, List.map_cons, List.map_cons, List.cons_prefix_cons,
        List.cons_prefix_cons] at hk
      exact .inr ⟨hk.2.1, k, hk.2.2⟩
  · rintro (⟨hu, rfl⟩ | ⟨hu, k, hk⟩)
    · exact ⟨0, by simp [namesKinds_one, ht, hu]⟩
    · exact ⟨k + 1, by simpa [namesKinds_succ, ht, hu] using hk⟩

theorem NamesSpelledBy.single (ht : t.kind = .ident) (hu : u.kind = .symbol .rparen) :
    NamesSpelledBy [t, u] [t.value] :=
  ⟨by simp, by simp [namesKinds_one, ht, hu], by simp [namesIn, ht, hu]⟩

theorem NamesSpelledBy.cons (h : NamesSpelledBy us names) (ht : t.kind = .ident)
    (hu : u.kind = .symbol .comma) : NamesSpelledBy (t :: u :: us) (t.value :: names) := by
  obtain ⟨hne, hkinds, hnames⟩ := h
  obtain ⟨n, ns, rfl⟩ := List.exists_cons_of_ne_nil hne
  refine ⟨by simp, ?_, ?_⟩
  · simp only [List.map_cons, List.length_cons, namesKinds_succ, ht, hu, hkinds]
  · simpa [namesIn, ht, hu] using hnames

/-- A list of names is one name and the end, or a name, a comma and a list of names. -/
theorem namesSpelledBy_cases {ts : List Token} (h : NamesSpelledBy ts names) :
    (∃ t u, ts = [t, u] ∧ t.kind = .ident ∧ u.kind = .symbol .rparen ∧ names = [t.value]) ∨
      ∃ t u us ns, ts = t :: u :: us ∧ t.kind = .ident ∧ u.kind = .symbol .comma ∧
        names = t.value :: ns ∧ NamesSpelledBy us ns := by
  obtain ⟨hne, hkinds, hnames⟩ := h
  match names, hne with
  | [n], _ =>
    obtain ⟨t, us, rfl, ht, hus⟩ := List.map_eq_cons_iff.1 hkinds
    obtain ⟨u, vs, rfl, hu, hvs⟩ := List.map_eq_cons_iff.1 hus
    obtain rfl := List.map_eq_nil_iff.1 hvs
    exact .inl ⟨t, u, rfl, ht, hu, by simpa [namesIn, ht, hu] using hnames.symm⟩
  | n :: m :: ns, _ =>
    obtain ⟨t, us, rfl, ht, hus⟩ := List.map_eq_cons_iff.1 hkinds
    obtain ⟨u, vs, rfl, hu, hvs⟩ := List.map_eq_cons_iff.1 hus
    have hvalues : t.value = n ∧ namesIn vs = m :: ns := by simpa [namesIn, ht, hu] using hnames
    exact .inr ⟨t, u, vs, m :: ns, rfl, ht, hu, by rw [hvalues.1], by simp, hvs, hvalues.2⟩

end Names

/-! ## The head of a clause -/

theorem SpelledBy.cons_cons {t u : Token} {us : List Token} {names : List String}
    (ht : t.kind = .keyword .raises) (hu : u.kind = .symbol .lparen) :
    SpelledBy (t :: u :: us) names ↔ NamesSpelledBy us names := by
  simp [SpelledBy, NamesSpelledBy, typedKinds, namesIn, ht, hu]

theorem SpelledBy.cases {ts : List Token} {names : List String} (h : SpelledBy ts names) :
    ∃ t u us, ts = t :: u :: us ∧ t.kind = .keyword .raises ∧ u.kind = .symbol .lparen ∧
      NamesSpelledBy us names := by
  obtain ⟨t, us, rfl, ht, hus⟩ := List.map_eq_cons_iff.1 h.2.1
  obtain ⟨u, vs, rfl, hu, hvs⟩ := List.map_eq_cons_iff.1 hus
  exact ⟨t, u, vs, rfl, ht, hu, (SpelledBy.cons_cons ht hu).1 h⟩

theorem BegunBy.cons_cons {t u : Token} {us : List Token} (ht : t.kind = .keyword .raises)
    (hu : u.kind = .symbol .lparen) : BegunBy (t :: u :: us) ↔ NamesBegunBy us := by
  simp [BegunBy, NamesBegunBy, typedKinds, ht, hu]

end Clause

namespace ClauseReading

open Clause

/-! ## The names -/

theorem names_of_spelledBy {used : List Token} {ns : List String} (h : NamesSpelledBy used ns)
    (rest : List Token) : names (used ++ rest) = .ok (ns, used, rest) := by
  induction ns generalizing used with
  | nil => exact absurd rfl h.1
  | cons n ns ih =>
    rcases namesSpelledBy_cases h with
      ⟨t, u, rfl, ht, hu, heq⟩ | ⟨t, u, us, ns', rfl, ht, hu, heq, hus⟩
    · simp [names, ht, hu, heq]
    · cases heq
      simp only [List.cons_append, names, ht, hu, if_true]
      rw [ih hus]
      rfl

/-- The names that are read are those the tokens spell. -/
theorem names_eq_ok_iff {ts used rest : List Token} {ns : List String} :
    names ts = .ok (ns, used, rest) ↔ ts = used ++ rest ∧ NamesSpelledBy used ns := by
  constructor
  · intro h
    refine ⟨(names_eq h).1, ?_⟩
    fun_induction names ts generalizing ns used rest with
    | case1 | case2 | case5 | case6 => cases h
    | case3 t ht u us hu ih =>
      obtain ⟨⟨ns', used', rest'⟩, hread, heq⟩ := except_bind_eq_ok h
      cases heq
      exact (ih hread).cons ht hu
    | case4 t ht u us _ hu =>
      cases h
      exact .single ht hu
  · rintro ⟨rfl, h⟩
    exact names_of_spelledBy h rest

/-- Names that are refused are refused at the first token that does not fit. -/
theorem names_misfit {ts : List Token} {e : ParseFailure} (h : names ts = .error e)
    (he : e ≠ .outOfTokens) :
    ∃ before t after, ts = before ++ t :: after ∧ NamesBegunBy before ∧
      ¬NamesBegunBy (before ++ [t]) ∧ e = .fault (misfit before t) t.pos := by
  fun_induction names ts with
  | case1 | case2 =>
    cases h
    exact absurd rfl he
  | case3 t ht u us hu ih =>
    rcases except_bind_eq_error h with hread | ⟨r, -, h⟩
    · obtain ⟨before, v, after, rfl, hbegun, hnot, rfl⟩ := ih hread
      refine ⟨t :: u :: before, v, after, rfl, ?_, ?_, ?_⟩
      · exact (namesBegunBy_cons_cons ht).2 (.inr ⟨hu, hbegun⟩)
      · intro hmore
        rcases (namesBegunBy_cons_cons ht).1 hmore with ⟨hu', -⟩ | ⟨-, hmore⟩
        · rw [hu] at hu'
          cases hu'
        · exact hnot hmore
      · cases before <;> simp [misfit, hu]
    · cases h
  | case4 => cases h
  | case5 t ht u us hcomma hparen =>
    cases h
    refine ⟨[t], u, us, rfl, .single ht, ?_, by simp [misfit, ht]⟩
    intro hmore
    rcases (namesBegunBy_cons_cons ht).1 hmore with ⟨hu, -⟩ | ⟨hu, -⟩
    · exact hparen hu
    · exact hcomma hu
  | case6 t ts ht =>
    cases h
    exact ⟨[], t, ts, rfl, .nil, fun hmore => ht hmore.kind, by simp [misfit]⟩

/-! ## The clause -/

section Clause

variable {mayDeclare : Bool} {t u : Token} {ts us : List Token} {r : ClauseReading}

theorem read_absent (ht : t.kind ≠ .keyword .raises) :
    read mayDeclare (t :: ts) = .ok ⟨none, none, [], t :: ts⟩ := by
  rw [read, if_neg ht]

theorem read_bare (ht : t.kind = .keyword .raises) (hu : u.kind ≠ .symbol .lparen) :
    read mayDeclare (t :: u :: us) = .ok
      (if u.kind = .ident ∧ mayDeclare = false then
        ⟨some ⟨t.span, []⟩, some ⟨u.value, u.pos⟩, [t, u], us⟩
      else ⟨some ⟨t.span, []⟩, none, [t], u :: us⟩) := by
  rw [read, if_pos ht, afterRaises]
  cases mayDeclare <;> by_cases hident : u.kind = .ident <;> simp [hu, hident]

/-- Behind an opening parenthesis the flag is not looked at. -/
theorem read_open (ht : t.kind = .keyword .raises) (hu : u.kind = .symbol .lparen) :
    read mayDeclare (t :: u :: us) = (names us).map fun (ns, used, rest) =>
      ⟨some ⟨⟨t.pos, (used.getLastD u).span.stop⟩, ns⟩, none, t :: u :: used, rest⟩ := by
  rw [read, if_pos ht, afterRaises]
  dsimp only
  rw [if_pos hu]
  cases names us <;> rfl

theorem read_of_spelledBy {used : List Token} {ns : List String} (h : SpelledBy used ns)
    (rest : List Token) :
    ∃ r, read mayDeclare (used ++ rest) = .ok r ∧ r.clause.map (·.types) = some ns ∧
      r.used = used ∧ r.skipped = none := by
  obtain ⟨t, u, us, rfl, ht, hu, hus⟩ := h.cases
  refine ⟨⟨some ⟨⟨t.pos, (us.getLastD u).span.stop⟩, ns⟩, none, t :: u :: us, rest⟩, ?_,
    rfl, rfl, rfl⟩
  rw [List.cons_append, List.cons_append, read_open ht hu, names_of_spelledBy hus]
  rfl

/-- Behind a `raises` there is a clause; if it has types, its tokens spell them. -/
theorem read_raises (ht : t.kind = .keyword .raises) (h : read mayDeclare (t :: ts) = .ok r) :
    ∃ c, r.clause = some c ∧ (c.types ≠ [] → SpelledBy r.used c.types) := by
  cases ts with
  | nil =>
    rw [read, if_pos ht] at h
    cases h
  | cons u us =>
    by_cases hu : u.kind = .symbol .lparen
    · rw [read_open ht hu] at h
      obtain ⟨x, hread, heq⟩ := except_bind_eq_ok h
      cases heq
      exact ⟨_, rfl, fun _ => (SpelledBy.cons_cons ht hu).2 (names_eq_ok_iff.1 hread).2⟩
    · rw [read_bare ht hu] at h
      cases h
      split <;> exact ⟨_, rfl, fun hne => absurd rfl hne⟩

theorem read_none_iff :
    read mayDeclare (t :: ts) = .ok r ∧ r.clause = none ↔
      t.kind ≠ .keyword .raises ∧ r = ⟨none, none, [], t :: ts⟩ := by
  constructor
  · rintro ⟨hr, hnone⟩
    by_cases ht : t.kind = .keyword .raises
    · obtain ⟨c, hc, -⟩ := read_raises ht hr
      rw [hnone] at hc
      cases hc
    · rw [read_absent ht] at hr
      cases hr
      exact ⟨ht, rfl⟩
  · rintro ⟨ht, rfl⟩
    exact ⟨read_absent ht, rfl⟩

/-- A clause with types is read exactly from the tokens that spell it. -/
theorem read_typed_iff {ns : List String} (hns : ns ≠ []) {used : List Token} :
    (∃ r, read mayDeclare (t :: ts) = .ok r ∧ r.clause.map (·.types) = some ns ∧
      r.used = used ∧ r.skipped = none) ↔ used <+: t :: ts ∧ SpelledBy used ns := by
  constructor
  · rintro ⟨r, hr, hclause, rfl, -⟩
    refine ⟨⟨r.rest, (read_eq hr).1.symm⟩, ?_⟩
    by_cases ht : t.kind = .keyword .raises
    · obtain ⟨c, hc, hspelled⟩ := read_raises ht hr
      rw [hc] at hclause
      cases hclause
      exact hspelled hns
    · rw [read_absent ht] at hr
      cases hr
      cases hclause
  · rintro ⟨⟨rest, hrest⟩, hspelled⟩
    rw [← hrest]
    exact read_of_spelledBy hspelled rest

variable (hended : Ended (t :: ts))

include hended

/-- A clause that is refused starts with `raises (`, and the names are refused. -/
theorem read_eq_error {e : ParseFailure} (h : read mayDeclare (t :: ts) = .error e) :
    ∃ u us, ts = u :: us ∧ t.kind = .keyword .raises ∧ u.kind = .symbol .lparen ∧
      names us = .error e ∧ e ≠ .outOfTokens := by
  have hproper : e ≠ .outOfTokens := by
    rintro rfl
    rcases read_error h with ⟨why, pos, hfault, -⟩ | ⟨-, hnot⟩
    · cases hfault
    · exact hnot hended
  by_cases ht : t.kind = .keyword .raises
  · obtain ⟨u, us, rfl⟩ :=
      (hended.tail (by rw [ht]; decide)).exists_cons
    by_cases hu : u.kind = .symbol .lparen
    · rw [read_open ht hu] at h
      cases hread : names us with
      | error e' =>
        rw [hread] at h
        cases h
        exact ⟨u, us, rfl, ht, hu, hread, hproper⟩
      | ok x =>
        rw [hread] at h
        cases h
    · rw [read_bare ht hu] at h
      cases h
  · rw [read_absent ht] at h
    cases h

theorem read_misfit {e : ParseFailure} (h : read mayDeclare (t :: ts) = .error e) :
    ∃ before v after, t :: ts = before ++ v :: after ∧ BegunBy before ∧
      ¬BegunBy (before ++ [v]) ∧ e = .fault (misfit before v) v.pos := by
  obtain ⟨u, us, rfl, ht, hu, hread, he⟩ := read_eq_error hended h
  obtain ⟨before, v, after, rfl, hbegun, hnot, rfl⟩ := names_misfit hread he
  refine ⟨t :: u :: before, v, after, rfl, (BegunBy.cons_cons ht hu).2 hbegun, ?_, ?_⟩
  · exact fun hmore => hnot ((BegunBy.cons_cons ht hu).1 hmore)
  · cases before <;> simp [misfit, hu]

/-- Behind `raises (` the only other way is a clause with types. -/
theorem read_error_iff :
    (∃ e, read mayDeclare (t :: ts) = .error e) ↔
      t.kind = .keyword .raises ∧ ts.head?.map Token.kind = some (.symbol .lparen) ∧
        ∀ used ns, used <+: t :: ts → ¬SpelledBy used ns := by
  constructor
  · rintro ⟨e, he⟩
    obtain ⟨u, us, rfl, ht, hu, -⟩ := read_eq_error hended he
    refine ⟨ht, by simp [hu], ?_⟩
    rintro used ns ⟨rest, hrest⟩ hspelled
    obtain ⟨r, hread, -⟩ := read_of_spelledBy hspelled rest
    rw [hrest, he] at hread
    cases hread
  · rintro ⟨ht, hnext, hnone⟩
    obtain ⟨u, hhead, hu⟩ := Option.map_eq_some_iff.1 hnext
    obtain ⟨us, rfl⟩ := List.head?_eq_some_iff.1 hhead
    rw [read_open ht hu]
    cases hread : names us with
    | error e => exact ⟨e, rfl⟩
    | ok x =>
      obtain ⟨rfl, hspelled⟩ := names_eq_ok_iff.1 hread
      exact absurd ((SpelledBy.cons_cons ht hu).2 hspelled)
        (hnone _ _ (by simp [List.prefix_append]))

/-- The flag decides only what a name behind a bare `raises` is. -/
theorem read_flag :
    read true (t :: ts) ≠ read false (t :: ts) ↔
      t.kind = .keyword .raises ∧ ts.head?.map Token.kind = some .ident := by
  by_cases ht : t.kind = .keyword .raises
  · obtain ⟨u, us, rfl⟩ :=
      (hended.tail (by rw [ht]; decide)).exists_cons
    by_cases hu : u.kind = .symbol .lparen
    · simp [read_open ht hu, hu]
    · by_cases hident : u.kind = .ident <;> simp [read_bare ht hu, ht, hident]
  · simp [read_absent ht, ht]

end Clause

/-- **Clauses are read exactly where they stand.** For tokens that end in an end mark, an index `i`
among them and either flag:

* nothing outside the tokens is asked for, and what is left is not empty;
* there is no clause exactly where the token is no `raises`;
* a clause with the types `ns` is read exactly from `raises ( n₁ , … , nₖ )`;
* a `raises` without a parenthesis is a clause without types, and a name behind it is skipped and
  noted exactly if no declaration may follow;
* exactly the remaining texts are refused, at the first token that does not fit;
* the flag matters exactly for a name behind a bare `raises`. -/
theorem read_exact {tokens : List Token} (hended : Ended tokens) {i : Nat}
    (hi : i < tokens.length) (mayDeclare : Bool) :
    read mayDeclare (tokens.drop i) ≠ .error .outOfTokens ∧
    (∀ r, read mayDeclare (tokens.drop i) = .ok r →
      tokens.drop i = r.used ++ r.rest ∧ r.rest = tokens.drop (i + r.used.length) ∧
        i + r.used.length < tokens.length) ∧
    (∀ r, read mayDeclare (tokens.drop i) = .ok r ∧ r.clause = none ↔
      tokens[i].kind ≠ .keyword .raises ∧ r = ⟨none, none, [], tokens.drop i⟩) ∧
    (∀ ns, ns ≠ [] → ∀ used,
      (∃ r, read mayDeclare (tokens.drop i) = .ok r ∧ r.clause.map (·.types) = some ns ∧
        r.used = used ∧ r.skipped = none) ↔ used <+: tokens.drop i ∧ SpelledBy used ns) ∧
    (∀ u, tokens[i].kind = .keyword .raises → tokens[i + 1]? = some u →
      u.kind ≠ .symbol .lparen →
        read mayDeclare (tokens.drop i) = .ok
          (if u.kind = .ident ∧ mayDeclare = false then
            ⟨some ⟨tokens[i].span, []⟩, some ⟨u.value, u.pos⟩, [tokens[i], u],
              tokens.drop (i + 2)⟩
          else ⟨some ⟨tokens[i].span, []⟩, none, [tokens[i]], tokens.drop (i + 1)⟩)) ∧
    ((∃ e, read mayDeclare (tokens.drop i) = .error e) ↔
      tokens[i].kind = .keyword .raises ∧
        tokens[i + 1]?.map Token.kind = some (.symbol .lparen) ∧
        ∀ used ns, used <+: tokens.drop i → ¬SpelledBy used ns) ∧
    (∀ e, read mayDeclare (tokens.drop i) = .error e →
      ∃ before t after, tokens.drop i = before ++ t :: after ∧ BegunBy before ∧
        ¬BegunBy (before ++ [t]) ∧ e = .fault (misfit before t) t.pos) ∧
    (read true (tokens.drop i) ≠ read false (tokens.drop i) ↔
      tokens[i].kind = .keyword .raises ∧ tokens[i + 1]?.map Token.kind = some .ident) := by
  have hdrop : tokens.drop i = tokens[i] :: tokens.drop (i + 1) := List.drop_eq_getElem_cons hi
  have hleft : Ended (tokens.drop i) := by
    rw [← List.take_append_drop i tokens] at hended
    exact hended.of_suffix (by simp [hi])
  have hhead : (tokens.drop (i + 1)).head? = tokens[i + 1]? := List.head?_drop
  refine ⟨?_, ?_, ?_, ?_, ?_, ?_, ?_, ?_⟩
  · intro he
    rw [hdrop] at he hleft
    obtain ⟨-, -, -, -, -, -, hproper⟩ := read_eq_error hleft he
    exact hproper rfl
  · intro r hr
    have hsplit := (read_eq hr).1
    have hrest : r.rest = tokens.drop (i + r.used.length) := by
      rw [← List.drop_drop, hsplit, List.drop_left]
    have hne := (read_ended hr hleft).length_pos
    rw [hrest, List.length_drop] at hne
    exact ⟨hsplit, hrest, by omega⟩
  · intro r
    rw [hdrop]
    exact read_none_iff
  · intro ns hns used
    rw [hdrop]
    exact read_typed_iff hns
  · intro u ht hnext hu
    have hdrop' : tokens.drop (i + 1) = u :: tokens.drop (i + 2) := by
      obtain ⟨hlt, rfl⟩ := List.getElem?_eq_some_iff.1 hnext
      exact List.drop_eq_getElem_cons hlt
    rw [hdrop, hdrop']
    exact read_bare ht hu
  · rw [hdrop] at hleft ⊢
    rw [read_error_iff hleft, hhead]
  · intro e he
    rw [hdrop] at hleft he ⊢
    exact read_misfit hleft he
  · rw [hdrop] at hleft ⊢
    rw [read_flag hleft, hhead]

/-- The tokens of `raises(A, B)`. -/
def twoTypes : List Token :=
  [⟨.keyword .raises, "raises", default⟩, ⟨.symbol .lparen, "(", default⟩,
    ⟨.ident, "A", default⟩, ⟨.symbol .comma, ",", default⟩, ⟨.ident, "B", default⟩,
    ⟨.symbol .rparen, ")", default⟩, Token.eofAt .start]

theorem read_exact_twoTypes :
    ∃ r, read true twoTypes = .ok r ∧ r.clause.map (·.types) = some ["A", "B"] ∧
      r.used = twoTypes.take 6 ∧ r.skipped = none := by
  have hended : Ended twoTypes := ⟨Token.eofAt .start, rfl, rfl⟩
  obtain ⟨-, -, -, htyped, -⟩ := read_exact hended (i := 0) (by decide) true
  exact (htyped ["A", "B"] (by decide) (twoTypes.take 6)).2
    ⟨List.take_prefix 6 _, by decide, rfl, rfl⟩

end ClauseReading

end RaisingEffects
