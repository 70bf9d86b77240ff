import RaisingEffects.Proofs.Parse.Tokens
import RaisingEffects.Proofs.Tree.Words

/-!
# Readers at words

What a reader does where given words stand in front of it. Unlike `Parse.Takes`, which says what
holds if a reader returns, the statements here say that it does return.

* A `Place` is what a reader sees: the words to come, up to the end mark, and the scopes.
* `Parse.Reads p x y P`: at the place `x`, the reader `p` returns a result with `P`, stands at the
  place `y` then, and has skipped nothing.

`Reads` has a rule for each step that a reader can take, with the rest of the reader as a premise,
so that a reader is followed through by one rule after the other. Lists are read item by item
(`Parse.listUntil_reads`), and clauses by `Parse.clause_reads`.
-/

namespace RaisingEffects

variable {ts : List Token} {ws : List Word}

def unplaced {α : Type} (_ : α) : Unit := ()

/-- The kind of the token where the words start, which without words is the end mark. -/
def Word.nextKind : List Word → TokenKind
  | [] => .eof
  | w :: _ => w.kind

@[simp] theorem Word.nextKind_cons (w : Word) (ws : List Word) : nextKind (w :: ws) = w.kind := rfl

/-- Where a reader stands: the words to come and the scopes. -/
structure Place where
  words : List Word
  scopes : List (List String)

/-- The reader stands at a place, and has skipped nothing. -/
structure ParseState.At (s : ParseState) (x : Place) : Prop where
  rest : Spells s.rest x.words
  scopes : s.scopes = x.scopes
  skipped : s.skipped = []

theorem Spells.length_eq (h : Spells ts ws) : ts.length = ws.length + 1 := by
  induction ws generalizing ts with
  | nil =>
    obtain ⟨t, rfl, -⟩ := h
    rfl
  | cons w ws ih =>
    obtain ⟨t, rest, rfl, -, -, hrest⟩ := h
    rw [List.length_cons, ih hrest, List.length_cons]

theorem Spells.exists_head (h : Spells ts ws) :
    ∃ t rest, ts = t :: rest ∧ t.kind = Word.nextKind ws := by
  cases ws with
  | nil =>
    obtain ⟨t, rfl, hkind⟩ := h
    exact ⟨t, [], rfl, hkind⟩
  | cons w ws =>
    obtain ⟨t, rest, rfl, hkind, -⟩ := h
    exact ⟨t, rest, rfl, hkind⟩

namespace Parse

variable {α β : Type} {p : Parse α} {f : α → Parse β} {P : α → Prop} {Q : β → Prop}

/-- At the place `x` the reader returns a result with `P`, and stands at the place `y` then. -/
def Reads (p : Parse α) (x y : Place) (P : α → Prop) : Prop :=
  ∀ s : ParseState, s.At x → ∃ a s', p s = .ok (a, s') ∧ s'.At y ∧ P a

namespace Reads

variable {x y z : Place} {w : Word} {ws : List Word} {sc : List (List String)} {kind : TokenKind}

theorem pure {a : α} (h : P a) : Reads (Pure.pure a) x x P :=
  fun s hs => ⟨a, s, rfl, hs, h⟩

theorem bind (h : Reads p x y P) (hf : ∀ a, P a → Reads (f a) y z Q) :
    Reads (p >>= f) x z Q := by
  intro s hs
  obtain ⟨a, s₁, hp, hs₁, ha⟩ := h s hs
  obtain ⟨b, s₂, hb, hs₂, hq⟩ := hf a ha s₁ hs₁
  exact ⟨b, s₂, (bind_of_eq_ok hp).trans hb, hs₂, hq⟩

theorem mono {P' : α → Prop} (h : Reads p x y P) (hP : ∀ a, P a → P' a) : Reads p x y P' := by
  intro s hs
  obtain ⟨a, s', hp, hs', ha⟩ := h s hs
  exact ⟨a, s', hp, hs', hP a ha⟩

/-! ## Looking -/

theorem peek {f : Token → Parse β}
    (h : ∀ t, t.kind = w.kind → t.value = w.value → Reads (f t) ⟨w :: ws, sc⟩ y Q) :
    Reads (Parse.peek >>= f) ⟨w :: ws, sc⟩ y Q := by
  refine .bind (fun s hs => ?_) fun t (ht : t.kind = w.kind ∧ t.value = w.value) => h t ht.1 ht.2
  obtain ⟨t, ts, hrest, hkind, hvalue, -⟩ := hs.rest
  exact ⟨t, s, peek_of_rest hrest, hs, hkind, hvalue⟩

/-- The next token may be any. -/
theorem peekAny {f : Token → Parse β} (h : ∀ t, Reads (f t) x y Q) :
    Reads (Parse.peek >>= f) x y Q :=
  fun s hs => h (s.rest.headD s.last) s hs

/-- The next token, or the end mark. -/
theorem peekKind {f : Token → Parse β}
    (h : ∀ t, t.kind = Word.nextKind ws → Reads (f t) ⟨ws, sc⟩ y Q) :
    Reads (Parse.peek >>= f) ⟨ws, sc⟩ y Q := by
  refine .bind (fun s hs => ?_) h
  obtain ⟨t, ts, hrest, hkind⟩ := hs.rest.exists_head
  exact ⟨t, s, peek_of_rest hrest, hs, hkind⟩

theorem peekSecond {f : Token → Parse β}
    (h : ∀ t, t.kind = Word.nextKind ws → Reads (f t) ⟨w :: ws, sc⟩ y Q) :
    Reads (Parse.peekSecond >>= f) ⟨w :: ws, sc⟩ y Q := by
  refine .bind (fun s hs => ?_) h
  obtain ⟨t, ts, hrest, -, -, hts⟩ := hs.rest
  obtain ⟨u, us, rfl, hkind⟩ := hts.exists_head
  have hsecond : Parse.peekSecond s = .ok (u, s) := by rw [Parse.peekSecond, hrest]
  exact ⟨u, s, hsecond, hs, hkind⟩

/-- The token after the next one may be any. -/
theorem peekSecondAny {f : Token → Parse β} (h : ∀ t, Reads (f t) x y Q) :
    Reads (Parse.peekSecond >>= f) x y Q := by
  refine .bind (P := fun _ => True) (fun s hs => ?_) fun t _ => h t
  rw [Parse.peekSecond]
  split <;> exact ⟨_, s, rfl, hs, trivial⟩

theorem nextIs {f : Bool → Parse β} (h : Reads (f (decide (w.kind = kind))) ⟨w :: ws, sc⟩ y Q) :
    Reads (Parse.nextIs kind >>= f) ⟨w :: ws, sc⟩ y Q := by
  refine .bind (P := (· = decide (w.kind = kind))) ?_ fun b hb => hb ▸ h
  exact .peek fun t hkind _ => .pure (by rw [hkind])

theorem spanFrom {start : Token} {f : Span → Parse β} (h : ∀ span, Reads (f span) x y Q) :
    Reads (Parse.spanFrom start >>= f) x y Q :=
  fun s hs => h ⟨start.pos, s.last.span.stop⟩ s hs

theorem remaining {f : Nat → Parse β} (h : Reads (f (x.words.length + 1)) x y Q) :
    Reads (Parse.remaining >>= f) x y Q := by
  intro s hs
  rw [← hs.rest.length_eq] at h
  exact h s hs

/-! ## Taking -/

theorem skip {f : Unit → Parse β} (h : Reads (f ()) ⟨ws, sc⟩ y Q) :
    Reads (Parse.skip >>= f) ⟨w :: ws, sc⟩ y Q := by
  refine .bind (P := fun _ => True) (fun s hs => ?_) fun _ _ => h
  obtain ⟨t, ts, hrest, -, -, hts⟩ := hs.rest
  exact ⟨(), _, skip_of_rest hrest, ⟨hts, hs.scopes, hs.skipped⟩, trivial⟩

theorem expect {f : Token → Parse β} (hw : w.kind = kind)
    (h : ∀ t, t.value = w.value → Reads (f t) ⟨ws, sc⟩ y Q) :
    Reads (Parse.expect kind >>= f) ⟨w :: ws, sc⟩ y Q := by
  refine .bind (P := fun t => t.value = w.value) ?_ h
  refine .peek fun t hkind hvalue => ?_
  rw [if_pos (hkind.trans hw)]
  exact .skip (.pure hvalue)

theorem accept {f : Option Token → Parse β} (hw : w.kind = kind)
    (h : ∀ t, t.value = w.value → Reads (f (some t)) ⟨ws, sc⟩ y Q) :
    Reads (Parse.accept kind >>= f) ⟨w :: ws, sc⟩ y Q := by
  refine .bind (P := fun o => ∃ t, o = some t ∧ t.value = w.value) (y := ⟨ws, sc⟩) ?_ fun o ho => ?_
  · refine .peek fun t hkind hvalue => ?_
    rw [if_pos (hkind.trans hw)]
    exact .skip (.pure ⟨t, rfl, hvalue⟩)
  · obtain ⟨t, rfl, hvalue⟩ := ho
    exact h t hvalue

/-- The next word is of another kind. -/
theorem reject {f : Option Token → Parse β} (hws : Word.nextKind ws ≠ kind)
    (h : Reads (f none) ⟨ws, sc⟩ y Q) : Reads (Parse.accept kind >>= f) ⟨ws, sc⟩ y Q := by
  refine .bind (P := (· = none)) ?_ fun o ho => ho ▸ h
  refine .peekKind fun t hkind => ?_
  rw [if_neg (hkind ▸ hws)]
  exact .pure rfl

/-! ## Names -/

theorem require {name : String} {pos : Pos} {f : Unit → Parse β} (hname : name ∈ x.scopes.flatten)
    (h : Reads (f ()) x y Q) : Reads (Parse.require name pos >>= f) x y Q := by
  refine .bind (P := fun _ => True) (fun s hs => ?_) fun _ _ => h
  have hknown : s.scopes.any (name ∈ ·) = true := by
    obtain ⟨scope, hmem, hin⟩ := List.mem_flatten.1 hname
    rw [hs.scopes]
    exact List.any_eq_true.2 ⟨scope, hmem, decide_eq_true hin⟩
  have hrequire : Parse.require name pos s = .ok ((), s) := by
    rw [Parse.require, if_pos hknown]
  exact ⟨(), s, hrequire, hs, trivial⟩

theorem declare {name : String} {pos : Pos} {scope : List String} {f : Unit → Parse β}
    (hname : name ∉ scope) (h : Reads (f ()) ⟨ws, (name :: scope) :: sc⟩ y Q) :
    Reads (Parse.declare name pos >>= f) ⟨ws, scope :: sc⟩ y Q := by
  refine .bind (P := fun _ => True) (fun s hs => ?_) fun _ _ => h
  have hdeclare : Parse.declare name pos s =
      .ok ((), { s with scopes := (name :: scope) :: sc }) := by
    rw [Parse.declare, hs.scopes]
    exact if_neg hname
  exact ⟨(), _, hdeclare, ⟨hs.rest, rfl, hs.skipped⟩, trivial⟩

theorem inScope {ws' : List Word} (scope : List String)
    (h : Reads p ⟨ws, [] :: sc⟩ ⟨ws', scope :: sc⟩ P) :
    Reads (Parse.inScope p) ⟨ws, sc⟩ ⟨ws', sc⟩ P := by
  intro s hs
  obtain ⟨a, s', hp, hs', ha⟩ :=
    h { s with scopes := [] :: s.scopes } ⟨hs.rest, by rw [hs.scopes], hs.skipped⟩
  refine ⟨a, { s' with scopes := s'.scopes.drop 1 }, ?_, ?_, ha⟩
  · rw [Parse.inScope, hp]
  · exact ⟨hs'.rest, by rw [hs'.scopes]; rfl, hs'.skipped⟩

end Reads

theorem declareAll_reads {names : List String} (scope : List String) {pos : Pos}
    {sc : List (List String)} (hnodup : names.Nodup) (hnew : ∀ n ∈ names, n ∉ scope) :
    Reads (declareAll names pos) ⟨ws, scope :: sc⟩ ⟨ws, (names.reverse ++ scope) :: sc⟩
      fun _ => True := by
  induction names generalizing scope with
  | nil => exact .pure trivial
  | cons name names ih =>
    obtain ⟨hname, hnodup⟩ := List.nodup_cons.1 hnodup
    refine .declare (hnew name (List.mem_cons_self ..)) ?_
    have hfresh : ∀ n ∈ names, n ∉ name :: scope := by
      intro n hn
      have := hnew n (List.mem_cons_of_mem _ hn)
      grind
    simpa using ih (name :: scope) hnodup hfresh

/-- What is read where parameters are known. -/
theorem inScope_declareAll_reads {names : List String} {pos : Pos} {ws ws' : List Word}
    {sc : List (List String)} (hnodup : names.Nodup)
    (h : Reads p ⟨ws, names.reverse :: sc⟩ ⟨ws', names.reverse :: sc⟩ P) :
    Reads (inScope do declareAll names pos; p) ⟨ws, sc⟩ ⟨ws', sc⟩ P := by
  refine .inScope names.reverse (.bind (P := fun _ => True) ?_ fun _ _ => h)
  simpa using declareAll_reads [] hnodup (by simp)

/-! ## Repetitions -/

section Lists

variable {γ : Type} {item : Parse α} {f : α → γ} {g : β → γ} {words : β → List Word}
  {sc : List (List String)} {xs : List β}

/-- Each of the items is read where a comma or the closing sign follows. -/
def ReadsItems (item : Parse α) (f : α → γ) (g : β → γ) (words : β → List Word) (close : Sign)
    (sc : List (List String)) (xs : List β) : Prop :=
  ∀ x ∈ xs, ∀ w ws, w = .sign .comma ∨ w = .sign close →
    Reads item ⟨words x ++ w :: ws, sc⟩ ⟨w :: ws, sc⟩ fun a => f a = g x

/-- After an item stands a comma or the closing sign. -/
theorem exists_separator (items : List (List Word)) (close : Sign) (ws : List Word) :
    ∃ w ws', items.flatMap (Word.sign .comma :: ·) ++ .sign close :: ws = w :: ws' ∧
      (w = .sign .comma ∨ w = .sign close) := by
  cases items with
  | nil => exact ⟨_, _, rfl, .inr rfl⟩
  | cons item items => exact ⟨_, _, rfl, .inl rfl⟩

theorem sepTail_reads (close : Sign) (hclose : close ≠ .comma)
    (h : ReadsItems item f g words close sc xs) {n : Nat} (hn : xs.length < n) (ws : List Word) :
    Reads (sepTail item n)
      ⟨(xs.map words).flatMap (.sign .comma :: ·) ++ .sign close :: ws, sc⟩
      ⟨.sign close :: ws, sc⟩ fun as => as.map f = xs.map g := by
  induction xs generalizing n with
  | nil =>
    cases n with
    | zero => cases hn
    | succ n => exact .reject (by simpa [Word.kind] using hclose) (.pure rfl)
  | cons x xs ih =>
    cases n with
    | zero => cases hn
    | succ n =>
      obtain ⟨hx, hxs⟩ := List.forall_mem_cons.1 h
      have htail := ih hxs (Nat.lt_of_succ_lt_succ hn)
      obtain ⟨w, ws', heq, hw⟩ := exists_separator (xs.map words) close ws
      rw [List.map_cons, List.flatMap_cons, List.append_assoc, List.cons_append, heq]
      rw [heq] at htail
      refine .accept rfl fun _ _ => ?_
      refine (hx w ws' hw).bind fun a ha => htail.bind fun as has => .pure ?_
      rw [List.map_cons, List.map_cons, ha, has]

/-- Where every item has a word, there are no fewer words than items. -/
theorem length_le_flatMap {f : β → List Word} (hf : ∀ x, f x ≠ []) (xs : List β) :
    xs.length ≤ (xs.flatMap f).length := by
  induction xs with
  | nil => exact Nat.le_refl _
  | cons x xs ih =>
    have := List.length_pos_iff.2 (hf x)
    simp only [List.length_cons, List.flatMap_cons, List.length_append]
    omega

theorem commaList_reads (close : Sign) (hclose : close ≠ .comma) {x : β}
    (h : ReadsItems item f g words close sc (x :: xs)) (ws : List Word) :
    Reads (commaList item) ⟨Word.commas ((x :: xs).map words) ++ .sign close :: ws, sc⟩
      ⟨.sign close :: ws, sc⟩ fun as => as.map f = (x :: xs).map g := by
  obtain ⟨hx, hxs⟩ := List.forall_mem_cons.1 h
  have hlen := length_le_flatMap (f := (Word.sign .comma :: ·)) (by simp) (xs.map words)
  have htail {n : Nat} (hn : xs.length < n) := sepTail_reads close hclose hxs hn ws
  obtain ⟨w, ws', heq, hw⟩ := exists_separator (xs.map words) close ws
  have hcount : xs.length < (w :: ws').length + 1 := by
    rw [← heq]
    simp only [List.length_map, List.length_append, List.length_cons] at hlen ⊢
    omega
  rw [List.map_cons, Word.commas, List.append_assoc, heq]
  rw [heq] at htail
  refine (hx w ws' hw).bind fun a ha => .remaining ((htail hcount).bind fun as has => .pure ?_)
  rw [List.map_cons, List.map_cons, ha, has]

theorem listUntil_reads (close : Sign) (hclose : close ≠ .comma)
    (h : ReadsItems item f g words close sc xs)
    (hfirst : ∀ x ∈ xs, ∃ w ws, words x = w :: ws ∧ w.kind ≠ .symbol close) (ws : List Word) :
    Reads (listUntil close item) ⟨Word.commas (xs.map words) ++ .sign close :: ws, sc⟩
      ⟨ws, sc⟩ fun as => as.map f = xs.map g := by
  cases xs with
  | nil =>
    refine .nextIs ?_
    rw [if_pos (by simp [Word.kind])]
    exact .expect rfl fun _ _ => .pure rfl
  | cons x xs =>
    obtain ⟨w, ws', hwords, hw⟩ := hfirst x (List.mem_cons_self ..)
    have hread := commaList_reads close hclose h ws
    rw [List.map_cons, Word.commas, hwords] at hread ⊢
    refine .nextIs ?_
    rw [if_neg (by simpa using hw)]
    exact hread.bind fun as has => .expect rfl fun _ _ => .pure has

end Lists

end Parse

/-! ## Clauses -/

theorem Word.commas_cons_cons (ws vs : List Word) (items : List (List Word)) :
    commas (ws :: vs :: items) = ws ++ .sign .comma :: commas (vs :: items) := by
  simp [commas]

theorem ClauseReading.names_of_spells {n : String} {ns : List String}
    (h : Spells ts (Word.commas ((n :: ns).map fun n => [.name n]) ++ .sign .rparen :: ws)) :
    ∃ used rest, names ts = .ok (n :: ns, used, rest) ∧ Spells rest ws := by
  induction ns generalizing n ts with
  | nil =>
    obtain ⟨t, _, rfl, htk, htv, u, us, rfl, huk, -, hus⟩ := h
    refine ⟨[t, u], us, ?_, hus⟩
    simp [names, htk, htv, huk, Word.kind, Word.value]
  | cons m ns ih =>
    rw [List.map_cons, List.map_cons, Word.commas_cons_cons] at h
    obtain ⟨t, _, rfl, htk, htv, u, us, rfl, huk, -, hus⟩ := h
    obtain ⟨used, rest, hread, hrest⟩ := ih hus
    refine ⟨t :: u :: used, rest, ?_, hrest⟩
    simp only [Word.kind] at htk huk
    rw [names, if_pos htk]
    dsimp only
    rw [if_pos huk, hread, htv]
    rfl

/-- A clause is read back, unless what follows could belong to it. -/
theorem Parse.clause_reads (mayDeclare : Bool) (c : Option (Clause Unit)) {w : Word}
    (ws : List Word) (sc : List (List String)) (hraises : w.kind ≠ .keyword .raises)
    (hopen : c.isSome → w.kind ≠ .symbol .lparen ∧ w.kind ≠ .ident) :
    Parse.Reads (Parse.clause mayDeclare) ⟨Clause.optionWords c ++ w :: ws, sc⟩ ⟨w :: ws, sc⟩
      fun c' => c'.map (·.map unplaced) = c := by
  intro s hs
  -- what the clause reader does, from what is read at the front of the tokens
  have hdone {r : ClauseReading} (hread : ClauseReading.read mayDeclare s.rest = .ok r)
      (hskipped : r.skipped = none) (hrest : Spells r.rest (w :: ws))
      (hclause : r.clause.map (·.map unplaced) = c) :
      ∃ a s', Parse.clause mayDeclare s = .ok (a, s') ∧ s'.At ⟨w :: ws, sc⟩ ∧
        a.map (·.map unplaced) = c := by
    refine ⟨r.clause, { s with
      last := r.used.getLastD s.last
      rest := r.rest
      skipped := s.skipped ++ r.skipped.toList }, ?_, ?_, hclause⟩
    · rw [Parse.clause, hread]
    · exact ⟨hrest, hs.scopes, by simp [hs.skipped, hskipped]⟩
  cases c with
  | none =>
    obtain ⟨t, ts, hrest, hkind, hvalue, hts⟩ := hs.rest
    refine hdone (r := ⟨none, none, [], t :: ts⟩) ?_ rfl ⟨t, ts, rfl, hkind, hvalue, hts⟩ rfl
    rw [hrest, ClauseReading.read, if_neg (by rw [hkind]; exact hraises)]
  | some c =>
    obtain ⟨hparen, hident⟩ := hopen rfl
    obtain ⟨loc, types⟩ := c
    cases types with
    | nil =>
      obtain ⟨t, _, hrest, htk, -, u, us, rfl, huk, huv, hus⟩ := hs.rest
      refine hdone (r := ⟨some ⟨t.span, []⟩, none, [t], u :: us⟩) ?_ rfl
        ⟨u, us, rfl, huk, huv, hus⟩ rfl
      simp only [Word.kind] at htk
      rw [hrest, ClauseReading.read, if_pos htk, ClauseReading.afterRaises]
      dsimp only
      rw [if_neg (by rw [huk]; exact hparen), if_neg (by simp [huk, hident])]
    | cons n ns =>
      have hwords : Clause.optionWords (some (⟨loc, n :: ns⟩ : Clause Unit)) ++ w :: ws =
          .keyword .raises :: .sign .lparen ::
            (Word.commas ((n :: ns).map fun n => [.name n]) ++ .sign .rparen :: w :: ws) := by
        simp [Clause.optionWords, Clause.words, Word.namesList, Word.between]
      have hall := hs.rest
      rw [show (Place.mk _ sc).words = _ from hwords] at hall
      obtain ⟨t, _, hrest, htk, -, u, us, rfl, huk, -, hus⟩ := hall
      obtain ⟨used, rest, hnames, hleft⟩ := ClauseReading.names_of_spells hus
      refine hdone (r := ⟨some ⟨⟨t.pos, (used.getLastD u).span.stop⟩, n :: ns⟩, none,
        t :: u :: used, rest⟩) ?_ rfl hleft rfl
      simp only [Word.kind] at htk huk
      rw [hrest, ClauseReading.read, if_pos htk, ClauseReading.afterRaises]
      dsimp only
      rw [if_pos huk, hnames]
      rfl

end RaisingEffects
