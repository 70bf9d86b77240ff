import Mathlib.Order.Basic
import RaisingEffects.Proofs.Token.Lexemes

/-!
# Where tokens stand, and where there is none

Positions are ordered as they are read: by lines, and within a line by columns. The tokens of a text
stand one behind the other in this order (`Token.readAll_ordered`), so no two start at the same
position.

`Token.Stuck before text e` says that the text cannot be cut into tokens: behind gaps and tokens
there is a character that starts no token, and `e` is at its position. Whatever fails to be read is
stuck in this way (`Token.readAll_stuck`).
-/

namespace RaisingEffects

/-! ## The order of positions -/

instance : Preorder Pos where
  le p q := p.line < q.line ∨ p.line = q.line ∧ p.column ≤ q.column
  lt p q := p.line < q.line ∨ p.line = q.line ∧ p.column < q.column
  le_refl p := by omega
  le_trans p q r := by omega
  lt_iff_le_not_ge p q := by omega

theorem Pos.lt_iff {p q : Pos} :
    p < q ↔ p.line < q.line ∨ p.line = q.line ∧ p.column < q.column := Iff.rfl

theorem Pos.lt_advance (p : Pos) (c : Char) : p < p.advance c := by
  rw [Pos.lt_iff, Pos.advance]
  split
  · simp
  · simp

theorem Pos.le_after (p : Pos) (cs : List Char) : p ≤ p.after cs := by
  induction cs generalizing p with
  | nil => exact le_refl p
  | cons c cs ih => exact (Pos.lt_advance p c).le.trans (ih (p.advance c))

theorem Pos.lt_after (p : Pos) {cs : List Char} (h : cs ≠ []) : p < p.after cs := by
  cases cs with
  | nil => exact absurd rfl h
  | cons c cs => exact (Pos.lt_advance p c).trans_le (Pos.le_after _ cs)

theorem Pos.behind_le (before cs : List Char) : Pos.behind before ≤ Pos.behind (before ++ cs) := by
  rw [← Pos.after_behind]
  exact Pos.le_after _ cs

theorem Pos.behind_lt (before : List Char) {cs : List Char} (h : cs ≠ []) :
    Pos.behind before < Pos.behind (before ++ cs) := by
  rw [← Pos.after_behind]
  exact Pos.lt_after _ h

/-! ## The order of tokens -/

namespace Token

/-- The tokens stand one behind the other. Only a token that others stand behind need be more than
a position. -/
structure Ordered (ts : List Token) : Prop where
  start_le_stop : ∀ t ∈ ts, t.span.start ≤ t.span.stop
  stop_le_start : ts.Pairwise fun t u => t.span.stop ≤ u.span.start
  start_lt_start : ts.Pairwise fun t u => t.span.start < u.span.start

namespace Ordered

variable {ts us : List Token}

theorem sublist (h : Ordered ts) (hsub : us.Sublist ts) : Ordered us where
  start_le_stop t ht := h.start_le_stop t (hsub.subset ht)
  stop_le_start := h.stop_le_start.sublist hsub
  start_lt_start := h.start_lt_start.sublist hsub

/-- The last token is the one that ends last. -/
theorem stop_le_last (h : Ordered ts) {t : Token} (ht : t ∈ ts) (d : Token) :
    t.span.stop ≤ (ts.getLastD d).span.stop := by
  rcases List.eq_nil_or_concat ts with rfl | ⟨us, u, rfl⟩
  · cases ht
  rw [List.concat_eq_append] at h ht ⊢
  have hlast : (us ++ [u]).getLastD d = u := by simp [List.getLastD_eq_getLast?]
  rw [hlast]
  rcases List.mem_append.1 ht with ht | ht
  · have hbefore : t.span.stop ≤ u.span.start :=
      (List.pairwise_append.1 h.stop_le_start).2.2 t ht u (List.mem_singleton_self u)
    exact hbefore.trans (h.start_le_stop u (by simp))
  · rw [List.mem_singleton.1 ht]

/-- No two tokens start at the same position. -/
theorem nodup_pos (h : Ordered ts) : (ts.map Token.pos).Nodup :=
  List.Pairwise.map _ (fun _ _ hlt => ne_of_lt hlt) h.start_lt_start

end Ordered

theorem Cut.ordered {before text : List Char} {ts : List Token} (h : Cut before text ts) :
    Ordered ts ∧ ∀ t ∈ ts, Pos.behind before ≤ t.span.start := by
  induction h with
  | last before hgap =>
    refine ⟨⟨fun t ht => ?_, List.pairwise_singleton _ _, List.pairwise_singleton _ _⟩,
      fun t ht => ?_⟩
    · rw [List.mem_singleton.1 ht]
      exact le_refl _
    · rw [List.mem_singleton.1 ht]
      exact Pos.behind_le before _
  | token before hgap hchars hcut ih =>
    rename_i gap chars rest value kind ts
    obtain ⟨hordered, hbehind⟩ := ih
    have hlt : Pos.behind (before ++ gap) < Pos.behind (before ++ gap ++ chars) :=
      Pos.behind_lt _ hchars.chars_ne_nil
    have hle : Pos.behind before ≤ Pos.behind (before ++ gap) := Pos.behind_le before gap
    refine ⟨⟨fun t ht => ?_, ?_, ?_⟩, fun t ht => ?_⟩
    · rcases List.mem_cons.1 ht with rfl | ht
      · exact hlt.le
      · exact hordered.start_le_stop t ht
    · exact List.pairwise_cons.2 ⟨hbehind, hordered.stop_le_start⟩
    · refine List.pairwise_cons.2 ⟨fun u hu => ?_, hordered.start_lt_start⟩
      exact hlt.trans_le (hbehind u hu)
    · rcases List.mem_cons.1 ht with rfl | ht
      · exact hle
      · exact (hle.trans hlt.le).trans (hbehind t ht)

theorem readAll_ordered {source : String} {tokens : List Token}
    (h : readAll source = .ok tokens) : Ordered tokens :=
  ((readAll_reads h).cut [] rfl).ordered.1

end Token

/-! ## Characters that start no token -/

/-- The fault of a character that starts no token. -/
def LexFault.at_ (c : Char) : LexFault := if c = '"' then .unterminated else .unexpected c

/-- The text behind `before` cannot be cut into tokens: behind gaps and tokens there is a character
that is neither blank nor the start of a comment or a token. -/
inductive Token.Stuck : (before text : List Char) → LexError → Prop
  | here (before : List Char) {gap rest : List Char} {c : Char} (hgap : Gap (c :: rest) gap)
      (hblank : isBlank c = false) (hcomment : c ≠ '#')
      (hnone : ∀ kind value chars, TokenKind.Written kind value chars → ¬ chars <+: c :: rest) :
    Stuck before (gap ++ c :: rest) ⟨LexFault.at_ c, Pos.behind (before ++ gap)⟩
  | token (before : List Char) {gap chars rest value : List Char} {kind : TokenKind}
      {e : LexError} (hgap : Gap (chars ++ rest) gap) (hchars : kind.Written value chars)
      (h : Stuck (before ++ gap ++ chars) rest e) : Stuck before (gap ++ chars ++ rest) e

namespace Lexeme

theorem quotedTail_of_quotes {body value : List Char} (h : Quotes body value) (rest : List Char) :
    quotedTail (body ++ '"' :: rest) = some (value, body ++ ['"'], rest) := by
  induction h with
  | nil => rfl
  | plain hquote hslash _ ih =>
    rw [List.cons_append, quotedTail, ih]
    · rfl
    · exact fun hc => hquote hc
    · exact fun d ds hc => absurd hc hslash
  | escaped c _ ih =>
    rw [List.cons_append, List.cons_append, quotedTail, ih]
    rfl

theorem sign_ne_error_of_ofChar? {c : Char} {s : Sign} (h : Sign.ofChar? c = some s)
    (cs : List Char) (fault : LexFault) : sign c cs ≠ .error fault := by
  cases cs with
  | nil => simp [sign, h]
  | cons d ds => cases hpair : Sign.ofPair? c d <;> simp [sign, h, hpair]

theorem sign_ne_error_of_ofPair? {c d : Char} {s : Sign} (h : Sign.ofPair? c d = some s)
    (cs : List Char) (fault : LexFault) : sign c (d :: cs) ≠ .error fault := by
  simp [sign, h]

/-- A sign does not start with a quote, and where it is written a sign is read. -/
theorem exists_sign_chars (s : Sign) : ∃ c ds, s.text.toList = c :: ds ∧ c ≠ '"' ∧
    ∀ cs fault, sign c (ds ++ cs) ≠ .error fault := by
  cases s with
  | arrow | both | either | eq | ne | le | ge =>
    exact ⟨_, _, rfl, by decide, fun cs => sign_ne_error_of_ofPair? rfl cs⟩
  | _ => exact ⟨_, _, rfl, by decide, fun cs => sign_ne_error_of_ofChar? rfl cs⟩

/-- **Where nothing is read, no token is written.** -/
theorem read_error {c : Char} {cs : List Char} {fault : LexFault} (h : read c cs = .error fault) :
    fault = .at_ c ∧
      ∀ kind value chars, TokenKind.Written kind value chars → ¬ chars <+: c :: cs := by
  unfold read at h
  split at h
  · cases h
  rename_i hword
  split at h
  · cases h
  rename_i hdigit
  -- a word or a number would start with a letter or a digit
  have hfirst {kind : TokenKind} {value chars : List Char} (hwritten : kind.Written value chars)
      (hpre : chars <+: c :: cs) :
      (∃ s, kind = .symbol s ∧ chars = s.text.toList) ∨
        ∃ body, Quotes body value ∧ chars = '"' :: (body ++ ['"']) := by
    obtain ⟨more, hmore⟩ := hpre
    cases hwritten with
    | keyword k =>
      obtain ⟨d, ds, hchars, hd, -⟩ := k.exists_chars
      rw [hchars] at hmore
      cases hmore
      exact absurd hd hword
    | ident hname =>
      obtain ⟨d, ds, hchars, hd, -⟩ := exists_chars_of_isName hname
      rw [hchars] at hmore
      cases hmore
      exact absurd hd hword
    | int _ hd | float _ hd =>
      cases hmore
      exact absurd hd hdigit
    | symbol s => exact .inl ⟨s, rfl, rfl⟩
    | string hbody => exact .inr ⟨_, hbody, rfl⟩
  split at h
  · rename_i hquote
    subst hquote
    unfold quoted at h
    split at h
    · cases h
    · rename_i htail
      cases h
      refine ⟨rfl, fun kind value chars hwritten hpre => ?_⟩
      rcases hfirst hwritten hpre with ⟨s, rfl, rfl⟩ | ⟨body, hbody, rfl⟩
      · obtain ⟨d, ds, htext, hd, -⟩ := exists_sign_chars s
        rw [htext] at hpre
        obtain ⟨more, hmore⟩ := hpre
        cases hmore
        exact hd rfl
      · obtain ⟨more, hmore⟩ := hpre
        rw [List.cons_append, List.cons.injEq] at hmore
        rw [← hmore.2, List.append_assoc, List.singleton_append,
          quotedTail_of_quotes hbody] at htail
        cases htail
  · rename_i hquote
    refine ⟨?_, fun kind value chars hwritten hpre => ?_⟩
    · rw [LexFault.at_, if_neg hquote]
      unfold sign at h
      split at h <;> grind
    · rcases hfirst hwritten hpre with ⟨s, rfl, rfl⟩ | ⟨body, hbody, rfl⟩
      · obtain ⟨d, ds, htext, -, hsign⟩ := exists_sign_chars s
        rw [htext] at hpre
        obtain ⟨more, hmore⟩ := hpre
        cases hmore
        exact hsign more fault h
      · obtain ⟨more, hmore⟩ := hpre
        cases hmore
        exact hquote rfl

end Lexeme

namespace Token

variable {e : LexError}

theorem Stuck.blank {before text : List Char} {c : Char} (hc : isBlank c = true)
    (h : Stuck (before ++ [c]) text e) : Stuck before (c :: text) e := by
  cases h with
  | here _ hgap hblank hcomment hnone =>
    have hstuck := Stuck.here before (hgap.blank hc) hblank hcomment hnone
    simpa using hstuck
  | token _ hgap hchars h =>
    have hstuck := Stuck.token before (hgap.blank hc) hchars (by simpa using h)
    simpa using hstuck

theorem Stuck.comment {before note text : List Char} (hnote : '\n' ∉ note)
    (hend : ∀ c ∈ text.head?, c = '\n') (h : Stuck (before ++ '#' :: note) text e) :
    Stuck before ('#' :: (note ++ text)) e := by
  cases h with
  | here _ hgap hblank hcomment hnone =>
    have hstuck := Stuck.here before (hgap.comment hnote (by simpa using hend)) hblank hcomment
      hnone
    simpa using hstuck
  | token _ hgap hchars h =>
    have hstuck := Stuck.token before (hgap.comment hnote (by simpa using hend)) hchars
      (by simpa using h)
    simpa using hstuck

theorem readFrom_stuck {n : Nat} {before cs : List Char} (hn : cs.length ≤ n)
    (h : readFrom n (Pos.behind before) cs = .error e) : Stuck before cs e := by
  generalize hp : Pos.behind before = p at h
  fun_induction readFrom n p cs generalizing before with
  | case1 => cases h
  | case2 => simp at hn
  | case3 n p c cs hc ih =>
    refine .blank hc (ih ?_ ?_ h)
    · simpa using hn
    · rw [Pos.behind_concat, hp]
  | case4 n p cs hc ih =>
    have hnote : '\n' ∉ cs.takeWhile (· != '\n') := fun hmem =>
      absurd (List.mem_takeWhile_imp hmem) (by decide)
    have hrest :
        Stuck (before ++ '#' :: cs.takeWhile (· != '\n')) (cs.dropWhile (· != '\n')) e := by
      refine ih ?_ ?_ h
      · exact (List.dropWhile_sublist _).length_le.trans (Nat.le_of_succ_le_succ hn)
      · rw [← Pos.after_behind, hp]
    have hstuck := hrest.comment hnote (head?_dropWhile_line cs)
    rwa [List.takeWhile_append_dropWhile] at hstuck
  | case5 n p c cs hblank hnote fault hread =>
    cases h
    obtain ⟨rfl, hnone⟩ := Lexeme.read_error hread
    have hstuck := Stuck.here before .nil (by simpa using hblank) hnote hnone
    simpa [hp] using hstuck
  | case6 n p c cs hblank hnote l hread ih =>
    have hl := Lexeme.read_splits hread
    cases hrest : readFrom n (p.after l.chars) l.rest with
    | ok us =>
      rw [hrest] at h
      cases h
    | error e' =>
      rw [hrest] at h
      cases h
      have hbehind : Stuck (before ++ [] ++ l.chars) l.rest e := by
        refine ih ?_ ?_ hrest
        · exact (Lexeme.length_rest_le hread).trans (Nat.le_of_succ_le_succ hn)
        · rw [List.append_nil, ← Pos.after_behind, hp]
      have hstuck := Stuck.token before .nil hl.written hbehind
      rwa [List.nil_append, ← hl.split] at hstuck

/-- **A text that cannot be read is stuck at a character that starts no token.** -/
theorem readAll_stuck {source : String} (h : readAll source = .error e) :
    Stuck [] source.toList e :=
  readFrom_stuck (Nat.le_refl _) h

end Token

end RaisingEffects
