import RaisingEffects.Proofs.Token.Words

/-!
# How a text is cut into tokens

The reader of tokens goes through a text once, and keeps a position of its own. This module says
what comes out without mentioning the reader.

* `Pos.behind before` counts lines and columns in the text before a character.
* `Gap after gap`: in front of the text `after`, the characters of `gap` are blanks and comments.
* `TokenKind.Written kind value chars`: the characters `chars` are a way to write a token of that
  kind and value. Only for a quoted text do they differ from the value.
* `Token.Cut before text tokens`: behind the text `before`, the text is a gap, the characters of
  the first token, a gap, and so on up to a last gap, and each token has the positions that are
  counted at both ends of its characters.

The main result is `Token.readAll_cut`: whatever is read from a text is a cut of that text.
-/

namespace RaisingEffects

/-! ## Positions -/

/-- The position behind the characters `before`: its line is counted by the line feeds, its column
by the characters since the last of them. -/
def Pos.behind (before : List Char) : Pos :=
  ⟨before.count '\n' + 1, (before.reverse.takeWhile (· != '\n')).length + 1⟩

theorem Pos.behind_concat (before : List Char) (c : Char) :
    Pos.behind (before ++ [c]) = (Pos.behind before).advance c := by
  by_cases hc : c = '\n'
  · simp [Pos.behind, Pos.advance, hc]
  · simp [Pos.behind, Pos.advance, hc, List.count_append]

/-- To move on over characters is to count in the longer text. -/
theorem Pos.after_behind (before cs : List Char) :
    (Pos.behind before).after cs = Pos.behind (before ++ cs) := by
  induction cs generalizing before with
  | nil => simp [Pos.after]
  | cons c cs ih =>
    have hstep := ih (before ++ [c])
    rw [Pos.behind_concat, List.append_assoc, List.singleton_append] at hstep
    exact hstep

/-! ## Gaps -/

/-- Characters in front of the text `after` that belong to no token: blanks, and comments, each up
to the end of its line. -/
inductive Gap (after : List Char) : List Char → Prop
  | nil : Gap after []
  | blank {c : Char} {cs : List Char} (hc : isBlank c = true) (h : Gap after cs) :
    Gap after (c :: cs)
  | comment {text cs : List Char} (htext : '\n' ∉ text)
      (hend : ∀ c ∈ (cs ++ after).head?, c = '\n') (h : Gap after cs) :
    Gap after ('#' :: (text ++ cs))

/-! ## Characters of tokens -/

/-- The text `body` between two quotes stands for `value`. A quote or a backslash in it follows a
backslash. -/
inductive Quotes : (body value : List Char) → Prop
  | nil : Quotes [] []
  | plain {c : Char} {body value : List Char} (hquote : c ≠ '"') (hslash : c ≠ '\\')
      (h : Quotes body value) : Quotes (c :: body) (c :: value)
  | escaped (c : Char) {body value : List Char} (h : Quotes body value) :
    Quotes ('\\' :: c :: body) (Lexeme.unescape c :: value)

/-- The characters `chars` are a way to write a token of the given kind and value. -/
inductive TokenKind.Written : TokenKind → (value chars : List Char) → Prop
  | keyword (k : Keyword) : Written (.keyword k) k.text.toList k.text.toList
  | ident {name : String} (h : isName name = true) : Written .ident name.toList name.toList
  | int {c : Char} {cs : List Char} (hword : isWordStart c = false) (hc : isDigit c = true)
      (hcs : cs.all isDigit = true) : Written .int (c :: cs) (c :: cs)
  | float {c d : Char} {cs ds : List Char} (hword : isWordStart c = false)
      (hc : isDigit c = true) (hcs : cs.all isDigit = true) (hd : isDigit d = true)
      (hds : ds.all isDigit = true) :
    Written .float (c :: (cs ++ '.' :: d :: ds)) (c :: (cs ++ '.' :: d :: ds))
  | symbol (s : Sign) : Written (.symbol s) s.text.toList s.text.toList
  | string {body value : List Char} (h : Quotes body value) :
    Written .string value ('"' :: (body ++ ['"']))

theorem TokenKind.Written.chars_ne_nil {kind : TokenKind} {value chars : List Char}
    (h : kind.Written value chars) : chars ≠ [] := by
  cases h with
  | keyword k => cases k <;> decide
  | ident hname =>
    intro hnil
    rw [isName, hnil] at hname
    cases hname
  | int => simp
  | float => simp
  | symbol s => cases s <;> decide
  | string => simp

/-- Behind the text `before`, the text is cut into tokens, with gaps around them. Positions are
counted from the start of the whole text, and the end mark stands behind all of it. -/
inductive Token.Cut : (before text : List Char) → List Token → Prop
  | last (before : List Char) {gap : List Char} (hgap : Gap [] gap) :
    Cut before gap [Token.eofAt (Pos.behind (before ++ gap))]
  | token (before : List Char) {gap chars rest value : List Char} {kind : TokenKind}
      {ts : List Token} (hgap : Gap (chars ++ rest) gap) (hchars : kind.Written value chars)
      (h : Cut (before ++ gap ++ chars) rest ts) :
    Cut before (gap ++ chars ++ rest)
      (⟨kind, String.ofList value,
        ⟨Pos.behind (before ++ gap), Pos.behind (before ++ gap ++ chars)⟩⟩ :: ts)

/-! ## Lexemes are written as they should be -/

namespace Lexeme

variable {c : Char} {cs : List Char} {l : Lexeme}

/-- The characters of a lexeme and the characters after it are those that were read, and they are a
way to write its kind and value. -/
structure Splits (l : Lexeme) (cs : List Char) : Prop where
  split : cs = l.chars ++ l.rest
  written : l.kind.Written l.value l.chars

theorem ofText?_text {s : String} {k : Keyword} (h : Keyword.ofText? s = some k) : k.text = s := by
  have hfound := List.find?_some h
  exact eq_of_beq hfound

theorem word_splits (hc : isWordStart c = true) : (word c cs).Splits (c :: cs) := by
  have hparts : (cs.takeWhile isWordPart).all isWordPart = true := List.all_takeWhile
  refine ⟨?_, ?_⟩
  · simp [word]
  · simp only [word, wordKind]
    cases hkey : Keyword.ofText? (String.ofList (c :: cs.takeWhile isWordPart)) with
    | some k =>
      have htext := congrArg String.toList (ofText?_text hkey)
      rw [String.toList_ofList] at htext
      rw [← htext]
      exact .keyword k
    | none =>
      have hname : isName (String.ofList (c :: cs.takeWhile isWordPart)) = true := by
        rw [isName, String.toList_ofList]
        simp only [hc, hparts, hkey, Option.isNone_none, Bool.and_true]
      have hwritten := TokenKind.Written.ident hname
      rwa [String.toList_ofList] at hwritten

theorem number_splits (hword : isWordStart c = false) (hc : isDigit c = true) :
    (number c cs).Splits (c :: cs) := by
  have hwhole : (cs.takeWhile isDigit).all isDigit = true := List.all_takeWhile
  have hsplit : cs = cs.takeWhile isDigit ++ cs.dropWhile isDigit :=
    List.takeWhile_append_dropWhile.symm
  unfold number
  dsimp only
  split
  · rename_i d rest hrest
    split
    · rename_i hd
      refine ⟨?_, ?_⟩
      · rw [hrest] at hsplit
        dsimp only
        rw [List.cons_append, List.cons_append, List.append_assoc, List.cons_append,
          List.cons_append, List.takeWhile_append_dropWhile, ← hsplit]
      · exact .float hword hc hwhole hd List.all_takeWhile
    · refine ⟨?_, .int hword hc hwhole⟩
      dsimp only
      rw [List.cons_append, ← hrest, ← hsplit]
  · refine ⟨?_, .int hword hc hwhole⟩
    dsimp only
    rw [List.cons_append, ← hsplit]

theorem quotedTail_splits {cs value chars rest : List Char}
    (h : quotedTail cs = some (value, chars, rest)) :
    cs = chars ++ rest ∧ ∃ body, chars = body ++ ['"'] ∧ Quotes body value := by
  fun_induction quotedTail cs generalizing value chars rest with
  | case1 => cases h
  | case2 => cases h; exact ⟨rfl, [], rfl, .nil⟩
  | case3 c cs ih =>
    obtain ⟨⟨value', chars', rest'⟩, htail, heq⟩ := Option.map_eq_some_iff.1 h
    cases heq
    obtain ⟨rfl, body, rfl, hbody⟩ := ih htail
    exact ⟨rfl, '\\' :: c :: body, rfl, .escaped c hbody⟩
  | case4 c cs hquote hslash ih =>
    obtain ⟨⟨value', chars', rest'⟩, htail, heq⟩ := Option.map_eq_some_iff.1 h
    cases heq
    obtain ⟨rfl, body, rfl, hbody⟩ := ih htail
    refine ⟨rfl, c :: body, rfl, .plain (fun hc => hquote hc) (fun hc => ?_) hbody⟩
    -- a backslash here would have a character after it, at least the closing quote
    obtain ⟨d, ds, hds⟩ := List.exists_cons_of_ne_nil
      (show body ++ ['"'] ++ rest ≠ [] by simp)
    exact hslash d ds hc hds

theorem quoted_splits (h : quoted cs = .ok l) : l.Splits ('"' :: cs) := by
  unfold quoted at h
  split at h
  · rename_i value chars rest htail
    cases h
    obtain ⟨rfl, body, rfl, hbody⟩ := quotedTail_splits htail
    exact ⟨rfl, .string hbody⟩
  · cases h

theorem ofPair?_text {c d : Char} {s : Sign} (h : Sign.ofPair? c d = some s) :
    s.text.toList = [c, d] := by
  unfold Sign.ofPair? at h
  split at h <;> cases h <;> rfl

theorem ofChar?_text {s : Sign} (h : Sign.ofChar? c = some s) : s.text.toList = [c] := by
  unfold Sign.ofChar? at h
  split at h <;> cases h <;> rfl

theorem single_splits {s : Sign} (h : Sign.ofChar? c = some s) (cs : List Char) :
    Splits ⟨.symbol s, [c], [c], cs⟩ (c :: cs) := by
  refine ⟨rfl, ?_⟩
  rw [← ofChar?_text h]
  exact .symbol s

theorem sign_splits (h : sign c cs = .ok l) : l.Splits (c :: cs) := by
  unfold sign at h
  dsimp only at h
  split at h
  · rename_i d rest
    split at h
    · rename_i s hs
      cases h
      refine ⟨rfl, ?_⟩
      rw [← ofPair?_text hs]
      exact .symbol s
    · split at h
      · rename_i s hs
        cases h
        exact single_splits hs _
      · cases h
  · split at h
    · rename_i s hs
      cases h
      exact single_splits hs []
    · cases h

/-- **A lexeme is cut off the front of the text, and written as its kind and value ask for.** -/
theorem read_splits (h : read c cs = .ok l) : l.Splits (c :: cs) := by
  unfold read at h
  split at h
  · rename_i hc
    cases h
    exact word_splits hc
  · rename_i hword
    split at h
    · rename_i hc
      cases h
      exact number_splits (by simpa using hword) hc
    · split at h
      · rename_i hc
        subst hc
        exact quoted_splits h
      · exact sign_splits h

theorem length_rest_le (h : read c cs = .ok l) : l.rest.length ≤ cs.length := by
  have hl := read_splits h
  have hlength := congrArg List.length hl.split
  have hpos := List.length_pos_iff.2 hl.written.chars_ne_nil
  simp only [List.length_cons, List.length_append] at hlength
  omega

end Lexeme

/-! ## Readings -/

namespace Token

variable {ts : List Token}

/-- From the position `p` on, the text is read as the tokens. -/
inductive Reads : Pos → List Char → List Token → Prop
  | nil (p : Pos) : Reads p [] [eofAt p]
  | blank {p : Pos} {c : Char} {cs : List Char} {ts : List Token} (hc : isBlank c = true)
      (h : Reads (p.advance c) cs ts) : Reads p (c :: cs) ts
  | comment {p : Pos} {cs : List Char} {ts : List Token}
      (h : Reads (p.after ('#' :: cs.takeWhile (· != '\n'))) (cs.dropWhile (· != '\n')) ts) :
    Reads p ('#' :: cs) ts
  | lexeme {p : Pos} {c : Char} {cs : List Char} {l : Lexeme} {ts : List Token}
      (hblank : isBlank c = false) (hnote : c ≠ '#') (hread : Lexeme.read c cs = .ok l)
      (h : Reads (p.after l.chars) l.rest ts) : Reads p (c :: cs) (ofLexeme p l :: ts)

theorem reads_of_readFrom {n : Nat} {p : Pos} {cs : List Char} (h : readFrom n p cs = .ok ts) :
    Reads p cs ts := by
  fun_induction readFrom n p cs generalizing ts with
  | case1 n p =>
    cases h
    exact .nil p
  | case2 | case5 => cases h
  | case3 n p c cs hc ih => exact .blank hc (ih h)
  | case4 n p cs hc ih => exact .comment (ih h)
  | case6 n p c cs hblank hnote l hread ih =>
    cases hrest : readFrom n (p.after l.chars) l.rest with
    | error e =>
      rw [hrest] at h
      cases h
    | ok us =>
      rw [hrest] at h
      cases h
      exact .lexeme (by simpa using hblank) hnote hread (ih hrest)

/-! ## Cuts -/

theorem Cut.blank {before text : List Char} {c : Char} (hc : isBlank c = true)
    (h : Cut (before ++ [c]) text ts) : Cut before (c :: text) ts := by
  cases h with
  | last _ hgap =>
    have hcut := Cut.last before (hgap.blank hc)
    simpa using hcut
  | token _ hgap hchars h =>
    have hcut := Cut.token before (hgap.blank hc) hchars (by simpa using h)
    simpa using hcut

theorem Cut.comment {before note text : List Char} (hnote : '\n' ∉ note)
    (hend : ∀ c ∈ text.head?, c = '\n') (h : Cut (before ++ '#' :: note) text ts) :
    Cut before ('#' :: (note ++ text)) ts := by
  cases h with
  | last _ hgap =>
    have hcut := Cut.last before (hgap.comment hnote (by simpa using hend))
    simpa using hcut
  | token _ hgap hchars h =>
    have hcut := Cut.token before (hgap.comment hnote (by simpa using hend)) hchars
      (by simpa using h)
    simpa using hcut

theorem Cut.lexeme {before text : List Char} {l : Lexeme} (hl : l.Splits text)
    (h : Cut (before ++ l.chars) l.rest ts) :
    Cut before text (ofLexeme (Pos.behind before) l :: ts) := by
  have hcut := Cut.token before .nil hl.written (by simpa using h)
  rw [ofLexeme, Pos.after_behind, hl.split]
  simpa using hcut

/-- A comment goes on to the end of its line, or to the end of the text. -/
theorem head?_dropWhile_line (cs : List Char) :
    ∀ c ∈ (cs.dropWhile (· != '\n')).head?, c = '\n' := by
  intro c hc
  have hstop := List.head?_dropWhile_not (· != '\n') cs
  rw [Option.mem_def.1 hc] at hstop
  simpa using hstop

theorem Reads.cut {p : Pos} (before : List Char) {cs : List Char} (h : Reads p cs ts)
    (hp : Pos.behind before = p) : Cut before cs ts := by
  induction h generalizing before with
  | nil p =>
    have hcut := Cut.last before .nil
    rwa [List.append_nil, hp] at hcut
  | blank hc _ ih => exact .blank hc (ih _ (by rw [Pos.behind_concat, hp]))
  | @comment p cs ts _ ih =>
    have hnote : '\n' ∉ cs.takeWhile (· != '\n') := fun hmem =>
      absurd (List.mem_takeWhile_imp hmem) (by decide)
    have hcut := (ih _ (by rw [← Pos.after_behind, hp])).comment hnote (head?_dropWhile_line cs)
    rwa [List.takeWhile_append_dropWhile] at hcut
  | lexeme _ _ hread _ ih =>
    rw [← hp]
    exact .lexeme (Lexeme.read_splits hread) (ih _ (by rw [← Pos.after_behind, hp]))

theorem readAll_reads {source : String} {tokens : List Token} (h : readAll source = .ok tokens) :
    Reads .start source.toList tokens :=
  reads_of_readFrom h

/-- **The tokens of a text cut it up and lose nothing.** The text is made of gaps and the characters
of the tokens in turn. Each token's characters are its value, or for a quoted text stand for it,
and its positions are the lines and columns counted up to its first character and up to the
character behind it. The end mark stands behind the whole text. -/
theorem readAll_cut {source : String} {tokens : List Token}
    (h : readAll source = .ok tokens) : Cut [] source.toList tokens :=
  (readAll_reads h).cut [] rfl

end Token

/-- Numbers next to points, a comment with a quote in it, a text that has escapes and goes over two
lines, and letters and digits of other scripts. -/
def mixedSource : String := "x1 = 1.5.2; # note \"
s=\"a\\n\\\"
b\\q\"->é||²"

def mixedTokens : List Token :=
  [⟨.ident, "x1", ⟨⟨1, 1⟩, ⟨1, 3⟩⟩⟩, ⟨.symbol .assign, "=", ⟨⟨1, 4⟩, ⟨1, 5⟩⟩⟩,
    ⟨.float, "1.5", ⟨⟨1, 6⟩, ⟨1, 9⟩⟩⟩, ⟨.symbol .dot, ".", ⟨⟨1, 9⟩, ⟨1, 10⟩⟩⟩,
    ⟨.int, "2", ⟨⟨1, 10⟩, ⟨1, 11⟩⟩⟩, ⟨.symbol .semicolon, ";", ⟨⟨1, 11⟩, ⟨1, 12⟩⟩⟩,
    ⟨.ident, "s", ⟨⟨2, 1⟩, ⟨2, 2⟩⟩⟩, ⟨.symbol .assign, "=", ⟨⟨2, 2⟩, ⟨2, 3⟩⟩⟩,
    ⟨.string, "a\n\"\nbq", ⟨⟨2, 3⟩, ⟨3, 5⟩⟩⟩, ⟨.symbol .arrow, "->", ⟨⟨3, 5⟩, ⟨3, 7⟩⟩⟩,
    ⟨.ident, "é", ⟨⟨3, 7⟩, ⟨3, 8⟩⟩⟩, ⟨.symbol .either, "||", ⟨⟨3, 8⟩, ⟨3, 10⟩⟩⟩,
    ⟨.int, "²", ⟨⟨3, 10⟩, ⟨3, 11⟩⟩⟩, .eofAt ⟨3, 11⟩]

theorem readAll_mixedSource : Token.readAll mixedSource = .ok mixedTokens := by decide +kernel

theorem Token.readAll_cut_mixed :
    Token.readAll mixedSource = .ok mixedTokens ∧
      Token.Cut [] mixedSource.toList mixedTokens :=
  ⟨readAll_mixedSource, Token.readAll_cut readAll_mixedSource⟩

end RaisingEffects
