import RaisingEffects.Proofs.Token.Lexemes

/-!
# Tokens are read back from their spelling

The tokens of a text can be spelled in a standard way: the value of each, in quotes and with the
special characters escaped if it is a quoted text, with one space between two of them. What was
written between the tokens is lost, and so are the other ways to escape a character, but nothing
else: reading the spelled text gives tokens of the same kinds and values
(`Token.readAll_spellAll`).

That a text was read is used only through the cut that its tokens are (`Token.Reads.cut`): each
of them is written as its kind asks for, and what is written so is one lexeme in front of a space
(`TokenKind.Written.read_spelled`).
-/

namespace RaisingEffects

/-! ## Spelling -/

/-- How a token of the given kind and value is spelled: as its value, but a quoted text in quotes,
with backslashes, quotes, line feeds and tabs escaped. -/
def TokenKind.spelled (kind : TokenKind) (value : List Char) : List Char :=
  match kind with
  | .string => '"' :: (value.flatMap escape ++ ['"'])
  | _ => value

namespace Token

/-- What a token is, apart from where it stands. -/
def content (t : Token) : TokenKind × String := (t.kind, t.value)

def spelling (t : Token) : String := String.ofList (t.kind.spelled t.value.toList)

/-- The spellings of tokens with one space between two of them. The end mark is not spelled. -/
def spellAll (ts : List Token) : String :=
  " ".intercalate ((ts.filter fun t => t.kind != .eof).map spelling)

end Token

/-! ## One token -/

theorem Lexeme.read_decimal {c d : Char} {cs ds rest : List Char} (hword : isWordStart c = false)
    (hc : isDigit c = true) (hcs : cs.all isDigit = true) (hd : isDigit d = true)
    (hds : ds.all isDigit = true) (hrest : Apart rest) :
    Lexeme.read c (cs ++ '.' :: d :: ds ++ rest) =
      .ok ⟨.float, c :: (cs ++ '.' :: d :: ds), c :: (cs ++ '.' :: d :: ds), rest⟩ := by
  have hpoint : isDigit '.' = false := by decide
  have htake : (cs ++ '.' :: d :: ds ++ rest).takeWhile isDigit = cs := by
    rw [List.append_assoc, List.takeWhile_append_of_pos (List.all_eq_true.1 hcs)]
    simp [hpoint]
  have hdrop : (cs ++ '.' :: d :: ds ++ rest).dropWhile isDigit = '.' :: d :: (ds ++ rest) := by
    rw [List.append_assoc, List.dropWhile_append_of_pos (List.all_eq_true.1 hcs)]
    simp [hpoint]
  rw [Lexeme.read, if_neg (by rw [hword]; simp), if_pos hc, Lexeme.number, htake, hdrop]
  simp only [hd, if_true, takeWhile_apart hds (by decide) hrest,
    dropWhile_apart hds (by decide) hrest, List.cons_append]

theorem Word.read_spelled (w : Word) (h : w.isSpelled = true) {rest : List Char}
    (hrest : Apart rest) :
    ∃ c cs, w.kind.spelled w.value.toList = c :: cs ∧ isBlank c = false ∧ c ≠ '#' ∧
      Lexeme.read c (cs ++ rest) = .ok ⟨w.kind, w.value.toList, c :: cs, rest⟩ := by
  have hchars : w.chars = w.kind.spelled w.value.toList := by cases w <;> rfl
  obtain ⟨c, cs, hcs, hblank, hnote, hread⟩ := w.read_chars h hrest
  rw [hcs] at hread
  exact ⟨c, cs, hchars ▸ hcs, hblank, hnote, hread⟩

/-- **What is written as its kind asks for is one lexeme when it is spelled.** -/
theorem TokenKind.Written.read_spelled {kind : TokenKind} {value chars rest : List Char}
    (h : kind.Written value chars) (hrest : Apart rest) :
    ∃ c cs, kind.spelled value = c :: cs ∧ isBlank c = false ∧ c ≠ '#' ∧
      Lexeme.read c (cs ++ rest) = .ok ⟨kind, value, c :: cs, rest⟩ := by
  cases h with
  | keyword k => exact (Word.keyword k).read_spelled rfl hrest
  | ident hname => exact (Word.name _).read_spelled hname hrest
  | symbol s => exact (Word.sign s).read_spelled rfl hrest
  | int hword hc hcs =>
    exact ⟨_, _, rfl, isBlank_of_isDigit hc, ne_note_of_isDigit hc,
      Lexeme.read_number hword hc hcs hrest⟩
  | float hword hc hcs hd hds =>
    exact ⟨_, _, rfl, isBlank_of_isDigit hc, ne_note_of_isDigit hc,
      Lexeme.read_decimal hword hc hcs hd hds hrest⟩
  | string hbody => exact ⟨_, _, rfl, by decide, by decide, Lexeme.read_quoted value rest⟩

/-! ## All tokens -/

namespace Token

/-- A token is written as its kind asks for. -/
def IsWritten (t : Token) : Prop := ∃ chars, t.kind.Written t.value.toList chars

theorem IsWritten.kind_ne_eof {t : Token} (h : t.IsWritten) : t.kind ≠ .eof := by
  obtain ⟨chars, hchars⟩ := h
  intro heof
  rw [heof] at hchars
  cases hchars

/-- The tokens of a text are written as their kinds ask for, up to the end mark. -/
theorem Cut.exists_written {before text : List Char} {ts : List Token} (h : Cut before text ts) :
    ∃ ws p, ts = ws ++ [eofAt p] ∧ ∀ t ∈ ws, t.IsWritten := by
  induction h with
  | last before hgap => exact ⟨[], _, rfl, by simp⟩
  | token before hgap hchars h ih =>
    obtain ⟨ws, p, rfl, hws⟩ := ih
    refine ⟨_ :: ws, p, rfl, List.forall_mem_cons.2 ⟨?_, hws⟩⟩
    rw [IsWritten, String.toList_ofList]
    exact ⟨_, hchars⟩

theorem exists_written {source : String} {tokens : List Token} (h : readAll source = .ok tokens) :
    ∃ ws p, tokens = ws ++ [eofAt p] ∧ ∀ t ∈ ws, t.IsWritten :=
  ((readAll_reads h).cut [] rfl).exists_written

/-- Every text is the value of a token that is written as it should be. -/
theorem isWritten_string (value : String) (span : Span) : IsWritten ⟨.string, value, span⟩ := by
  obtain ⟨-, body, -, hbody⟩ :=
    Lexeme.quotedTail_splits (Lexeme.quotedTail_flatMap value.toList [])
  exact ⟨_, .string hbody⟩

/-- From whatever position it is read, the text gives tokens with the given contents. -/
def ReadAs (text : List Char) (contents : List (TokenKind × String)) : Prop :=
  ∀ n pos, text.length ≤ n → ∃ ts, readFrom n pos text = .ok ts ∧ ts.map content = contents

namespace ReadAs

variable {text : List Char} {contents : List (TokenKind × String)}

theorem nil : ReadAs [] [(.eof, "")] := by
  intro n pos _
  exact ⟨[eofAt pos], by rw [readFrom], rfl⟩

theorem space (h : ReadAs text contents) : ReadAs (' ' :: text) contents := by
  intro n pos hn
  obtain ⟨n, rfl⟩ : ∃ m, n = m + 1 := ⟨n - 1, by simp at hn; omega⟩
  obtain ⟨ts, hts, hcontents⟩ := h n (pos.advance ' ') (by simpa using hn)
  refine ⟨ts, ?_, hcontents⟩
  rw [readFrom, if_pos (by decide), hts]

theorem token {t : Token} (ht : t.IsWritten) (hrest : Apart text) (h : ReadAs text contents) :
    ReadAs (t.spelling.toList ++ text) (t.content :: contents) := by
  intro n pos hn
  obtain ⟨chars, hchars⟩ := ht
  obtain ⟨c, cs, hspelled, hblank, hnote, hread⟩ := hchars.read_spelled hrest
  rw [spelling, String.toList_ofList, hspelled, List.cons_append] at hn ⊢
  obtain ⟨n, rfl⟩ : ∃ m, n = m + 1 := ⟨n - 1, by simp at hn; omega⟩
  have hlength : text.length ≤ n := by
    simp only [List.length_cons, List.length_append] at hn
    omega
  obtain ⟨ts, hts, hcontents⟩ := h n (pos.after (c :: cs)) hlength
  refine ⟨ofLexeme pos ⟨t.kind, t.value.toList, c :: cs, text⟩ :: ts, ?_, ?_⟩
  · rw [readFrom, hblank, if_neg (by simp), if_neg hnote, hread]
    dsimp only
    rw [hts]
    rfl
  · rw [List.map_cons, hcontents, content, ofLexeme, String.ofList_toList]
    rfl

/-- Tokens are read back, the first from the start and each other from behind a space. -/
theorem spellings {t : Token} {ts : List Token} (ht : t.IsWritten) (hts : ∀ u ∈ ts, u.IsWritten) :
    ReadAs (t.spelling.toList ++ ts.flatMap fun u => ' ' :: u.spelling.toList)
      ((t :: ts).map content ++ [(.eof, "")]) := by
  induction ts generalizing t with
  | nil => exact token ht .nil nil
  | cons u ts ih =>
    obtain ⟨hu, hts⟩ := List.forall_mem_cons.1 hts
    exact token ht (.space _) (space (ih hu hts))

end ReadAs

theorem toList_intercalate_cons (x : String) (xs : List String) :
    (" ".intercalate (x :: xs)).toList = x.toList ++ xs.flatMap fun y => ' ' :: y.toList := by
  induction xs generalizing x with
  | nil => simp
  | cons y xs ih =>
    rw [String.intercalate_cons_cons, String.toList_append, String.toList_append, ih,
      List.flatMap_cons, List.append_assoc]
    rfl

theorem readAs_spellAll {ws : List Token} (hws : ∀ t ∈ ws, t.IsWritten) (p : Pos) :
    ReadAs (spellAll (ws ++ [eofAt p])).toList ((ws ++ [eofAt p]).map content) := by
  have hfilter : (ws ++ [eofAt p]).filter (fun t => t.kind != .eof) = ws := by
    rw [List.filter_append, List.filter_eq_self.2 fun t ht => by simpa using (hws t ht).kind_ne_eof]
    exact List.append_nil ws
  rw [spellAll, hfilter, List.map_append]
  cases ws with
  | nil => exact .nil
  | cons t ts =>
    obtain ⟨ht, hts⟩ := List.forall_mem_cons.1 hws
    rw [List.map_cons, toList_intercalate_cons, List.flatMap_map]
    exact .spellings ht hts

/-- **Tokens are read back from their spelling.** When the tokens of a text are spelled with one
space between two of them, the spelled text is read, and its tokens have the same kinds and values.
A quoted text survives whatever characters it has. -/
theorem readAll_spellAll {source : String} {tokens : List Token}
    (h : readAll source = .ok tokens) :
    (∃ others, readAll (spellAll tokens) = .ok others ∧
      others.map content = tokens.map content) ∧
    ∀ value span, ∃ others, readAll (spelling ⟨.string, value, span⟩) = .ok others ∧
      others.map content = [(.string, value), (.eof, "")] := by
  constructor
  · obtain ⟨ws, p, rfl, hws⟩ := exists_written h
    exact readAs_spellAll hws p _ .start (Nat.le_refl _)
  · intro value span
    have hread := ReadAs.token (isWritten_string value span) .nil .nil
    rw [List.append_nil] at hread
    exact hread _ .start (Nat.le_refl _)

theorem readAll_spellAll_mixed :
    readAll mixedSource = .ok mixedTokens ∧
      spellAll mixedTokens = "x1 = 1.5 . 2 ; s = \"a\\n\\\"\\nbq\" -> é || ²" ∧
      ∃ others, readAll (spellAll mixedTokens) = .ok others ∧
        others.map content = mixedTokens.map content :=
  ⟨readAll_mixedSource, by decide +kernel, (readAll_spellAll readAll_mixedSource).1⟩

end Token

end RaisingEffects
