import Mathlib.Data.List.Basic
import Mathlib.Data.List.TakeWhile
import RaisingEffects.Number.Numeral
import RaisingEffects.Token.Lexer

/-!
# Words and how they are spelled

A `Word` is a token without its place. Words that are written one after the other, with a space
after each, are read back as they are (`Token.readFrom_spell`): every lexeme is as long as the
characters allow, and a space belongs to none.

Two kinds of words cannot be written: names that are no names, and numbers with more digits than
an integer may have. A number with a point has no spelling here. `Word.isSpelled` leaves these out.
-/

namespace RaisingEffects

variable {c : Char} {rest : List Char} {n : Nat}

/-- A token without its place. -/
inductive Word where
  | keyword (word : Keyword)
  | sign (sign : Sign)
  | name (text : String)
  | number (value : Nat)
  | decimal (value : Decimal)
  | text (value : String)
deriving DecidableEq

/-- Whether a text is a name: a word, and not a reserved one. -/
def isName (s : String) : Bool :=
  match s.toList with
  | [] => false
  | c :: cs => isWordStart c && cs.all isWordPart && (Keyword.ofText? s).isNone

def escape : Char → List Char
  | '\\' => ['\\', '\\']
  | '"' => ['\\', '"']
  | '\n' => ['\\', 'n']
  | '\t' => ['\\', 't']
  | c => [c]

namespace Word

def kind : Word → TokenKind
  | keyword k => .keyword k
  | sign s => .symbol s
  | name _ => .ident
  | number _ => .int
  | decimal _ => .float
  | text _ => .string

def value : Word → String
  | keyword k => k.text
  | sign s => s.text
  | name t => t
  | number n => toString n
  | decimal _ => ""
  | text v => v

def chars : Word → List Char
  | text v => '"' :: (v.toList.flatMap escape ++ ['"'])
  | w => w.value.toList

/-- Whether a word is read back as it is written. -/
def isSpelled : Word → Bool
  | name t => isName t
  | number n => (toString n).length ≤ Numeral.maxDigits
  | decimal _ => false
  | _ => true

/-- Words one after the other, with a space after each. -/
def spell : List Word → List Char
  | [] => []
  | w :: ws => w.chars ++ ' ' :: spell ws

end Word

/-! ## Characters -/

namespace CharClass

/-- Where runs that start at `a` end. -/
def turns (a : Nat) : List Nat → List Nat
  | [] => []
  | r :: rs => (a + r) :: turns (a + r) rs

/-- Whether no character is in both classes. It is enough to look where membership changes. -/
def disjoint (k l : CharClass) : Bool :=
  (0 :: (turns 0 k.runs ++ turns 0 l.runs)).all fun t =>
    !(scan t false k.runs && scan t false l.runs)

theorem scan_congr {a m n : Nat} {rs : List Nat} (h : ∀ t ∈ turns a rs, n < t ↔ m < t)
    (hn : a ≤ n) (hm : a ≤ m) (inside : Bool) :
    scan (n - a) inside rs = scan (m - a) inside rs := by
  induction rs generalizing a inside with
  | nil => rfl
  | cons r rs ih =>
    have hr := h (a + r) (List.mem_cons_self ..)
    by_cases hlt : n < a + r
    · rw [scan, scan, if_pos (by omega), if_pos (by omega)]
    · rw [scan, scan, if_neg (by omega), if_neg (by omega), Nat.sub_sub, Nat.sub_sub]
      exact ih (fun t ht => h t (List.mem_cons_of_mem _ ht)) (by omega) (by omega) _

/-- The last change up to a code point. -/
theorem exists_last (n : Nat) (ts : List Nat) :
    ∃ m ∈ 0 :: ts, m ≤ n ∧ ∀ t ∈ ts, t ≤ n → t ≤ m := by
  induction ts with
  | nil => exact ⟨0, by simp⟩
  | cons t ts ih =>
    obtain ⟨m, hm, hle, hlast⟩ := ih
    by_cases ht : t ≤ n ∧ m ≤ t
    · refine ⟨t, by simp, ht.1, fun u hu hun => ?_⟩
      rcases List.mem_cons.1 hu with rfl | hu
      · exact Nat.le_refl _
      · exact Nat.le_trans (hlast u hu hun) ht.2
    · refine ⟨m, ?_, hle, fun u hu hun => ?_⟩
      · rcases List.mem_cons.1 hm with rfl | hm
        · simp
        · simp [hm]
      · rcases List.mem_cons.1 hu with rfl | hu
        · omega
        · exact hlast u hu hun

theorem not_has_of_disjoint {k l : CharClass} (h : k.disjoint l = true) (hk : k.has c = true) :
    l.has c = false := by
  obtain ⟨m, hmem, hle, hlast⟩ := exists_last c.toNat (turns 0 k.runs ++ turns 0 l.runs)
  have hsame (t : Nat) (ht : t ∈ turns 0 k.runs ++ turns 0 l.runs) : c.toNat < t ↔ m < t := by
    have := hlast t ht
    omega
  have hm := List.all_eq_true.1 h m hmem
  have hk' := scan_congr (fun t ht => hsame t (List.mem_append_left _ ht)) (Nat.zero_le _)
    (Nat.zero_le _) false
  have hl' := scan_congr (fun t ht => hsame t (List.mem_append_right _ ht)) (Nat.zero_le _)
    (Nat.zero_le _) false
  simp only [Nat.sub_zero] at hk' hl'
  rw [has, hk'] at hk
  rw [has, hl']
  simpa [hk] using hm

end CharClass

theorem isBlank_of_isWordStart (h : isWordStart c = true) : isBlank c = false := by
  have hdisjoint : blanks.disjoint letters = true := by decide +kernel
  rw [Bool.eq_false_iff]
  intro hblank
  rw [isWordStart, isLetter, CharClass.not_has_of_disjoint hdisjoint hblank, Bool.false_or,
    beq_iff_eq] at h
  rw [h] at hblank
  exact absurd hblank (by decide)

theorem isBlank_of_isDigit (h : isDigit c = true) : isBlank c = false := by
  have hdisjoint : blanks.disjoint digits = true := by decide +kernel
  rw [Bool.eq_false_iff]
  intro hblank
  rw [isDigit, CharClass.not_has_of_disjoint hdisjoint hblank] at h
  cases h

theorem ne_note_of_isDigit (h : isDigit c = true) : c ≠ '#' := by
  rintro rfl
  exact absurd h (by decide)

/-! ## Lexemes in front of a space -/

/-- Nothing or a space comes next, so a lexeme in front of it cannot go on. -/
def Apart (rest : List Char) : Prop := ∀ c ∈ rest.head?, c = ' '

theorem Apart.nil : Apart [] := by simp [Apart]

theorem Apart.space (rest : List Char) : Apart (' ' :: rest) := by simp [Apart]

theorem Apart.cases (h : Apart rest) : rest = [] ∨ ∃ cs, rest = ' ' :: cs := by
  cases rest with
  | nil => exact .inl rfl
  | cons c cs => exact .inr ⟨cs, by rw [h c rfl]⟩

section Lexemes

variable {c : Char} {cs rest : List Char}

section Classes

variable {p : Char → Bool} (hcs : cs.all p = true) (hspace : p ' ' = false) (hrest : Apart rest)

include hcs hspace hrest

theorem takeWhile_apart : (cs ++ rest).takeWhile p = cs := by
  rw [List.takeWhile_append_of_pos (List.all_eq_true.1 hcs)]
  rcases hrest.cases with rfl | ⟨cs', rfl⟩
  · simp
  · simp [hspace]

theorem dropWhile_apart : (cs ++ rest).dropWhile p = rest := by
  rw [List.dropWhile_append_of_pos (List.all_eq_true.1 hcs)]
  rcases hrest.cases with rfl | ⟨cs', rfl⟩
  · rfl
  · simp [hspace]

end Classes

theorem Lexeme.read_word (hc : isWordStart c = true) (hcs : cs.all isWordPart = true)
    (hrest : Apart rest) :
    Lexeme.read c (cs ++ rest) = .ok ⟨Lexeme.wordKind (c :: cs), c :: cs, c :: cs, rest⟩ := by
  rw [Lexeme.read, if_pos hc, Lexeme.word, takeWhile_apart hcs (by decide) hrest,
    dropWhile_apart hcs (by decide) hrest]

theorem Lexeme.read_number (hc : isWordStart c = false) (hd : isDigit c = true)
    (hcs : cs.all isDigit = true) (hrest : Apart rest) :
    Lexeme.read c (cs ++ rest) = .ok ⟨.int, c :: cs, c :: cs, rest⟩ := by
  rw [Lexeme.read, if_neg (by rw [hc]; simp), if_pos hd, Lexeme.number,
    takeWhile_apart hcs (by decide) hrest, dropWhile_apart hcs (by decide) hrest]
  rcases hrest.cases with rfl | ⟨cs', rfl⟩ <;> rfl

theorem Lexeme.quotedTail_escape (c : Char) (cs : List Char) :
    Lexeme.quotedTail (escape c ++ cs) =
      (Lexeme.quotedTail cs).map fun t => (c :: t.1, escape c ++ t.2.1, t.2.2) := by
  unfold escape
  split
  · rfl
  · rfl
  · rfl
  · rfl
  · rename_i hslash hquote _ _
    rw [List.singleton_append, Lexeme.quotedTail]
    · rfl
    · exact fun h => hquote h
    · exact fun d rest h => absurd h hslash

theorem Lexeme.quotedTail_flatMap (v rest : List Char) :
    Lexeme.quotedTail (v.flatMap escape ++ '"' :: rest) =
      some (v, v.flatMap escape ++ ['"'], rest) := by
  induction v with
  | nil => rfl
  | cons c v ih =>
    rw [List.flatMap_cons, List.append_assoc, Lexeme.quotedTail_escape, ih, Option.map_some,
      List.append_assoc]

theorem Lexeme.read_quoted (v rest : List Char) :
    Lexeme.read '"' (v.flatMap escape ++ ['"'] ++ rest) =
      .ok ⟨.string, v, '"' :: (v.flatMap escape ++ ['"']), rest⟩ := by
  rw [Lexeme.read, if_neg (by decide), if_neg (by decide), if_pos rfl, Lexeme.quoted,
    List.append_assoc, List.singleton_append, Lexeme.quotedTail_flatMap]

theorem Lexeme.read_sign (s : Sign) (hrest : Apart rest) :
    ∃ c cs, s.text.toList = c :: cs ∧ isBlank c = false ∧ c ≠ '#' ∧
      Lexeme.read c (cs ++ rest) = .ok ⟨.symbol s, c :: cs, c :: cs, rest⟩ := by
  rcases hrest.cases with rfl | ⟨cs', rfl⟩ <;>
    cases s <;> exact ⟨_, _, rfl, rfl, by decide, rfl⟩

end Lexemes

/-! ## Numbers -/

section Digits

variable (h : c ∈ Nat.toDigits 10 n)

include h

theorem toNat_of_mem_toDigits : 48 ≤ c.toNat ∧ c.toNat ≤ 57 := by
  have hdigit := Nat.isDigit_of_mem_toDigits (by decide) (by decide) h
  rw [Char.isDigit, Bool.and_eq_true, decide_eq_true_eq, decide_eq_true_eq] at hdigit
  exact hdigit

theorem isDigit_of_mem_toDigits : isDigit c = true := by
  obtain ⟨hlow, hhigh⟩ := toNat_of_mem_toDigits h
  rw [isDigit, CharClass.has, digits, CharClass.scan, if_neg (by omega), CharClass.scan,
    if_pos (by omega)]
  rfl

theorem isWordStart_of_mem_toDigits : isWordStart c = false := by
  obtain ⟨-, hhigh⟩ := toNat_of_mem_toDigits h
  have hline : c ≠ '_' := by
    rintro rfl
    exact absurd hhigh (by decide)
  rw [isWordStart, isLetter, CharClass.has, letters, CharClass.scan, if_pos (by omega)]
  simpa using hline

theorem decimalValue?_of_mem_toDigits :
    decimalValue? c = some (c.toNat - '0'.toNat) := by
  obtain ⟨hlow, hhigh⟩ := toNat_of_mem_toDigits h
  rw [decimalValue?, zeros, decimalFrom, if_neg (by omega), if_pos (by omega)]
  rfl

end Digits

theorem Numeral.leading_toDigits (n : Nat) :
    Numeral.leading (Nat.toDigits 10 n) =
      ((Nat.toDigits 10 n).map fun c => c.toNat - '0'.toNat, []) := by
  have hall : ∀ c ∈ Nat.toDigits 10 n, Numeral.isDecimal c = true := by
    intro c hc
    rw [Numeral.isDecimal, decimalValue?_of_mem_toDigits hc]
    rfl
  have hvalues : (Nat.toDigits 10 n).filterMap decimalValue? =
      (Nat.toDigits 10 n).map fun c => c.toNat - '0'.toNat :=
    List.filterMap_eq_map_iff_forall_eq_some.2 fun c hc => decimalValue?_of_mem_toDigits hc
  rw [Numeral.leading, List.takeWhile_eq_self_iff.2 hall, List.dropWhile_eq_nil_iff.2 hall, hvalues]

/-- A number that is not too long is read back from its digits. -/
theorem Numeral.int_toString (h : (toString n).length ≤ Numeral.maxDigits) :
    Numeral.int (toString n) = .ok n := by
  rw [Nat.toString_eq_ofList_toDigits, String.length_ofList] at h
  rw [Nat.toString_eq_ofList_toDigits, Numeral.int, String.toList_ofList,
    Numeral.leading_toDigits]
  dsimp only
  rw [List.length_map, if_neg (by omega), if_pos List.isEmpty_nil, Numeral.value, List.foldl_map,
    ← Nat.ofDigitChars_eq_foldl, Nat.ofDigitChars_ten_toDigits]

/-! ## Reading words back -/

theorem Keyword.exists_chars (k : Keyword) :
    ∃ c cs, k.text.toList = c :: cs ∧ isWordStart c = true ∧ cs.all isWordPart = true ∧
      Lexeme.wordKind (c :: cs) = .keyword k := by
  cases k <;> exact ⟨_, _, rfl, by decide, by decide, by decide⟩

theorem exists_chars_of_isName {t : String} (h : isName t = true) :
    ∃ c cs, t.toList = c :: cs ∧ isWordStart c = true ∧ cs.all isWordPart = true ∧
      Lexeme.wordKind (c :: cs) = .ident := by
  rw [isName] at h
  split at h
  · cases h
  · rename_i c cs hchars
    simp only [Bool.and_eq_true, Option.isNone_iff_eq_none] at h
    refine ⟨c, cs, hchars, h.1.1, h.1.2, ?_⟩
    rw [Lexeme.wordKind, ← hchars, String.ofList_toList, h.2]

theorem Word.read_chars_of_word (w : Word) (hchars : w.chars = w.value.toList)
    (h : ∃ c cs, w.value.toList = c :: cs ∧ isWordStart c = true ∧ cs.all isWordPart = true ∧
      Lexeme.wordKind (c :: cs) = w.kind)
    (hrest : Apart rest) :
    ∃ c cs, w.chars = c :: cs ∧ isBlank c = false ∧ c ≠ '#' ∧
      Lexeme.read c (cs ++ rest) = .ok ⟨w.kind, w.value.toList, w.chars, rest⟩ := by
  obtain ⟨c, cs, hvalue, hc, hcs, hkind⟩ := h
  have hcomment : c ≠ '#' := by
    rintro rfl
    exact absurd hc (by decide)
  refine ⟨c, cs, hchars.trans hvalue, isBlank_of_isWordStart hc, hcomment, ?_⟩
  rw [Lexeme.read_word hc hcs hrest, hkind, hchars, hvalue]

/-- A word in front of a space or at the end is one lexeme. -/
theorem Word.read_chars {w : Word} (h : w.isSpelled = true) (hrest : Apart rest) :
    ∃ c cs, w.chars = c :: cs ∧ isBlank c = false ∧ c ≠ '#' ∧
      Lexeme.read c (cs ++ rest) = .ok ⟨w.kind, w.value.toList, w.chars, rest⟩ := by
  cases w with
  | keyword k => exact read_chars_of_word (.keyword k) rfl k.exists_chars hrest
  | name t => exact read_chars_of_word (.name t) rfl (exists_chars_of_isName h) hrest
  | decimal d => cases h
  | sign s =>
    obtain ⟨c, cs, htext, hblank, hcomment, hread⟩ := Lexeme.read_sign s hrest
    refine ⟨c, cs, htext, hblank, hcomment, ?_⟩
    rw [hread]
    simp only [chars, value, kind, htext]
  | text v =>
    refine ⟨'"', v.toList.flatMap escape ++ ['"'], rfl, by decide, by decide, ?_⟩
    rw [Lexeme.read_quoted]
    rfl
  | number n =>
    have hdigits : (toString n).toList = Nat.toDigits 10 n := by
      rw [Nat.toString_eq_ofList_toDigits, String.toList_ofList]
    obtain ⟨c, cs, hchars⟩ :=
      List.exists_cons_of_ne_nil (Nat.toDigits_ne_nil : Nat.toDigits 10 n ≠ [])
    have hmem : c ∈ Nat.toDigits 10 n := by simp [hchars]
    have hdigit := isDigit_of_mem_toDigits hmem
    have hcs : cs.all isDigit = true := by
      refine List.all_eq_true.2 fun d hd => isDigit_of_mem_toDigits (n := n) ?_
      simp [hchars, hd]
    refine ⟨c, cs, hdigits.trans hchars, isBlank_of_isDigit hdigit, ne_note_of_isDigit hdigit, ?_⟩
    rw [Lexeme.read_number (isWordStart_of_mem_toDigits hmem) hdigit hcs hrest]
    simp only [chars, value, kind, hdigits, hchars]

/-- The tokens are the words, one for each, and the end mark. -/
def Spells : List Token → List Word → Prop
  | ts, [] => ∃ t, ts = [t] ∧ t.kind = .eof
  | ts, w :: ws => ∃ t rest, ts = t :: rest ∧ t.kind = w.kind ∧ t.value = w.value ∧ Spells rest ws

/-- **Words are read back as they are spelled.** -/
theorem Token.readFrom_spell {ws : List Word} (hws : ∀ w ∈ ws, w.isSpelled = true)
    (hn : (Word.spell ws).length ≤ n) (pos : Pos) :
    ∃ ts, Token.readFrom n pos (Word.spell ws) = .ok ts ∧ Spells ts ws := by
  induction ws generalizing n pos with
  | nil =>
    refine ⟨[Token.eofAt pos], ?_, _, rfl, rfl⟩
    rw [Word.spell, Token.readFrom]
  | cons w ws ih =>
    obtain ⟨hw, hws⟩ := List.forall_mem_cons.1 hws
    obtain ⟨c, cs, hchars, hblank, hcomment, hread⟩ := w.read_chars hw (.space (Word.spell ws))
    rw [Word.spell, hchars, List.cons_append] at hn ⊢
    simp only [List.length_cons, List.length_append] at hn
    -- one step for the word and one for the space after it
    obtain ⟨n, rfl⟩ : ∃ m, n = m + 2 := ⟨n - 2, by omega⟩
    obtain ⟨ts, hts, hspells⟩ := ih hws (n := n) (by omega) ((pos.after w.chars).advance ' ')
    refine ⟨Token.ofLexeme pos ⟨w.kind, w.value.toList, w.chars, ' ' :: Word.spell ws⟩ :: ts,
      ?_, ?_⟩
    · rw [Token.readFrom, hblank, if_neg (by simp), if_neg hcomment, hread]
      dsimp only
      rw [Token.readFrom, if_pos (by decide), hts]
      rfl
    · refine ⟨_, ts, rfl, rfl, ?_, hspells⟩
      rw [Token.ofLexeme, String.ofList_toList]

end RaisingEffects
