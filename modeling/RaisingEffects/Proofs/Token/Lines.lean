import RaisingEffects.Proofs.Parse.Moved
import RaisingEffects.Proofs.Token.Places

/-!
# Texts line by line

Reading tokens is local at line feeds. A lexeme ends in front of a line feed as it does at the end
of the text, unless it is a quoted text that goes on behind it (`Lexeme.read_line`), and behind a
line feed the columns start afresh. So two texts with a line feed between them have the tokens of
the first, without its end mark, and those of the second, further down (`Token.readAll_lines`).
-/

namespace RaisingEffects

/-! ## Lexemes in front of a line feed -/

section Classes

variable {p : Char → Bool} (hp : p '\n' = false) (cs ds : List Char)

include hp

theorem takeWhile_line : (cs ++ '\n' :: ds).takeWhile p = cs.takeWhile p := by
  induction cs with
  | nil => simp [hp]
  | cons c cs ih => rw [List.cons_append, List.takeWhile_cons, List.takeWhile_cons, ih]

theorem dropWhile_line : (cs ++ '\n' :: ds).dropWhile p = cs.dropWhile p ++ '\n' :: ds := by
  induction cs with
  | nil => simp [hp]
  | cons c cs ih =>
    rw [List.cons_append, List.dropWhile_cons, List.dropWhile_cons, ih]
    split <;> rfl

end Classes

namespace Lexeme

/-- The lexeme in front of another line. -/
def above (l : Lexeme) (ds : List Char) : Lexeme := { l with rest := l.rest ++ '\n' :: ds }

variable {c : Char} {cs : List Char} {l : Lexeme} (ds : List Char)

theorem word_line : word c (cs ++ '\n' :: ds) = (word c cs).above ds := by
  rw [word, takeWhile_line (by decide), dropWhile_line (by decide)]
  rfl

/-- A point at the end of a line belongs to no number. -/
theorem number_line : number c (cs ++ '\n' :: ds) = (number c cs).above ds := by
  unfold number
  rw [takeWhile_line (by decide), dropWhile_line (by decide)]
  rcases cs.dropWhile isDigit with _ | ⟨x, _ | ⟨d, rest⟩⟩
  · rfl
  · by_cases hx : x = '.'
    · subst hx
      exact if_neg (by decide)
    · simp [hx, above]
  · by_cases hx : x = '.'
    · subst hx
      cases hd : isDigit d with
      | true => simp [hd, above, takeWhile_line (p := isDigit) (by decide),
          dropWhile_line (p := isDigit) (by decide)]
      | false => simp [hd, above]
    · simp [hx, above]

theorem quoted_line (h : quoted cs = .ok l) : quoted (cs ++ '\n' :: ds) = .ok (l.above ds) := by
  unfold quoted at h ⊢
  split at h
  · rename_i value chars rest htail
    cases h
    obtain ⟨rfl, body, rfl, hbody⟩ := quotedTail_splits htail
    have hmore := quotedTail_of_quotes hbody (rest ++ '\n' :: ds)
    rw [List.append_assoc, List.append_assoc, List.singleton_append, hmore]
    rfl
  · cases h

theorem ofPair?_line (c : Char) : Sign.ofPair? c '\n' = none := by
  unfold Sign.ofPair?
  split <;> simp_all

theorem sign_line (h : sign c cs = .ok l) : sign c (cs ++ '\n' :: ds) = .ok (l.above ds) := by
  cases cs with
  | nil =>
    cases hc : Sign.ofChar? c with
    | none => simp [sign, hc] at h
    | some s =>
      obtain rfl : _ = l := by simpa [sign, hc] using h
      simp [sign, hc, ofPair?_line, above]
  | cons d cs =>
    cases hpair : Sign.ofPair? c d with
    | some s =>
      obtain rfl : _ = l := by simpa [sign, hpair] using h
      simp [sign, hpair, above]
    | none =>
      cases hc : Sign.ofChar? c with
      | none => simp [sign, hpair, hc] at h
      | some s =>
        obtain rfl : _ = l := by simpa [sign, hpair, hc] using h
        simp [sign, hpair, hc, above]

/-- **In front of a line feed a lexeme is read as at the end of the text.** -/
theorem read_line (h : read c cs = .ok l) : read c (cs ++ '\n' :: ds) = .ok (l.above ds) := by
  unfold read at h ⊢
  by_cases hword : isWordStart c = true
  · rw [if_pos hword] at h ⊢
    cases h
    rw [word_line]
  rw [if_neg hword] at h ⊢
  by_cases hdigit : isDigit c = true
  · rw [if_pos hdigit] at h ⊢
    cases h
    rw [number_line]
  rw [if_neg hdigit] at h ⊢
  split
  · rename_i hquote
    rw [if_pos hquote] at h
    exact quoted_line ds h
  · rename_i hquote
    rw [if_neg hquote] at h
    exact sign_line ds h

end Lexeme

/-! ## Further down -/

/-- The position as many lines further down. -/
def Pos.down (n : Nat) (p : Pos) : Pos := ⟨p.line + n, p.column⟩

theorem Pos.after_after (p : Pos) (cs ds : List Char) :
    (p.after cs).after ds = p.after (cs ++ ds) := (List.foldl_append ..).symm

theorem Pos.advance_down (n : Nat) (p : Pos) (c : Char) :
    (p.down n).advance c = (p.advance c).down n := by
  unfold Pos.advance
  split
  · exact congrArg (Pos.mk · 1) (Nat.add_right_comm ..)
  · rfl

theorem Pos.after_down (n : Nat) (p : Pos) (cs : List Char) :
    (p.down n).after cs = (p.after cs).down n := by
  induction cs generalizing p with
  | nil => rfl
  | cons c cs ih =>
    have hstep := ih (p.advance c)
    rw [← Pos.advance_down] at hstep
    exact hstep

namespace Token

variable {cs : List Char} {ts : List Token}

theorem Reads.down (k : Nat) {p : Pos} (h : Reads p cs ts) :
    Reads (p.down k) cs (ts.map (Token.move (Pos.down k))) := by
  induction h with
  | nil p => exact .nil _
  | blank hc _ ih => exact .blank hc (by rwa [Pos.advance_down])
  | comment _ ih => exact .comment (by rwa [Pos.after_down])
  | @lexeme p c cs l ts hblank hnote hread _ ih =>
    have hmoved : ofLexeme (p.down k) l = (ofLexeme p l).move (Pos.down k) := by
      rw [ofLexeme, Pos.after_down]
      rfl
    rw [List.map_cons, ← hmoved]
    exact .lexeme hblank hnote hread (by rwa [Pos.after_down])

/-- Behind a text that is read, a line feed and more are read on from where the text ends. -/
theorem Reads.line {p : Pos} (h : Reads p cs ts) :
    ∃ ws, ts = ws ++ [eofAt (p.after cs)] ∧ ∀ ds us,
      Reads ((p.after cs).advance '\n') ds us → Reads p (cs ++ '\n' :: ds) (ws ++ us) := by
  induction h with
  | nil p => exact ⟨[], rfl, fun ds us h => .blank (by decide) h⟩
  | blank hc _ ih =>
    obtain ⟨ws, rfl, hline⟩ := ih
    exact ⟨ws, rfl, fun ds us h => .blank hc (hline ds us h)⟩
  | @comment p cs ts _ ih =>
    obtain ⟨ws, rfl, hline⟩ := ih
    rw [Pos.after_after, List.cons_append, List.takeWhile_append_dropWhile] at hline ⊢
    refine ⟨ws, rfl, fun ds us h => ?_⟩
    rw [List.cons_append]
    refine .comment ?_
    rw [takeWhile_line (by decide), dropWhile_line (by decide)]
    exact hline ds us h
  | @lexeme p c cs l ts hblank hnote hread _ ih =>
    obtain ⟨ws, rfl, hline⟩ := ih
    rw [Pos.after_after, ← (Lexeme.read_splits hread).split] at hline ⊢
    refine ⟨ofLexeme p l :: ws, rfl, fun ds us h => ?_⟩
    exact Reads.lexeme (l := l.above ds) hblank hnote (Lexeme.read_line ds hread) (hline ds us h)

theorem Reads.readFrom {p : Pos} (h : Reads p cs ts) {n : Nat} (hn : cs.length ≤ n) :
    readFrom n p cs = .ok ts := by
  induction h generalizing n with
  | nil p => rw [Token.readFrom]
  | blank hc _ ih =>
    obtain ⟨n, rfl⟩ := Nat.exists_eq_add_of_le' (Nat.le_of_add_left_le hn)
    rw [Token.readFrom, if_pos hc, ih (Nat.le_of_succ_le_succ hn)]
  | comment _ ih =>
    obtain ⟨n, rfl⟩ := Nat.exists_eq_add_of_le' (Nat.le_of_add_left_le hn)
    rw [Token.readFrom, if_neg (by decide), if_pos rfl,
      ih ((List.dropWhile_sublist _).length_le.trans (Nat.le_of_succ_le_succ hn))]
  | lexeme hblank hnote hread _ ih =>
    obtain ⟨n, rfl⟩ := Nat.exists_eq_add_of_le' (Nat.le_of_add_left_le hn)
    rw [Token.readFrom, hblank, if_neg Bool.false_ne_true, if_neg hnote, hread]
    dsimp only
    rw [ih ((Lexeme.length_rest_le hread).trans (Nat.le_of_succ_le_succ hn))]
    rfl

/-- **Reading tokens is local at line feeds.** Two texts that can be read can be read with a line
feed between them. The tokens are those of the first text without its end mark, and those of the
second, as many lines further down as the first text has line feeds and one more. -/
theorem readAll_lines {a b : String} {ts us : List Token} (ha : readAll a = .ok ts)
    (hb : readAll b = .ok us) :
    ∃ ws stop, ts = ws ++ [eofAt stop] ∧ readAll (a ++ "\n" ++ b) =
      .ok (ws ++ us.map (Token.move (Pos.down (a.toList.count '\n' + 1)))) := by
  obtain ⟨ws, rfl, hline⟩ := (readAll_reads ha).line
  refine ⟨ws, _, rfl, Reads.readFrom ?_ (Nat.le_refl _)⟩
  have hstart : (Pos.start.after a.toList).advance '\n' =
      Pos.start.down (a.toList.count '\n' + 1) := by
    rw [show Pos.start = Pos.behind [] from rfl, Pos.after_behind, List.nil_append]
    exact congrArg (Pos.mk · 1) (Nat.add_comm ..)
  have htext : (a ++ "\n" ++ b).toList = a.toList ++ '\n' :: b.toList := by simp
  rw [htext]
  exact hline _ _ (hstart ▸ (readAll_reads hb).down _)

/-- A comment with a quote in it, a text over two lines, a point behind a number, and a bar that
ends a line in front of another. -/
theorem readAll_lines_bars :
    ∃ ws, readAll "# \"\n\"p\nq\" 1.|" = .ok (ws ++ [eofAt ⟨3, 7⟩]) ∧
      ws.map Token.kind = [.string, .int, .symbol .dot, .symbol .pipe] ∧
      readAll "|2.5" = .ok [⟨.symbol .pipe, "|", ⟨⟨1, 1⟩, ⟨1, 2⟩⟩⟩,
        ⟨.float, "2.5", ⟨⟨1, 2⟩, ⟨1, 5⟩⟩⟩, eofAt ⟨1, 5⟩] ∧
      readAll ("# \"\n\"p\nq\" 1.|" ++ "\n" ++ "|2.5") = .ok (ws ++
        [⟨.symbol .pipe, "|", ⟨⟨4, 1⟩, ⟨4, 2⟩⟩⟩, ⟨.float, "2.5", ⟨⟨4, 2⟩, ⟨4, 5⟩⟩⟩,
          eofAt ⟨4, 5⟩]) := by
  have hupper : readAll "# \"\n\"p\nq\" 1.|" = .ok ([⟨.string, "p\nq", ⟨⟨2, 1⟩, ⟨3, 3⟩⟩⟩,
      ⟨.int, "1", ⟨⟨3, 4⟩, ⟨3, 5⟩⟩⟩, ⟨.symbol .dot, ".", ⟨⟨3, 5⟩, ⟨3, 6⟩⟩⟩,
      ⟨.symbol .pipe, "|", ⟨⟨3, 6⟩, ⟨3, 7⟩⟩⟩] ++ [eofAt ⟨3, 7⟩]) := by decide +kernel
  have hlower : readAll "|2.5" = .ok [⟨.symbol .pipe, "|", ⟨⟨1, 1⟩, ⟨1, 2⟩⟩⟩,
      ⟨.float, "2.5", ⟨⟨1, 2⟩, ⟨1, 5⟩⟩⟩, eofAt ⟨1, 5⟩] := by decide +kernel
  obtain ⟨ws, stop, hws, hboth⟩ := readAll_lines hupper hlower
  obtain ⟨rfl, -⟩ := List.append_inj' hws rfl
  exact ⟨_, hupper, rfl, hlower, hboth⟩

end Token

end RaisingEffects
