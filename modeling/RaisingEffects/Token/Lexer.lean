import RaisingEffects.Text.Letter
import RaisingEffects.Text.Digit
import RaisingEffects.Token.Basic

/-!
# Reading tokens

A text is cut into lexemes, the longest that its characters allow, with blanks and comments
between them. Positions play no part in where a lexeme ends, so they are added afterwards.

* `Lexeme.read` reads the lexeme at the front of a text.
* `Token.readAll` reads a whole text, the end mark included.
-/

namespace RaisingEffects

inductive LexFault where
  | unterminated
  | unexpected (c : Char)
deriving DecidableEq, Repr

namespace LexFault

def message : LexFault → String
  | unterminated => "Unterminated string literal"
  | unexpected c => s!"Unexpected character '{c}'"

end LexFault

/-- A lexeme at the front of a text: its kind, the value it stands for, its characters and the
characters after it. -/
structure Lexeme where
  kind : TokenKind
  value : List Char
  chars : List Char
  rest : List Char
deriving DecidableEq, Repr

def isWordStart (c : Char) : Bool := isLetter c || c == '_'

def isWordPart (c : Char) : Bool := isLetter c || isNumeral c || c == '_'

namespace Lexeme

def wordKind (cs : List Char) : TokenKind :=
  match Keyword.ofText? (String.ofList cs) with
  | some k => .keyword k
  | none => .ident

def word (c : Char) (cs : List Char) : Lexeme :=
  let chars := c :: cs.takeWhile isWordPart
  ⟨wordKind chars, chars, chars, cs.dropWhile isWordPart⟩

/-- The number that starts with the digit `c`. A point belongs to it only if a digit follows. -/
def number (c : Char) (cs : List Char) : Lexeme :=
  let whole := c :: cs.takeWhile isDigit
  match cs.dropWhile isDigit with
  | '.' :: d :: rest =>
    if isDigit d then
      let chars := whole ++ '.' :: d :: rest.takeWhile isDigit
      ⟨.float, chars, chars, rest.dropWhile isDigit⟩
    else ⟨.int, whole, whole, '.' :: d :: rest⟩
  | rest => ⟨.int, whole, whole, rest⟩

def unescape : Char → Char
  | 'n' => '\n'
  | 't' => '\t'
  | c => c

/-- The text up to the closing quote: its value, its characters with the quote, and the rest. -/
def quotedTail : List Char → Option (List Char × List Char × List Char)
  | [] => none
  | '"' :: rest => some ([], ['"'], rest)
  | '\\' :: c :: rest =>
    (quotedTail rest).map fun (value, chars, rest) =>
      (unescape c :: value, '\\' :: c :: chars, rest)
  | c :: rest => (quotedTail rest).map fun (value, chars, rest) => (c :: value, c :: chars, rest)

def quoted (cs : List Char) : Except LexFault Lexeme :=
  match quotedTail cs with
  | some (value, chars, rest) => .ok ⟨.string, value, '"' :: chars, rest⟩
  | none => .error .unterminated

def sign (c : Char) (cs : List Char) : Except LexFault Lexeme :=
  let single : Except LexFault Lexeme :=
    match Sign.ofChar? c with
    | some s => .ok ⟨.symbol s, [c], [c], cs⟩
    | none => .error (.unexpected c)
  match cs with
  | d :: rest =>
    match Sign.ofPair? c d with
    | some s => .ok ⟨.symbol s, [c, d], [c, d], rest⟩
    | none => single
  | [] => single

/-- The lexeme that starts with `c`, which is neither blank nor the start of a comment. -/
def read (c : Char) (cs : List Char) : Except LexFault Lexeme :=
  if isWordStart c then .ok (word c cs)
  else if isDigit c then .ok (number c cs)
  else if c = '"' then quoted cs
  else sign c cs

end Lexeme

structure LexError where
  fault : LexFault
  pos : Pos
deriving DecidableEq, Repr

namespace Token

def ofLexeme (p : Pos) (l : Lexeme) : Token :=
  ⟨l.kind, String.ofList l.value, ⟨p, p.after l.chars⟩⟩

/-- The tokens of a text that starts at `p` and has at most `n` characters. -/
def readFrom : Nat → Pos → List Char → Except LexError (List Token)
  | _, p, [] => .ok [eofAt p]
  | 0, p, c :: _ => .error ⟨.unexpected c, p⟩
  | n + 1, p, c :: cs =>
    if isBlank c then readFrom n (p.advance c) cs
    else if c = '#' then
      readFrom n (p.after (c :: cs.takeWhile (· != '\n'))) (cs.dropWhile (· != '\n'))
    else
      match Lexeme.read c cs with
      | .error fault => .error ⟨fault, p⟩
      | .ok l => do
        let ts ← readFrom n (p.after l.chars) l.rest
        return ofLexeme p l :: ts

def readAll (source : String) : Except LexError (List Token) :=
  let cs := source.toList
  readFrom cs.length .start cs

end Token

end RaisingEffects
