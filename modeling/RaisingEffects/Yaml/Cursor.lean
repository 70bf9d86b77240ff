/-!
# Places in a document

A document is read character by character. Lines end in several ways, and a place knows its line and
its column, which tell how deep it is indented.

* `Cursor` is a place in a text.
* `Cursor.toMark` passes over blanks, comments and the ends of lines.
-/

namespace RaisingEffects

namespace Yaml

/-! ## Characters -/

def isBreak (c : Char) : Bool :=
  c == '\n' || c == '\r' || c == '\u0085' || c == '\u2028' || c == '\u2029'

def isGap (c : Char) : Bool := c == ' ' || c == '\t' || isBreak c

/-- Whether a text is over or goes on with a gap. -/
def gapAhead : List Char → Bool
  | [] => true
  | c :: _ => isGap c

/-- Whether a text is over or goes on with a blank or the end of a line. -/
def blankAhead : List Char → Bool
  | [] => true
  | c :: _ => c == ' ' || isBreak c

/-- Whether a text goes on with a line that separates documents. -/
def separatorAhead : List Char → Bool
  | '-' :: '-' :: '-' :: cs => gapAhead cs
  | '.' :: '.' :: '.' :: cs => gapAhead cs
  | _ => false

def isAllowed (c : Char) : Bool :=
  let n := c.toNat
  n == 0x9 || n == 0xa || n == 0xd || n == 0x85 || 0x20 ≤ n && n ≤ 0x7e ||
    0xa0 ≤ n && n ≤ 0xfffd || 0x10000 ≤ n

def indicators : List Char := "-?:,[]\x7b\x7d#&*!|>'\"%@`".toList

def flowEnds : List Char := ",?[]\x7b\x7d".toList

/-- The characters that end a key inside brackets after its colon. -/
def flowIndicators : List Char := ",[]\x7b\x7d".toList

/-- A place in a text: what is left of it, the number of characters before it, and its line and
column. -/
structure Cursor where
  rest : List Char
  index : Nat := 0
  line : Nat := 0
  column : Nat := 0

namespace Cursor

def next (p : Cursor) : Cursor :=
  match p.rest with
  | [] => p
  | c :: cs =>
    if isBreak c && !(c == '\r' && cs.head? == some '\n') then
      { rest := cs, index := p.index + 1, line := p.line + 1, column := 0 }
    else if c == '\ufeff' then { p with rest := cs, index := p.index + 1 }
    else { p with rest := cs, index := p.index + 1, column := p.column + 1 }

def advance (p : Cursor) : Nat → Cursor
  | 0 => p
  | n + 1 => p.next.advance n

def skipWhile (p : Cursor) (test : Char → Bool) : Cursor :=
  p.advance (p.rest.takeWhile test).length

/-- The end of the line here and the place after it. All but two kinds of ends count as the same
one. -/
def lineEnd? (p : Cursor) : Option (Char × Cursor) :=
  match p.rest with
  | '\r' :: '\n' :: _ => some ('\n', p.advance 2)
  | c :: _ =>
    if isBreak c then some (if c == '\u2028' || c == '\u2029' then c else '\n', p.next) else none
  | [] => none

/-- The place of the next mark, and whether a line has ended before it. -/
def toMark : Nat → Cursor → Bool × Cursor
  | 0, p => (false, p)
  | n + 1, p =>
    let p := p.skipWhile (· == ' ')
    let p := if p.rest.head? == some '#' then p.skipWhile (!isBreak ·) else p
    match p.lineEnd? with
    | some (_, p) => (true, (toMark n p).2)
    | none => (false, p)

end Cursor

end Yaml

end RaisingEffects
