/-!
# Places in a text

Lines and columns count characters from one, and only a line feed ends a line.

* `Pos.advance` and `Pos.after` move a position over the characters that are read.
* `Span` is the stretch from the start of the first character to the end of the last.
-/

namespace RaisingEffects

/-- A position in a text: a line and a column, both counted from one. -/
structure Pos where
  line : Nat
  column : Nat
deriving DecidableEq, Repr, Inhabited

namespace Pos

def start : Pos := ⟨1, 1⟩

def advance (p : Pos) (c : Char) : Pos :=
  if c = '\n' then ⟨p.line + 1, 1⟩ else ⟨p.line, p.column + 1⟩

def after (p : Pos) (cs : List Char) : Pos := cs.foldl advance p

/-- A position as it is written in front of a message. -/
def text (p : Pos) : String := s!"{p.line}:{p.column}"

end Pos

/-- A stretch of text, from where it starts to where the text after it starts. -/
structure Span where
  start : Pos
  stop : Pos
deriving DecidableEq, Repr, Inhabited

end RaisingEffects
