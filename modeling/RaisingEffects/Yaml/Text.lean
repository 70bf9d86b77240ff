import RaisingEffects.Yaml.Cursor
import RaisingEffects.Yaml.Scalar

/-!
# The texts of scalars

A scalar is plain, in single or double quotes, or a block of lines. Plain and quoted scalars may go
on over several lines: the end of a line is a blank then, and empty lines stand for ends of lines. A
block of lines keeps its ends of lines, or folds them in the same way.

* `plainRest`, `quotedRest` and `blockScalar` read the three kinds of texts.
-/

namespace RaisingEffects

namespace Yaml

/-! ## Plain scalars -/

def plainWord (flow : Bool) : List Char → List Char
  | [] => []
  | c :: cs =>
    let ends := c == ':' && (gapAhead cs || flow && cs.head?.any (flowIndicators.contains ·))
    if isGap c || ends || flow && flowEnds.contains c then [] else c :: plainWord flow cs

/-- The ends of further lines after the first one, up to a separator or the next word. The flag
tells that a separator follows. -/
def blankLines : Nat → Cursor → List Char × Bool × Cursor
  | 0, p => ([], false, p)
  | n + 1, p =>
    let p := p.skipWhile (· == ' ')
    match p.lineEnd? with
    | none => ([], false, p)
    | some (c, p) =>
      if separatorAhead p.rest then ([], true, p)
      else
        let (cs, stop, p) := blankLines n p
        (c :: cs, stop, p)

/-- The text that the end of a line and the ends of further lines stand for: one end is a blank. -/
def folded (c : Char) (more : List Char) : List Char :=
  if c != '\n' then c :: more else if more.isEmpty then [' '] else more

/-- What joins a word of a plain scalar to the next one: blanks, or the folded ends of lines. It is
empty if the scalar is over. The flag tells that a line has ended. -/
def plainJoint (p : Cursor) : List Char × Bool × Cursor :=
  let blanks := p.rest.takeWhile (· == ' ')
  let p := p.advance blanks.length
  match p.lineEnd? with
  | none => (blanks, false, p)
  | some (c, p) =>
    if separatorAhead p.rest then ([], true, p)
    else
      let (more, stop, p) := blankLines p.rest.length p
      (if stop then [] else folded c more, true, p)

/-- The rest of a plain scalar whose further lines are indented by at least `indent`, after the
joint with its first part. The flag tells that a line has ended after the last word. -/
def plainRest (flow : Bool) (indent : Int) :
    Nat → List Char → Bool → Cursor → List Char × Bool × Cursor
  | 0, _, ended, p => ([], ended, p)
  | n + 1, joint, ended, p =>
    let word := if p.rest.head? == some '#' then [] else plainWord flow p.rest
    if word.isEmpty then ([], ended, p)
    else
      let (next, ended, p) := plainJoint (p.advance word.length)
      if next.isEmpty || !flow && p.column < indent then (joint ++ word, ended, p)
      else
        let (cs, ended, p) := plainRest flow indent n next ended p
        (joint ++ word ++ cs, ended, p)

/-! ## Quoted scalars -/

/-- The ends of further lines inside quotes. A separator may not follow. -/
def quotedLines : Nat → Cursor → Except Fault (List Char × Cursor)
  | 0, _ => .error .malformed
  | n + 1, p => do
    if separatorAhead p.rest then .error .malformed
    else
      let p := p.skipWhile fun c => c == ' ' || c == '\t'
      match p.lineEnd? with
      | none => return ([], p)
      | some (c, p) =>
        let (cs, p) ← quotedLines n p
        return (c :: cs, p)

def escaped? (c : Char) : Option Char :=
  [('0', '\x00'), ('a', '\x07'), ('b', '\x08'), ('t', '\t'), ('\t', '\t'), ('n', '\n'),
    ('v', '\x0b'), ('f', '\x0c'), ('r', '\r'), ('e', '\x1b'), (' ', ' '), ('"', '"'),
    ('\\', '\\'), ('/', '/'), ('N', '\u0085'), ('_', '\u00a0'), ('L', '\u2028'),
    ('P', '\u2029')].lookup c

def escapeDigits? (c : Char) : Option Nat := [('x', 2), ('u', 4), ('U', 8)].lookup c

/-- An escape after its backslash: its text and the place after it. -/
def escape (p : Cursor) : Except Fault (List Char × Cursor) :=
  match p.rest with
  | [] => .error .malformed
  | c :: cs =>
    match escaped? c, escapeDigits? c, p.lineEnd? with
    | some d, _, _ => .ok ([d], p.next)
    | _, some n, _ =>
      let digits := cs.take n
      if digits.length = n ∧ digits.all fun d => (Scalar.digitValue? d).isSome then
        let code := Scalar.ofDigits 16 digits
        if code < 0x110000 then .ok ([Quoted.standIn code], p.advance (n + 1))
        else .error .noCharacter
      else .error .malformed
    | _, _, some (_, p) => quotedLines (p.rest.length + 1) p
    | _, _, _ => .error .malformed

/-- A scalar in quotes, after the opening quote. -/
def quotedRest (double : Bool) : Nat → Cursor → Except Fault (List Char × Cursor)
  | 0, _ => .error .malformed
  | n + 1, p =>
    let goOn (text : List Char) (p : Cursor) : Except Fault (List Char × Cursor) := do
      let (cs, p) ← quotedRest double n p
      return (text ++ cs, p)
    match p.rest with
    | [] => .error .malformed
    | c :: cs =>
      if !double && c == '\'' && cs.head? == some '\'' then goOn ['\''] (p.advance 2)
      else if c == (if double then '"' else '\'') then .ok ([], p.next)
      else if double && c == '\\' then do
        let (text, p) ← escape p.next
        goOn text p
      else if isGap c then do
        let blanks := p.rest.takeWhile fun c => c == ' ' || c == '\t'
        let p := p.advance blanks.length
        match p.lineEnd? with
        | none => goOn blanks p
        | some (c, p) =>
          let (more, p) ← quotedLines (p.rest.length + 1) p
          goOn (folded c more) p
      else goOn [c] p.next

/-! ## Blocks of lines -/

/-- The rest of a line that has nothing on it but a comment, and the place after it. -/
def emptyLine (p : Cursor) : Except Fault Cursor :=
  let p := p.skipWhile (· == ' ')
  let p := if p.rest.head? == some '#' then p.skipWhile (!isBreak ·) else p
  match p.lineEnd?, p.rest with
  | some (_, p), _ => .ok p
  | none, [] => .ok p
  | none, _ => .error .malformed

structure BlockHeader where
  /-- Whether the ends of lines at the end are kept or dropped. Without a word on it one is kept. -/
  keep : Option Bool := none
  /-- By how much the lines are indented more than what they are part of. -/
  indent : Option Nat := none

namespace BlockHeader

/-- The sign that says what becomes of the ends of lines at the end. -/
def sign? (cs : List Char) : Option Bool × List Char :=
  match cs with
  | '+' :: cs => (some true, cs)
  | '-' :: cs => (some false, cs)
  | cs => (none, cs)

/-- The digit that says how deep lines are indented. -/
def digit? (cs : List Char) : Option Nat × List Char :=
  match cs with
  | c :: rest => if Scalar.isDigit c then (Scalar.digitValue? c, rest) else (none, cs)
  | [] => (none, [])

/-- Reads a header: a sign and a digit in either order. The rest of its line is empty. -/
def read (p : Cursor) : Except Fault (BlockHeader × Cursor) := do
  let (before, cs) := sign? p.rest
  let (indent, cs) := digit? cs
  let (keep, cs) := if before.isSome then (before, cs) else sign? cs
  if indent = some 0 || !blankAhead cs then .error .malformed
  else return ({ keep, indent }, ← emptyLine (p.advance (p.rest.length - cs.length)))

end BlockHeader

/-- The ends of the empty lines up to the first line that is not empty, the deepest indentation
among all of these, and the place after it. -/
def blockIndent : Nat → Cursor → List Char × Nat × Cursor
  | 0, p => ([], 0, p)
  | n + 1, p =>
    let p := p.skipWhile (· == ' ')
    match p.lineEnd? with
    | none => ([], p.column, p)
    | some (c, q) =>
      let (cs, deepest, q) := blockIndent n q
      (c :: cs, max p.column deepest, q)

/-- The ends of empty lines, and the place up to `indent` blanks into the line after them. -/
def blockBreaks (indent : Nat) : Nat → Cursor → List Char × Cursor
  | 0, p => ([], p)
  | n + 1, p =>
    let p := p.advance (min (indent - p.column) (p.rest.takeWhile (· == ' ')).length)
    match p.lineEnd? with
    | none => ([], p)
    | some (c, p) =>
      let (cs, p) := blockBreaks indent n p
      (c :: cs, p)

/-- The lines of a block after some ends of lines: their text, the end of the last line, and the
ends of empty lines after it. -/
def blockLines (folds : Bool) (indent : Nat) :
    Nat → List Char → Cursor → List Char × List Char × List Char × Cursor
  | 0, breaks, p => ([], [], breaks, p)
  | n + 1, breaks, p =>
    if p.column ≠ indent || p.rest.isEmpty then ([], [], breaks, p)
    else
      let line := p.rest.takeWhile (!isBreak ·)
      let p := p.advance line.length
      let (ending, p) : List Char × Cursor := match p.lineEnd? with
        | some (c, p) => ([c], p)
        | none => ([], p)
      let (more, p) := blockBreaks indent p.rest.length p
      if p.column = indent && !p.rest.isEmpty then
        let startsBlank (cs : List Char) : Bool := cs.head?.any fun c => c == ' ' || c == '\t'
        let joint :=
          if folds && ending = ['\n'] && !startsBlank line && !startsBlank p.rest then
            if more.isEmpty then [' '] else []
          else ending
        let (text, last, after, p) := blockLines folds indent n more p
        (breaks ++ line ++ joint ++ text, last, after, p)
      else (breaks ++ line, ending, more, p)

/-- A block of lines inside something that is indented by `outer`, after its first character. -/
def blockScalar (folds : Bool) (outer : Int) (p : Cursor) : Except Fault (List Char × Cursor) := do
  let (header, p) ← BlockHeader.read p
  let least := (max 1 (outer + 1)).toNat
  let (breaks, indent, p) := match header.indent with
    | some n =>
      let indent := least + n - 1
      let (breaks, p) := blockBreaks indent (p.rest.length + 1) p
      (breaks, indent, p)
    | none =>
      let (breaks, deepest, p) := blockIndent (p.rest.length + 1) p
      (breaks, max least deepest, p)
  let (text, last, after, p) := blockLines folds indent (p.rest.length + 1) breaks p
  let tail := match header.keep with
    | none => last
    | some false => []
    | some true => last ++ after
  return (text ++ tail, p)

end Yaml

end RaisingEffects
