import RaisingEffects.Logging.Layout

/-!
# Formats of records

A format is a text with fields of a record in it. Fields are written after percent signs
(`%(levelname)-8s`), in braces, or after dollar signs (`$levelname`). Each of the three marks is
doubled to stand for itself.

* `Style.pieces?` reads a format.
* `Formatter.line?` writes a record in a format.
-/

namespace RaisingEffects

namespace Logging

inductive Style where
  | percent
  | brace
  | dollar
deriving DecidableEq, Repr

inductive Piece where
  | char (c : Char)
  | percent (name : String) (layout : PercentLayout)
  /-- A field in braces: its name, the numbers that lead to one of its elements, the way in which it
  is made a text first, and the text of its layout, which may have fields in it. -/
  | brace (name : String) (elements : List Nat) (conversion : Option Char) (layout : List Char)
  | dollar (name : String)
deriving DecidableEq, Repr

namespace Style

/-- Splits off what stands in front of a character, and the character. -/
def before? (c : Char) (cs : List Char) : Option (List Char × List Char) :=
  match cs.dropWhile (· != c) with
  | [] => none
  | _ :: rest => some (cs.takeWhile (· != c), rest)

/-! ## Percent signs -/

def plainNumber (cs : List Char) : Option Nat × List Char :=
  match cs.takeWhile Char.isDigit with
  | [] => (none, cs)
  | ds => (some (Nat.ofDigitChars 10 ds 0), cs.dropWhile Char.isDigit)

/-- Reads a layout and its conversion. -/
def percentLayout? (cs : List Char) : Option (PercentLayout × List Char) :=
  let isFlag (c : Char) : Bool := "-+ #0".toList.contains c
  let flags := cs.takeWhile isFlag
  let (width, cs) := plainNumber (cs.dropWhile isFlag)
  let (precision, cs) : Option Nat × List Char := match cs with
    | '.' :: cs =>
      let (precision, cs) := plainNumber cs
      (some (precision.getD 0), cs)
    | cs => (none, cs)
  let (_, cs) := BraceLayout.optional (fun c => "hlL".toList.contains c) cs
  match cs with
  | conversion :: cs => some ({ flags, width := width.getD 0, precision, conversion }, cs)
  | [] => none

def percentPiece? (cs : List Char) : Option (Piece × List Char) :=
  match cs with
  | '(' :: cs => do
    let (name, cs) ← before? ')' cs
    let (layout, cs) ← percentLayout? cs
    return (.percent (String.ofList name) layout, cs)
  | cs => do
    let (layout, cs) ← percentLayout? cs
    if layout.conversion = '%' then return (.char '%', cs) else none

/-! ## Braces -/

/-- The name of a field in braces, up to what ends it. Nothing ends it inside brackets. -/
def braceName (inBrackets : Bool) : List Char → List Char × List Char
  | c :: cs =>
    if !inBrackets && "\x7b\x7d:!".toList.contains c then ([], c :: cs)
    else
      let (name, rest) := braceName (if inBrackets then c != ']' else c == '[') cs
      (c :: name, rest)
  | [] => ([], [])

/-- What stands up to the brace that closes `depth` open ones. -/
def untilClosed (depth : Nat) : List Char → Option (List Char × List Char)
  | [] => none
  | '\x7b' :: cs => do
    let (inner, rest) ← untilClosed (depth + 1) cs
    return ('\x7b' :: inner, rest)
  | '\x7d' :: cs =>
    match depth with
    | 0 | 1 => some ([], cs)
    | d + 1 => do
      let (inner, rest) ← untilClosed d cs
      return ('\x7d' :: inner, rest)
  | c :: cs => do
    let (inner, rest) ← untilClosed depth cs
    return (c :: inner, rest)

def elements? (name : List Char) : Option (List Char × List Nat) :=
  match before? '[' name with
  | none => some (name, [])
  | some (base, rest) => do
    let numbers ← (rest.splitOn '[').mapM fun part =>
      match BraceLayout.number part with
      | (some n, [']']) => some n
      | _ => none
    return (base, numbers)

def bracePiece? (cs : List Char) : Option (Piece × List Char) := do
  let (name, cs) := braceName false cs
  let (name, elements) ← elements? name
  let name := String.ofList name
  match cs with
  | '\x7d' :: cs => return (.brace name elements none [], cs)
  | ':' :: cs => do
    let (layout, cs) ← untilClosed 1 cs
    return (.brace name elements none layout, cs)
  | '!' :: c :: '\x7d' :: cs => return (.brace name elements (some c) [], cs)
  | '!' :: c :: ':' :: cs => do
    let (layout, cs) ← untilClosed 1 cs
    return (.brace name elements (some c) layout, cs)
  | _ => none

/-! ## Dollar signs -/

def startsName (c : Char) : Bool := c.isAlpha || c == '_'

def dollarPiece? (cs : List Char) : Option (Piece × List Char) :=
  let isPart (c : Char) : Bool := startsName c || c.isDigit
  match cs with
  | '\x7b' :: c :: cs => do
    let (rest, cs) ← before? '\x7d' cs
    guard (startsName c && rest.all isPart)
    return (.dollar (String.ofList (c :: rest)), cs)
  | c :: cs =>
    if startsName c then
      some (.dollar (String.ofList (c :: cs.takeWhile isPart)), cs.dropWhile isPart)
    else none
  | [] => none

/-! ## Formats -/

/-- Reads the pieces of a format, which has at most `n` characters. -/
def readPieces? (style : Style) : Nat → List Char → Option (List Piece)
  | 0, cs => if cs.isEmpty then some [] else none
  | _, [] => some []
  | n + 1, c :: cs => do
    let (piece, rest) ← match style, c, cs with
      | .percent, '%', cs => percentPiece? cs
      | .brace, '\x7b', '\x7b' :: cs => some (.char '\x7b', cs)
      | .brace, '\x7d', '\x7d' :: cs => some (.char '\x7d', cs)
      | .brace, '\x7d', _ => none
      | .brace, '\x7b', cs => bracePiece? cs
      | .dollar, '$', '$' :: cs => some (.char '$', cs)
      | .dollar, '$', cs => dollarPiece? cs
      | _, c, cs => some (.char c, cs)
    let pieces ← readPieces? style n rest
    return piece :: pieces

def pieces? (style : Style) (format : List Char) : Option (List Piece) :=
  style.readPieces? format.length format

def messageOnly : Style → List Char
  | percent => "%(message)s".toList
  | brace => "\x7bmessage\x7d".toList
  | dollar => "$message".toList

end Style

structure Formatter where
  style : Style := .percent
  /-- The format; without one only the message is written. -/
  format : String := ""
  time : Option String := none
  extra : List (String × Field) := []
deriving DecidableEq, Repr

namespace Formatter

/-- The text for the time of a record in which only doubled percent signs stand for something. -/
def timeText? : List Char → Option (List Char)
  | '%' :: '%' :: cs => (timeText? cs).map ('%' :: ·)
  | '%' :: _ => none
  | c :: cs => (timeText? cs).map (c :: ·)
  | [] => some []

/-- The value of a field. The time is only known if its text does not depend on it. -/
def field? (f : Formatter) (r : Record) (name : String) : Option Field :=
  if name = "asctime" then
    ((f.time.filter (!·.isEmpty)).bind fun s => timeText? s.toList).map fun cs =>
      .one (.text (String.ofList cs))
  else (r.field? name).or (f.extra.lookup name)

/-- A field in braces, before its layout. -/
def braceField? (f : Formatter) (r : Record) (name : String) (elements : List Nat)
    (conversion : Option Char) : Option Field := do
  let field ← elements.foldlM (fun field i => field.element? i) (← f.field? r name)
  match conversion with
  | none => some field
  | some c => (field.asText? c).map fun s => .one (.text s)

/-- Writes a piece. The layouts of fields in braces are taken as they are. -/
def piece? (f : Formatter) (r : Record) : Piece → Option (List Char)
  | .char c => some [c]
  | .percent name layout => do layout.write? (← f.field? r name)
  | .brace name elements conversion layout => do
    let field ← f.braceField? r name elements conversion
    (← BraceLayout.read? layout).write? field
  | .dollar name => (f.field? r name).map fun field => field.plain.toList

/-- A piece in which the layout has no fields any more. -/
def resolve? (f : Formatter) (r : Record) : Piece → Option Piece
  | .brace name elements conversion layout => do
    let inner ← (← Style.pieces? .brace layout).mapM (f.piece? r)
    return .brace name elements conversion inner.flatten
  | piece => some piece

def line? (f : Formatter) (r : Record) : Option String := do
  let format := if f.format.isEmpty then f.style.messageOnly else f.format.toList
  let pieces ← f.style.pieces? format
  let texts ← pieces.mapM fun p => (f.resolve? r p).bind (f.piece? r)
  return String.ofList texts.flatten

end Formatter

end Logging

end RaisingEffects
