import RaisingEffects.Yaml.Tag
import RaisingEffects.Yaml.Text

/-!
# The marks of a document

A document is read as a list of marks: scalars, indicators such as `-` and `:`, brackets, names and
tags, and the starts and ends of blocks, which are told from the indentation.

A scalar or a bracket may turn out to start a key once a `:` follows it on the same line. So the
place of the last one that could be a key is remembered, and the mark of the key is put there
afterwards. A key *must* follow where a mapping goes on at its own indentation.

* `Mark.readAll` reads the marks of a text, up to where it can be read.
-/

namespace RaisingEffects

namespace Yaml

inductive Shape where
  | sequence
  | mapping
deriving DecidableEq, Repr

inductive Mark where
  | directive (d : Directive)
  | documentStart
  | documentEnd
  /-- A block starts: what follows is indented more. -/
  | blockStart (shape : Shape)
  | blockEnd
  | openBracket (shape : Shape)
  | closeBracket (shape : Shape)
  | entry
  | comma
  | key
  | value
  | scalar (text : String) (plain : Bool)
  | anchor (name : String)
  /-- The node with a name, again. -/
  | reuse (name : String)
  | tag (t : Tag)
  | broken (fault : Fault)
deriving DecidableEq, Repr

/-! ## Reading marks -/

/-- A mark that may turn out to start a key. -/
structure KeyPlace where
  before : Nat
  index : Nat
  line : Nat
  column : Nat
  required : Bool

structure Scan where
  cursor : Cursor
  /-- The marks, the last one first. -/
  marks : List Mark := []
  /-- The indentations of the open blocks, the innermost first. -/
  blocks : List Nat := []
  outerKey : Option KeyPlace := none
  /-- The possible key inside each open bracket, the innermost first. -/
  flowKeys : List (Option KeyPlace) := []
  keyAllowed : Bool := true

namespace Scan

def inFlow (s : Scan) : Bool := !s.flowKeys.isEmpty

/-- The indentation of the innermost block, -1 outside of all blocks. -/
def indent (s : Scan) : Int :=
  match s.blocks with
  | [] => -1
  | n :: _ => n

def add (s : Scan) (m : Mark) : Scan := { s with marks := m :: s.marks }

def insert (s : Scan) (before : Nat) (m : Mark) : Scan :=
  let after := s.marks.length - before
  { s with marks := s.marks.take after ++ m :: s.marks.drop after }

def currentKey (s : Scan) : Option KeyPlace :=
  match s.flowKeys with
  | [] => s.outerKey
  | k :: _ => k

def withKey (s : Scan) (k : Option KeyPlace) : Scan :=
  match s.flowKeys with
  | [] => { s with outerKey := k }
  | _ :: ks => { s with flowKeys := k :: ks }

/-- Forgets the possible key, which may not be a required one. -/
def dropKey (s : Scan) : Except Fault Scan :=
  if s.currentKey.any (·.required) then .error .malformed else .ok (s.withKey none)

def offerKey (s : Scan) : Except Fault Scan :=
  if s.keyAllowed then do
    let p := s.cursor
    let s ← s.dropKey
    return s.withKey (some
      { before := s.marks.length, index := p.index, line := p.line, column := p.column
        required := !s.inFlow && s.indent = p.column })
  else return s

/-- Whether a possible key is too far from here: on another line or more than 1024 characters
before. -/
def isStale (p : Cursor) (k : KeyPlace) : Bool := k.line != p.line || k.index + 1024 < p.index

/-- Forgets the possible keys that are too far from here. -/
def dropStale (s : Scan) : Except Fault Scan :=
  let stale := isStale s.cursor
  if s.outerKey.any fun k => stale k && k.required then .error .malformed
  else
    .ok { s with
      outerKey := s.outerKey.filter (!stale ·)
      flowKeys := s.flowKeys.map (·.filter (!stale ·)) }

/-- Ends the blocks that are indented by more than `column`, outside of brackets. -/
def endBlocks (s : Scan) (column : Int) : Scan :=
  if s.inFlow then s
  else
    let ended := s.blocks.takeWhile fun (n : Nat) => column < n
    { s with
      blocks := s.blocks.drop ended.length
      marks := List.replicate ended.length .blockEnd ++ s.marks }

/-- Starts a block at a column if that is deeper, with its mark after the given number of marks. -/
def startBlock (s : Scan) (shape : Shape) (column before : Nat) : Scan :=
  if s.indent < column then
    { s.insert before (.blockStart shape) with blocks := column :: s.blocks }
  else s

def take (s : Scan) (m : Mark) (length : Nat) : Scan :=
  { s.add m with cursor := s.cursor.advance length }

def separator (s : Scan) (m : Mark) : Except Fault Scan := do
  let s ← (s.endBlocks (-1)).dropKey
  return { s.take m 3 with keyAllowed := false }

def openBracket (s : Scan) (shape : Shape) : Except Fault Scan := do
  let s ← s.offerKey
  return { s.take (.openBracket shape) 1 with flowKeys := none :: s.flowKeys, keyAllowed := true }

def closeBracket (s : Scan) (shape : Shape) : Except Fault Scan :=
  match s.flowKeys with
  | [] => .error .malformed
  | _ :: ks => .ok { s.take (.closeBracket shape) 1 with flowKeys := ks, keyAllowed := false }

def comma (s : Scan) : Except Fault Scan := do
  let s ← s.dropKey
  return { s.take .comma 1 with keyAllowed := true }

def entry (s : Scan) : Except Fault Scan := do
  if s.inFlow || !s.keyAllowed then .error .malformed
  else
    let s ← (s.startBlock .sequence s.cursor.column s.marks.length).dropKey
    return { s.take .entry 1 with keyAllowed := true }

def explicitKey (s : Scan) : Except Fault Scan := do
  let block := !s.inFlow
  if block && !s.keyAllowed then .error .malformed
  else
    let s := if block then s.startBlock .mapping s.cursor.column s.marks.length else s
    let s ← s.dropKey
    return { s.take .key 1 with keyAllowed := block }

/-- The start of a value, which tells where its key has started. -/
def value (s : Scan) : Except Fault Scan :=
  let block := !s.inFlow
  match s.currentKey with
  | some k =>
    let s := (s.withKey none).insert k.before .key
    let s := if block then s.startBlock .mapping k.column k.before else s
    .ok { s.take .value 1 with keyAllowed := false }
  | none =>
    if block && !s.keyAllowed then .error .malformed
    else
      let s := if block then s.startBlock .mapping s.cursor.column s.marks.length else s
      .ok { s.take .value 1 with keyAllowed := block }

def quoted (s : Scan) (double : Bool) : Except Fault Scan := do
  let s ← s.offerKey
  let (text, cursor) ← quotedRest double (s.cursor.rest.length + 1) s.cursor.next
  return { s.add (.scalar (String.ofList text) false) with cursor, keyAllowed := false }

def plain (s : Scan) : Except Fault Scan := do
  let s ← s.offerKey
  let (text, keyAllowed, cursor) :=
    plainRest s.inFlow (s.indent + 1) (s.cursor.rest.length + 1) [] false s.cursor
  return { s.add (.scalar (String.ofList text) true) with cursor, keyAllowed }

def block (s : Scan) (folds : Bool) : Except Fault Scan := do
  let s ← s.dropKey
  let (text, cursor) ← blockScalar folds s.indent s.cursor.next
  return { s.add (.scalar (String.ofList text) false) with cursor, keyAllowed := true }

def label (s : Scan) (read : Cursor → Except Fault (Mark × Cursor)) : Except Fault Scan := do
  let s ← s.offerKey
  let (mark, cursor) ← read s.cursor
  return { s.add mark with cursor, keyAllowed := false }

def directive (s : Scan) : Except Fault Scan := do
  let s ← (s.endBlocks (-1)).dropKey
  let (d, cursor) ← Directive.read s.cursor.next
  return { s.add (.directive d) with cursor := ← emptyLine cursor, keyAllowed := false }

def startsPlain (s : Scan) (c : Char) (cs : List Char) : Bool :=
  !isGap c && !indicators.contains c ||
    !gapAhead cs && (c == '-' || !s.inFlow && (c == '?' || c == ':'))

def mark (s : Scan) (c : Char) (cs : List Char) : Except Fault Scan :=
  let atMargin := s.cursor.column = 0
  let named (mark : String → Mark) (p : Cursor) : Except Fault (Mark × Cursor) := do
    let (name, p) ← readName p.next
    return (mark name, p)
  if c == '%' && atMargin then s.directive
  else if atMargin && separatorAhead (c :: cs) then
    s.separator (if c == '-' then .documentStart else .documentEnd)
  else if c == '[' then s.openBracket .sequence
  else if c == '\x7b' then s.openBracket .mapping
  else if c == ']' then s.closeBracket .sequence
  else if c == '\x7d' then s.closeBracket .mapping
  else if c == ',' then s.comma
  else if c == '-' && gapAhead cs then s.entry
  else if c == '?' && (s.inFlow || gapAhead cs) then s.explicitKey
  else if c == ':' && (s.inFlow || gapAhead cs) then s.value
  else if c == '*' then s.label (named .reuse)
  else if c == '&' then s.label (named .anchor)
  else if c == '!' then
    s.label fun p => do
      let (t, p) ← Tag.read p
      return (.tag t, p)
  else if c == '|' && !s.inFlow then s.block false
  else if c == '>' && !s.inFlow then s.block true
  else if c == '\'' then s.quoted false
  else if c == '"' then s.quoted true
  else if s.startsPlain c cs then s.plain
  else .error .malformed

/-- The next character, after the keys and blocks that are over before it; or the end. -/
def next (s : Scan) : Except Fault (Scan × Option (Char × List Char)) := do
  let (ended, cursor) := s.cursor.toMark s.cursor.rest.length
  let keyAllowed := s.keyAllowed || ended && !s.inFlow
  let s ← { s with cursor, keyAllowed }.dropStale
  match cursor.rest with
  | [] => return (← (s.endBlocks (-1)).dropKey, none)
  | c :: cs => return (s.endBlocks cursor.column, some (c, cs))

/-- The marks of what has been read up to a fault. -/
def upTo (s : Scan) (fault : Fault) : List Mark := (s.add (.broken fault)).marks.reverse

/-- Reads the marks up to the end. Every mark takes a character. -/
def toEnd : Nat → Scan → List Mark
  | 0, s => s.upTo .malformed
  | n + 1, s =>
    match s.next with
    | .error fault => s.upTo fault
    | .ok (s, none) => s.marks.reverse
    | .ok (s, some (c, cs)) =>
      match s.mark c cs with
      | .error fault => s.upTo fault
      | .ok s => toEnd n s

end Scan

/-- Reads the marks of a text. A byte-order mark may stand in front. -/
def Mark.readAll (text : String) : List Mark :=
  let cs := text.toList
  if cs.all isAllowed then
    let start : Cursor := { rest := cs }
    Scan.toEnd (cs.length + 1)
      { cursor := if cs.head? == some '\ufeff' then start.next else start }
  else [.broken .malformed]

end Yaml

end RaisingEffects
