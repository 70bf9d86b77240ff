import RaisingEffects.Yaml.Cursor
import RaisingEffects.Yaml.Scalar

/-!
# Names, tags and directives

A node may have a name, after `&`, under which it is used again, after `*`. A tag, after `!`, says
of what kind a node is. It is written in short: a handle stands for the start of the tag.
Directives, after `%`, say what handles stand for.

* `readName`, `Tag.read` and `Directive.read` read the three.
* `Tag.full` is a tag in full.
-/

namespace RaisingEffects

namespace Yaml

structure Tag where
  handle : Option String
  rest : String
deriving DecidableEq, Repr

inductive Directive where
  | version (major minor : Nat)
  | handle (name start : String)
  | other
deriving DecidableEq, Repr

def isNamePart (c : Char) : Bool := c.isAlphanum || c == '-' || c == '_'

def readName (p : Cursor) : Except Fault (String × Cursor) :=
  let name := p.rest.takeWhile isNamePart
  let p := p.advance name.length
  let ends := gapAhead p.rest || p.rest.head?.any ("?:,]\x7d%@`".toList.contains ·)
  if name.isEmpty || !ends then .error .malformed else .ok (String.ofList name, p)

def isTagPart (c : Char) : Bool := c.isAlphanum || "-;/?:@&=+$,_.!~*'()[]".toList.contains c

/-- The characters of a tag, some of which are written as codes after `%`, and what follows them. -/
def tagChars : List Char → Except Fault (List Char × List Char)
  | '%' :: a :: b :: cs =>
    match Scalar.digitValue? a, Scalar.digitValue? b with
    | some x, some y => do
      let (text, rest) ← tagChars cs
      return (Char.ofNat (16 * x + y) :: text, rest)
    | _, _ => .error .malformed
  | c :: cs =>
    if c == '%' then .error .malformed
    else if isTagPart c then do
      let (text, rest) ← tagChars cs
      return (c :: text, rest)
    else .ok ([], c :: cs)
  | [] => .ok ([], [])

/-- Reads the rest of a tag, or what a handle stands for. -/
def readTagText (p : Cursor) : Except Fault (String × Cursor) := do
  let (text, rest) ← tagChars p.rest
  if text.isEmpty then .error .malformed
  else return (String.ofList text, p.advance (p.rest.length - rest.length))

/-- Reads a handle: a name between two `!`, or `!` alone in front of a blank. -/
def readHandle (p : Cursor) : Except Fault (String × Cursor) :=
  match p.rest with
  | '!' :: ' ' :: _ => .ok ("!", p.next)
  | '!' :: cs =>
    let name := cs.takeWhile isNamePart
    if cs[name.length]? = some '!' then
      .ok ("!" ++ String.ofList name ++ "!", p.advance (name.length + 2))
    else .error .malformed
  | _ => .error .malformed

namespace Tag

/-- Reads a tag. A `!` alone is a tag, and a tag may stand in full between `!<` and `>`. -/
def read (p : Cursor) : Except Fault (Tag × Cursor) := do
  let cs := p.rest.drop 1
  let (tag, p) ←
    if cs.head? = some '<' then do
      let (rest, p) ← readTagText (p.advance 2)
      if p.rest.head? = some '>' then pure (⟨none, rest⟩, p.next) else .error .malformed
    else if gapAhead cs then pure (⟨none, "!"⟩, p.next)
    else if (cs.takeWhile fun c => c != ' ' && !isBreak c).contains '!' then do
      let (handle, p) ← readHandle p
      let (rest, p) ← readTagText p
      pure (⟨some handle, rest⟩, p)
    else do
      let (rest, p) ← readTagText p.next
      pure (⟨some "!", rest⟩, p)
  if blankAhead p.rest then return (tag, p) else .error .malformed

/-- The start of the tags of the kinds that every document has. -/
def common : String := "tag:yaml.org,2002:"

/-- What handles stand for if nothing is said about them. -/
def handles : List (String × String) := [("!", "!"), ("!!", common)]

def full (handles : List (String × String)) (t : Tag) : Except Fault String :=
  match t.handle with
  | none => .ok t.rest
  | some handle =>
    match handles.lookup handle with
    | some start => .ok (start ++ t.rest)
    | none => .error .malformed

end Tag

namespace Directive

def number (p : Cursor) : Except Fault (Nat × Cursor) :=
  let digits := p.rest.takeWhile Scalar.isDigit
  if digits.isEmpty then .error .malformed
  else .ok (Scalar.ofDigits 10 digits, p.advance digits.length)

/-- The place after a character that must follow. -/
def after (c : Char) (p : Cursor) : Except Fault Cursor :=
  if p.rest.head? = some c then .ok p.next else .error .malformed

def content (name : String) (p : Cursor) : Except Fault (Directive × Cursor) := do
  let start := p.skipWhile (· == ' ')
  if name = "YAML" then
    let (major, p) ← number start
    let (minor, p) ← number (← after '.' p)
    return (version major minor, p)
  else if name = "TAG" then
    let (name, p) ← readHandle start
    let (text, p) ← readTagText ((← after ' ' p).skipWhile (· == ' '))
    return (handle name text, p)
  else return (other, p.skipWhile (!isBreak ·))

def read (p : Cursor) : Except Fault (Directive × Cursor) := do
  let name := p.rest.takeWhile isNamePart
  let p := p.advance name.length
  if name.isEmpty || !blankAhead p.rest then .error .malformed
  else
    let (d, p) ← content (String.ofList name) p
    if blankAhead p.rest then return (d, p) else .error .malformed

/-- What handles stand for after directives. Each handle and the version are set once at most, and
the version is one of those from 1 up to 2. -/
def apply (ds : List Directive) : Except Fault (List (String × String)) := do
  let versions := ds.filterMap fun
    | version major _ => some major
    | _ => none
  let handles := ds.filterMap fun
    | handle name start => some (name, start)
    | _ => none
  let names := handles.map Prod.fst
  if 1 < versions.length || versions.any (· ≠ 1) || names.eraseDups.length < names.length then
    .error .malformed
  else return handles ++ Tag.handles

end Directive

end Yaml

end RaisingEffects
