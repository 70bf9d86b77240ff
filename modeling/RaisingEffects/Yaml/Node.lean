import RaisingEffects.Yaml.Mark

/-!
# Trees of documents

The marks of a text make a tree of scalars, sequences and mappings. A missing node is an empty plain
scalar. A node that has a name stands also where the name is used again, which can only be after the
node. The tag of a node tells how its text is read, or of what kind it is.

* `Node.ofMarks` is the tree of the one document in a list of marks.
-/

namespace RaisingEffects

namespace Yaml

inductive Reading where
  | plain
  | text
  | null
  | truth
  | integer
  | number
  | moment
  /-- The scalar is a key whose value is merged into the mapping. -/
  | merge
  /-- The scalar is the key of a default value. -/
  | default
deriving DecidableEq, Repr

inductive Node where
  | scalar (text : String) (reading : Reading)
  | sequence (items : List Node)
  /-- A mapping, which has a number of its own unless it is a pair in a sequence. -/
  | mapping (entries : List (Node × Node)) (number : Option Nat := none)
  /-- A node that is not of the kind that its tag says. -/
  | mistagged (node : Node)

namespace Node

def missing : Node := .scalar "" .plain

/-- The readings of scalars by the names of their kinds. -/
def readings : List (String × Reading) :=
  [("str", .text), ("null", .null), ("bool", .truth), ("int", .integer), ("float", .number),
    ("timestamp", .moment), ("merge", .merge), ("value", .default)]

/-- A node with a tag. The tag `!` says that the text of a scalar decides, even in quotes. -/
def tagged (tag : String) (node : Node) : Node :=
  let isOf (kind : String) : Bool := tag = Tag.common ++ kind
  match node with
  | .scalar text _ =>
    if tag = "!" then .scalar text .plain
    else
      match readings.find? fun r => isOf r.1 with
      | some (_, reading) => .scalar text reading
      | none => .mistagged node
  | .sequence _ => if tag = "!" || isOf "seq" then node else .mistagged node
  | .mapping .. => if tag = "!" || isOf "map" then node else .mistagged node
  | .mistagged _ => .mistagged node

def numbered (n : Nat) : Node → Node
  | .mapping entries _ => .mapping entries (some n)
  | node => node

end Node

/-! ## Marks that are left -/

/-- What is left of a document, and what has been said in it. -/
structure Source where
  marks : List Mark
  /-- The nodes with names. A name has no node while the node is being read. -/
  named : List (String × Option Node) := []
  handles : List (String × String) := Tag.handles

namespace Source

def at_ (s : Source) (ms : List Mark) : Source := { s with marks := ms }

def ahead (s : Source) (test : Mark → Bool) : Bool := s.marks.head?.any test

/-- The fault of the next mark, which cannot stand where it does. -/
def unexpected (s : Source) : Fault :=
  match s.marks with
  | .broken fault :: _ => fault
  | _ => .malformed

/-- A name and a tag in front of a node, in either order, and the marks after them. -/
def labels (s : Source) : Option String × Option Tag × List Mark :=
  match s.marks with
  | .anchor name :: .tag t :: ms | .tag t :: .anchor name :: ms => (some name, some t, ms)
  | .anchor name :: ms => (some name, none, ms)
  | .tag t :: ms => (none, some t, ms)
  | ms => (none, none, ms)

/-- Enters a name, which must be new, for a node that is being read. -/
def enter (s : Source) : Option String → Except Fault Source
  | none => .ok s
  | some name =>
    if (s.named.lookup name).isSome then .error .malformed
    else .ok { s with named := (name, none) :: s.named }

def give (s : Source) (name : Option String) (node : Node) : Source :=
  match name with
  | none => s
  | some name => { s with named := (name, some node) :: s.named }

/-- The source after a comma, which must be there unless the collection has just been opened. -/
def afterComma (s : Source) (first : Bool) : Except Fault Source :=
  match s.marks with
  | .comma :: ms => if first then .error .malformed else .ok (s.at_ ms)
  | _ => if first then .ok s else .error s.unexpected

end Source

/-! ## Reading nodes -/

namespace Node

/-- Whether a mark ends an entry of an indented block. -/
def endsBlockEntry : Mark → Bool
  | .key | .value | .blockEnd => true
  | _ => false

/-- Whether a mark ends an entry inside brackets. -/
def endsFlowEntry (shape : Shape) (m : Mark) : Bool :=
  m = .comma || m = .closeBracket shape

def isBroken : Mark → Bool
  | .broken _ => true
  | _ => false

/-- Whether a mark can be the first of a node without a name and a tag. -/
def startsContent (block loose : Bool) : Mark → Bool
  | .scalar .. | .openBracket _ => true
  | .blockStart _ => block
  | .entry => loose
  | _ => false

mutual

/-- Reads a node. Blocks are nodes only where `block` says so, and entries at the indentation of
the enclosing mapping only where `loose` does. -/
def read : Nat → (block loose : Bool) → Source → Except Fault (Node × Source)
  | 0, _, _, _ => .error .malformed
  | n + 1, block, loose, s =>
    match s.marks with
    | .reuse name :: ms =>
      match s.named.lookup name with
      | some (some node) => .ok (node, s.at_ ms)
      | _ => .error .malformed
    | _ => do
      let (name, tag, ms) := s.labels
      let tag ← tag.mapM (Tag.full s.handles)
      let s ← (s.at_ ms).enter name
      let goesOn := s.ahead fun m => startsContent block loose m || isBroken m
      let (node, s) ←
        if (name.isSome || tag.isSome) && !goesOn then .ok (missing, s)
        else content n block loose s
      let node := tag.elim node (tagged · node)
      -- The end of each mapping is a mark of its own.
      let node := node.numbered s.marks.length
      return (node, s.give name node)

def content : Nat → (block loose : Bool) → Source → Except Fault (Node × Source)
  | 0, _, _, _ => .error .malformed
  | n + 1, block, loose, s =>
    match s.marks with
    | .scalar text plain :: ms => .ok (.scalar text (if plain then .plain else .text), s.at_ ms)
    | .openBracket .sequence :: ms => do
      let (items, s) ← flowItems n true (s.at_ ms)
      return (.sequence items, s)
    | .openBracket .mapping :: ms => do
      let (entries, s) ← flowEntries n true (s.at_ ms)
      return (.mapping entries, s)
    | .blockStart .sequence :: ms => do
      if !block then .error .malformed
      else
        let (items, s) ← blockItems n (s.at_ ms)
        match s.marks with
        | .blockEnd :: ms => return (.sequence items, s.at_ ms)
        | _ => .error s.unexpected
    | .blockStart .mapping :: ms => do
      if !block then .error .malformed
      else
        let (entries, s) ← blockEntries n (s.at_ ms)
        return (.mapping entries, s)
    | .entry :: _ => do
      if !loose then .error .malformed
      else
        let (items, s) ← blockItems n s
        return (.sequence items, s)
    | _ => .error s.unexpected

/-- Reads a node, which is missing if the next mark passes a test. -/
def readUnless : Nat → (test : Mark → Bool) → (block loose : Bool) → Source →
    Except Fault (Node × Source)
  | 0, _, _, _, _ => .error .malformed
  | n + 1, test, block, loose, s =>
    if s.ahead test then .ok (missing, s) else read n block loose s

def blockItems : Nat → Source → Except Fault (List Node × Source)
  | 0, _ => .error .malformed
  | n + 1, s =>
    match s.marks with
    | .entry :: ms => do
      let ends (m : Mark) : Bool := m = .entry || endsBlockEntry m
      let (item, s) ← readUnless n ends true false (s.at_ ms)
      let (items, s) ← blockItems n s
      return (item :: items, s)
    | _ => .ok ([], s)

/-- Reads the entries of an indented mapping and its end. -/
def blockEntries : Nat → Source → Except Fault (List (Node × Node) × Source)
  | 0, _ => .error .malformed
  | n + 1, s =>
    match s.marks with
    | .key :: ms => do
      let (key, s) ← readUnless n endsBlockEntry true true (s.at_ ms)
      let (value, s) ← match s.marks with
        | .value :: ms => readUnless n endsBlockEntry true true (s.at_ ms)
        | _ => .ok (missing, s)
      let (entries, s) ← blockEntries n s
      return ((key, value) :: entries, s)
    | .blockEnd :: ms => .ok ([], s.at_ ms)
    | _ => .error s.unexpected

/-- Reads a key inside brackets, after its mark, and the value that follows it. -/
def flowPair : Nat → Shape → Source → Except Fault ((Node × Node) × Source)
  | 0, _, _ => .error .malformed
  | n + 1, shape, s => do
    let ends := endsFlowEntry shape
    let (key, s) ← readUnless n (fun m => m = .value || ends m) false false s
    let (value, s) ← match s.marks with
      | .value :: ms => readUnless n ends false false (s.at_ ms)
      | _ => .ok (missing, s)
    return ((key, value), s)

/-- Reads the items of a sequence in brackets and its end. A pair is a mapping of its own. -/
def flowItems : Nat → (first : Bool) → Source → Except Fault (List Node × Source)
  | 0, _, _ => .error .malformed
  | n + 1, first, s =>
    match s.marks with
    | .closeBracket .sequence :: ms => .ok ([], s.at_ ms)
    | _ => do
      let s ← s.afterComma first
      match s.marks with
      | .closeBracket .sequence :: ms => return ([], s.at_ ms)
      | .key :: ms =>
        let (pair, s) ← flowPair n .sequence (s.at_ ms)
        let (items, s) ← flowItems n false s
        return (.mapping [pair] :: items, s)
      | _ =>
        let (item, s) ← read n false false s
        let (items, s) ← flowItems n false s
        return (item :: items, s)

/-- Reads the entries of a mapping in brackets and its end. A node alone is a key. -/
def flowEntries : Nat → (first : Bool) → Source → Except Fault (List (Node × Node) × Source)
  | 0, _, _ => .error .malformed
  | n + 1, first, s =>
    match s.marks with
    | .closeBracket .mapping :: ms => .ok ([], s.at_ ms)
    | _ => do
      let s ← s.afterComma first
      match s.marks with
      | .closeBracket .mapping :: ms => return ([], s.at_ ms)
      | .key :: ms =>
        let (pair, s) ← flowPair n .mapping (s.at_ ms)
        let (entries, s) ← flowEntries n false s
        return (pair :: entries, s)
      | _ =>
        let (key, s) ← read n false false s
        let (entries, s) ← flowEntries n false s
        return ((key, missing) :: entries, s)

end

def separates : Mark → Bool
  | .documentStart | .documentEnd | .directive _ => true
  | _ => false

def directives : List Mark → List Directive × List Mark
  | .directive d :: ms =>
    let (ds, ms) := directives ms
    (d :: ds, ms)
  | ms => ([], ms)

/-- The tree of the one document in a list of marks. -/
def ofMarks (ms : List Mark) : Except Fault Node := do
  -- Each mark is passed by at most five calls in a row.
  let bound := 5 * ms.length + 5
  let (ds, rest) := directives ms
  let handles ← Directive.apply ds
  let (node, s) ← match rest with
    | .documentStart :: rest =>
      let s : Source := { marks := rest, handles }
      if rest.isEmpty || s.ahead separates then .ok (missing, s) else read bound true false s
    | rest =>
      let s : Source := { marks := rest }
      if !ds.isEmpty then .error s.unexpected
      else if rest.isEmpty then .ok (missing, s)
      else read bound true false s
  let s := s.at_ (s.marks.dropWhile (· = .documentEnd))
  if s.marks.isEmpty then return node else .error s.unexpected

end Node

end Yaml

end RaisingEffects
