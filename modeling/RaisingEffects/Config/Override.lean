import RaisingEffects.Yaml.Document

/-!
# Overrides

An override `a.b.c=VALUE` enters a value into a mapping at the end of a path of names. Values are
documents of their own, whatever it is that reads them.

Overrides work on a copy of the mapping that shares its nested mappings with the mapping itself:
what is entered into a nested mapping is entered on both sides, and only the entries at the top are
the copy's own. An `Overlay` keeps both. What is entered into a mapping that stands in several
places is entered in all of them.

* `Override.parse` reads an override.
* `Overlay.applyAll` applies overrides one after the other, up to the first one that cannot be
  applied.
-/

namespace RaisingEffects

/-- A reader of documents. -/
abbrev Value.Reader : Type := String → Except Yaml.Fault Value

/-- A path of names and the text of a value. -/
structure Override where
  path : List String
  raw : String
deriving DecidableEq, Repr

inductive OverrideFault where
  | noValue (text : String)
  | noKey (text : String)
  | blank
  | value (fault : Yaml.Fault)
deriving DecidableEq, Repr

def OverrideFault.message : OverrideFault → String
  | noValue text => "override must look like KEY=VALUE: " ++ quoted text
  | noKey text => "override has an empty key: " ++ quoted text
  | blank => "override must look like KEY=VALUE: []"
  | value fault => fault.message

namespace Override

def trim (cs : List Char) : List Char :=
  ((cs.dropWhile isBlank).reverse.dropWhile isBlank).reverse

/-- The names in a key, which are divided by points. -/
def names (key : List Char) : List String :=
  ((trim key).splitOn '.').filterMap fun part =>
    if part.isEmpty then none else some (String.ofList part)

def parse (text : String) : Except OverrideFault Override :=
  let cs := text.toList
  if !cs.contains '=' then .error (.noValue text)
  else
    match names (cs.takeWhile (· != '=')) with
    | [] => .error (.noKey text)
    | path => .ok ⟨path, String.ofList ((cs.dropWhile (· != '=')).drop 1)⟩

end Override

/-- A mapping, a copy of it with overrides, and the names at the top whose values in the copy are
its own. -/
structure Overlay where
  source : Mapping
  result : Mapping
  own : List String

namespace Overlay

def ofMapping (m : Mapping) : Overlay := ⟨m, m, []⟩

/-- Whether the copy shares the nested mapping that a name stands for. -/
def shares (o : Overlay) (name : String) : Bool :=
  !o.own.contains name &&
    match o.source.get? name with
    | some (.map ..) => true
    | _ => false

/-- Changes the copy along a path, and the mapping too if the path leads into a shared part. What
is not shared has all its places in the value of one name. -/
def change (o : Overlay) (f : List String → Mapping → Mapping) : List String → Overlay
  | [] => o
  | [name] => { o with result := f [name] o.result, own := name :: o.own }
  | name :: path =>
    let v := (o.result.get? name).getD .null
    let enter (m : Mapping) : Mapping := m.set name (v.alter f path)
    if o.shares name then
      let spread := (v.sharedOn path).elim enter fun (n, rest) => Value.changeEntries n (f rest)
      { o with source := spread o.source, result := spread o.result }
    else { o with result := enter o.result, own := name :: o.own }

def write (o : Overlay) (path : List String) (value : Value) : Overlay :=
  o.change (Mapping.put (value.freshIn (o.source ++ o.result))) path

def prepare (o : Overlay) (path : List String) : Overlay :=
  match path with
  | [_] => o
  | path => o.change Mapping.reach path

/-- Applies overrides whose values are read by `read`. An override whose value cannot be read has
prepared its way. -/
def applyAll (read : Value.Reader) (o : Overlay) :
    List String → Overlay × Option OverrideFault
  | [] => (o, none)
  | text :: texts =>
    match Override.parse text with
    | .error fault => (o, some fault)
    | .ok v =>
      match read v.raw with
      | .error fault => (o.prepare v.path, some (.value fault))
      | .ok value => applyAll read (o.write v.path value) texts

end Overlay

def Mapping.override (m : Mapping) (read : Value.Reader) (texts : List String) :
    Except OverrideFault Mapping :=
  match (Overlay.ofMapping m).applyAll read texts with
  | (_, some fault) => .error fault
  | (o, none) => .ok o.result

/-- The overrides up to the first one that is blank. -/
def Override.beforeBlank : List (Option String) → List String
  | some text :: texts => text :: beforeBlank texts
  | _ => []

/-- A mapping with overrides, of which some may be blank. -/
def Mapping.overrideUnlessBlank (m : Mapping) (read : Value.Reader) (texts : List (Option String)) :
    Except OverrideFault Mapping := do
  let m ← m.override read (Override.beforeBlank texts)
  if texts.contains none then .error .blank else return m

end RaisingEffects
