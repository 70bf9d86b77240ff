import RaisingEffects.Number.Numeral
import RaisingEffects.Number.Shortest
import RaisingEffects.Yaml.Moment

/-!
# Values of documents

What a YAML document stands for: scalars, lists and mappings. A mapping keeps its entries in the
order in which their keys were first entered.

* `Mapping.get?` and `Mapping.set` look up and enter the value of a name.
* `Mapping.at?`, `Mapping.put` and `Mapping.reach` work along a path of names through nested
  mappings.
* `Value.shown` is the text of a value in messages, if it `isWritable`.
* `Value.alter` changes a mapping inside a value, in all the places where it stands.
-/

namespace RaisingEffects

inductive Value where
  | null
  | bool (b : Bool)
  | int (n : Int)
  | float (d : Double)
  | text (s : String)
  | moment (m : Moment)
  | list (items : List Value)
  /-- A mapping that stands in several places has a number, the same in all of them. -/
  | map (entries : List (Value × Value)) (number : Option Nat := none)
  /-- A value of any other kind, such as a set: the name of its kind and its text. -/
  | other (kind text : String)
deriving Inhabited

abbrev Mapping := List (Value × Value)

namespace Value

mutual

def shown : Value → String
  | null => "None"
  | bool b => if b then "True" else "False"
  | int n => toString n
  | float d => d.text
  | text s => quoted s
  | moment m => m.shown
  | list items => "[" ++ ", ".intercalate (shownItems items) ++ "]"
  | map entries _ => "\x7b" ++ ", ".intercalate (shownEntries entries) ++ "\x7d"
  | other _ s => s

def shownItems : List Value → List String
  | [] => []
  | v :: vs => shown v :: shownItems vs

def shownEntries : List (Value × Value) → List String
  | [] => []
  | (k, v) :: es => (shown k ++ ": " ++ shown v) :: shownEntries es

end

mutual

/-- Whether a value can be written in a message: its integers must not have too many digits. -/
def isWritable : Value → Bool
  | int n => (Nat.toDigits 10 n.natAbs).length ≤ Numeral.maxDigits
  | list items => areWritable items
  | map entries _ => entriesAreWritable entries
  | _ => true

def areWritable : List Value → Bool
  | [] => true
  | v :: vs => isWritable v && areWritable vs

def entriesAreWritable : List (Value × Value) → Bool
  | [] => true
  | (k, v) :: es => isWritable k && isWritable v && entriesAreWritable es

end

def kindName : Value → String
  | null => "NoneType"
  | bool _ => "bool"
  | int _ => "int"
  | float _ => "float"
  | text _ => "str"
  | moment m => m.kindName
  | list _ => "list"
  | map _ _ => "dict"
  | other kind _ => kind

def isText (name : String) : Value → Bool
  | text s => s = name
  | _ => false

/-- A number as a fraction of a power of two: the truth values count as one and zero. -/
def fraction? : Value → Option (Int × Nat)
  | bool b => some (if b then 1 else 0, 0)
  | int n => some (n, 0)
  | float (.finite negative m e) =>
    let n : Int := if negative then -m else m
    match e with
    | .ofNat k => some (n * Double.twoTo k, 0)
    | .negSucc k => some (n, k + 1)
  | _ => none

def fractionLe (a b : Int × Nat) : Bool := a.1 * Double.twoTo b.2 ≤ b.1 * Double.twoTo a.2

/-- Whether two scalars are the same key. Numbers are compared by their values. -/
def sameKey (a b : Value) : Bool :=
  match a, b with
  | null, null => true
  | text s, text t => s = t
  | moment m, moment n => m = n
  | other kind s, other kind' t => kind = kind' && s = t
  | float (.infinite s), float (.infinite t) => s = t
  | _, _ =>
    match fraction? a, fraction? b with
    | some x, some y => fractionLe x y && fractionLe y x
    | _, _ => false

end Value

namespace Mapping

def get? (name : String) : Mapping → Option Value
  | [] => none
  | (k, v) :: es => if k.isText name then some v else get? name es

def set (name : String) (value : Value) : Mapping → Mapping
  | [] => [(.text name, value)]
  | (k, v) :: es => if k.isText name then (k, value) :: es else (k, v) :: set name value es

/-- Enters a value for a key. An entered key stays as it was first written. -/
def setKey (key value : Value) : Mapping → Mapping
  | [] => [(key, value)]
  | (k, v) :: es => if k.sameKey key then (k, value) :: es else (k, v) :: setKey key value es

def has (name : String) (m : Mapping) : Bool := (m.get? name).isSome

/-- The mapping that a name stands for: empty if the name has another value or none. -/
def nested (name : String) (m : Mapping) : Mapping :=
  match m.get? name with
  | some (.map es _) => es
  | _ => []

/-- The value at the end of a path of names. The empty path leads to the whole mapping. -/
def at? : List String → Mapping → Option Value
  | [], m => some (.map m)
  | [name], m => m.get? name
  | name :: path, m =>
    match m.get? name with
    | some (.map es _) => at? path es
    | _ => none

/-- Enters a value at the end of a path. What is not a mapping on the way becomes one. -/
def put (value : Value) : List String → Mapping → Mapping
  | [], m => m
  | [name], m => m.set name value
  | name :: path, m => m.set name (.map (put value path (m.nested name)))

/-- Makes everything on the way to the end of a path a mapping. -/
def reach : List String → Mapping → Mapping
  | [], m => m
  | [_], m => m
  | name :: path, m => m.set name (.map (reach path (m.nested name)))

end Mapping

/-! ## Mappings in several places -/

namespace Value

mutual

def numbers : Value → List Nat
  | list items => itemNumbers items
  | map es number => number.toList ++ entryNumbers es
  | _ => []

def itemNumbers : List Value → List Nat
  | [] => []
  | v :: vs => numbers v ++ itemNumbers vs

def entryNumbers : Mapping → List Nat
  | [] => []
  | (_, v) :: es => numbers v ++ entryNumbers es

end

mutual

/-- Gives mappings other numbers, or none. -/
def renumber (f : Nat → Option Nat) : Value → Value
  | list items => list (renumberItems f items)
  | map es number => map (renumberEntries f es) (number.bind f)
  | v => v

def renumberItems (f : Nat → Option Nat) : List Value → List Value
  | [] => []
  | v :: vs => renumber f v :: renumberItems f vs

def renumberEntries (f : Nat → Option Nat) : Mapping → Mapping
  | [] => []
  | (k, v) :: es => (k, renumber f v) :: renumberEntries f es

end

/-- The value with numbers that are not in use in a mapping. -/
def freshIn (m : Mapping) (v : Value) : Value :=
  v.renumber fun n => some (n + (entryNumbers m).foldr (fun k bound => max (k + 1) bound) 0)

mutual

/-- Changes the mapping with a number, in all its places. -/
def change (n : Nat) (f : Mapping → Mapping) : Value → Value
  | list items => list (changeItems n f items)
  | map es number => map (if number = some n then f es else changeEntries n f es) number
  | v => v

def changeItems (n : Nat) (f : Mapping → Mapping) : List Value → List Value
  | [] => []
  | v :: vs => change n f v :: changeItems n f vs

def changeEntries (n : Nat) (f : Mapping → Mapping) : Mapping → Mapping
  | [] => []
  | (k, v) :: es => (k, change n f v) :: changeEntries n f es

end

/-- The innermost mapping on the way to the end of a path that stands in several places, and the
rest of the path. -/
def sharedOn : List String → Value → Option (Nat × List String)
  | name :: path, map es number =>
    (Mapping.get? name es).bind (sharedOn path) <|> number.map (·, name :: path)
  | _, _ => none

/-- Changes a mapping along a path, in all the places of what is changed. Anything else becomes a
mapping first. -/
def alter (f : List String → Mapping → Mapping) (path : List String) (v : Value) : Value :=
  match v.sharedOn path with
  | some (n, rest) => v.change n (f rest)
  | none =>
    match v with
    | map es number => map (f path es) number
    | _ => map (f path [])

end Value

end RaisingEffects
