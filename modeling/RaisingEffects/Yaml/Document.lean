import RaisingEffects.Yaml.Node

/-!
# Documents

The tree of a document has a value. A missing node is null. An entry for a key that is there already
changes its value; a key is a scalar. The key `<<` merges other mappings into a mapping.

* `Value.ofYaml` is the value of the one document in a text.
-/

namespace RaisingEffects

namespace Yaml

namespace Node

/-! ## Merges -/

/-- Whether a node is the key `<<`, whose value is merged into the mapping. -/
def isMerge : Node → Bool
  | .scalar text reading => reading = .merge || reading = .plain && text = "<<"
  | _ => false

/-- An entry that has no value, because its key is not a scalar. -/
def badEntry : Node × Node := (.sequence [], missing)

/-- The entries of a node that is merged into a mapping. -/
def mergedEntries : Node → List (Node × Node)
  | .mapping entries _ | .mistagged (.mapping entries _) => entries
  | _ => [badEntry]

/-- The entries that the value of `<<` stands for: those of a mapping, or of the mappings in a
sequence, the last mapping first. -/
def mergedFrom : Node → List (Node × Node)
  | .sequence items | .mistagged (.sequence items) => (items.map mergedEntries).reverse.flatten
  | node => mergedEntries node

mutual

/-- A node without merges: what is merged into a mapping stands before its own entries. -/
def merge : Node → Node
  | .scalar text reading => .scalar text reading
  | .sequence items => .sequence (mergeItems items)
  | .mistagged node => .mistagged (merge node)
  | .mapping entries number =>
    let entries := mergeEntries entries
    .mapping ((entries.filter fun e => isMerge e.1).flatMap (fun e => mergedFrom e.2) ++
      entries.filter fun e => !isMerge e.1) number

def mergeItems : List Node → List Node
  | [] => []
  | n :: ns => merge n :: mergeItems ns

def mergeEntries : List (Node × Node) → List (Node × Node)
  | [] => []
  | (k, v) :: es => (merge k, merge v) :: mergeEntries es

end

/-! ## Values -/

abbrev DeepFault := Nat × Fault

/-- Of two faults the one that is less deep, or the first. -/
def firstFault (a b : DeepFault) : DeepFault := if b.1 < a.1 then b else a

/-- Two results. If both are faults, there is only the first one. -/
def both {α β : Type} (a : Except DeepFault α) (b : Except DeepFault β) :
    Except DeepFault (α × β) :=
  match a, b with
  | .ok a, .ok b => .ok (a, b)
  | .error e, .ok _ => .error e
  | .ok _, .error e => .error e
  | .error e, .error f => .error (firstFault e f)

def deeper {α : Type} (r : Except DeepFault α) : Except DeepFault α :=
  r.mapError fun (depth, fault) => (depth + 1, fault)

def scalarValue (text : String) (reading : Reading) : Except DeepFault Value :=
  (show Except Fault Value from match reading with
    | .plain => Scalar.value text
    | .text => .ok (.text text)
    | .null => .ok .null
    | .truth => Scalar.truth text
    | .integer => Scalar.integer text
    | .number => Scalar.number text
    | .moment => Scalar.moment text
    | .merge | .default => .error .malformed).mapError fun fault => (0, fault)

/-- The value of a scalar that is a key. The key of a default value is a text. -/
def key : Node → Except DeepFault Value
  | .scalar text reading =>
    if reading = .default || reading = .plain && text = "=" then .ok (.text text)
    else scalarValue text reading
  | _ => .error (0, .malformed)

mutual

/-- The value of a node. Of several faults the one counts that is least deep, and the first of
those. -/
def value : Node → Except DeepFault Value
  | .scalar text reading => scalarValue text reading
  | .mistagged _ => .error (0, .malformed)
  | .sequence items => (deeper (values items)).map .list
  | .mapping entries number =>
    (deeper (entryValues entries)).map fun es =>
      .map (es.foldl (fun (m : Mapping) (k, v) => m.setKey k v) []) number

def values : List Node → Except DeepFault (List Value)
  | [] => .ok []
  | n :: ns => (both (value n) (values ns)).map fun (v, vs) => v :: vs

def entryValues : List (Node × Node) → Except DeepFault (List (Value × Value))
  | [] => .ok []
  | (k, v) :: es => (both (both (key k) (value v)) (entryValues es)).map fun (e, es) => e :: es

end

end Node

end Yaml

/-- The value of the one document in a text. An empty text is null. -/
def Value.ofYaml (text : String) : Except Yaml.Fault Value := do
  let node ← Yaml.Node.ofMarks (Yaml.Mark.readAll text)
  let v ← node.merge.value.mapError Prod.snd
  return v.renumber fun n => if v.numbers.count n ≤ 1 then none else some n

end RaisingEffects
