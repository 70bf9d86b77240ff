import RaisingEffects.Config.Override
import RaisingEffects.Files
import RaisingEffects.Text.Utf8
import RaisingEffects.Verdict

/-!
# Settings

The settings of a check are read from a mapping: from its section `analysis` if there is one, from
the mapping itself otherwise. The mapping is the document in a file, with overrides.

* `Settings.ofMapping` reads settings.
* `Settings.load` reads a file, applies overrides and reads settings.
-/

namespace RaisingEffects

inductive ConfigFault where
  | missingFile (file : Path)
  | path (fault : PathFault)
  | blankPath
  | undecodable (fault : Utf8.Fault)
  | unreadable (fault : Yaml.Fault)
  | rootNotMapping
  | override (fault : OverrideFault)
  | sectionNotMapping
  | unknownOptions (names : List String)
  /-- An option has a name that is not a text but of the given kind. -/
  | optionKind (kind : String)
  /-- Names of options are of kinds that have no common order. -/
  | unorderedOptions (first second : String)
  | unknownPolicy (value : Value)
  | notBoolean (value : Value)
  /-- A value is wrong, and cannot even be written. -/
  | unwritable

namespace Policy

def all : List Policy := [.compatibility, .precise]

/-- The policy with the given name, in any case and with blanks around it. -/
def ofName? (name : String) : Option Policy :=
  let word := String.ofList ((Override.trim name.toList).map Char.toLower)
  all.find? fun p => p.name = word

end Policy

namespace ConfigFault

def message : ConfigFault → String
  | missingFile file => s!"configuration file not found: {file.text}"
  | path fault => fault.message
  | blankPath => "expected str, bytes or os.PathLike object, not list"
  | undecodable fault => fault.message
  | unreadable .malformed => "failed to parse configuration"
  | unreadable fault => fault.message
  | rootNotMapping => "configuration root must be a mapping"
  | override fault => fault.message
  | sectionNotMapping => "'analysis' section must be a mapping"
  | unknownOptions names => "unknown analysis option(s): " ++ ", ".intercalate names
  | optionKind kind => s!"sequence item 0: expected str instance, {kind} found"
  | unorderedOptions first second =>
    s!"'<' not supported between instances of '{first}' and '{second}'"
  | unknownPolicy value =>
    s!"unknown inference policy {value.shown} (expected one of: " ++
      ", ".intercalate (Policy.all.map Policy.name) ++ ")"
  | notBoolean value => s!"expected a boolean, found {value.shown}"
  | unwritable => NumeralFault.unwritable.message

/-- Whether a fault is reported as one of the configuration. The others end the program: a path that
cannot be read, a value of an override that is no document, a scalar that is not of the kind that it
is said to be, a number that is too large, and names of options that cannot be listed. -/
def isReported : ConfigFault → Bool
  | path _ | blankPath | override (.value .malformed) | optionKind _ | unorderedOptions .. => false
  | unreadable fault | override (.value fault) => fault.isOfValue
  | _ => true

end ConfigFault

namespace Settings

/-- The fault of options that are not known. They are listed in order; only texts can be listed. -/
def unknownOptions (keys : List Value) : ConfigFault :=
  let texts := keys.filterMap fun
    | .text s => some s
    | _ => none
  let numbers := keys.filterMap fun k => k.fraction?.map fun x => (k, x)
  if texts.length = keys.length then .unknownOptions (texts.mergeSort (· ≤ ·))
  else
    let least := (numbers.mergeSort fun a b => Value.fractionLe a.2 b.2).head?.map Prod.fst
    let kinds := (if numbers.length = keys.length then least.toList else keys).map Value.kindName
    match kinds with
    | first :: rest =>
      match rest.find? (· != first) with
      | none => .optionKind first
      | some second => .unorderedOptions second first
    | [] => .unknownOptions []

/-- The fault of a value that is wrong. -/
def wrong (fault : Value → ConfigFault) (v : Value) : ConfigFault :=
  if v.isWritable then fault v else .unwritable

def policyIn (m : Mapping) : Except ConfigFault Policy :=
  match m.get? "policy" with
  | none => .ok .compatibility
  | some v =>
    match v with
    | .text s =>
      match Policy.ofName? s with
      | some p => .ok p
      | none => .error (.unknownPolicy v)
    | _ => .error (wrong .unknownPolicy v)

/-- Reads in a section whether bodies are compared with their signatures. -/
def checkBodiesIn (m : Mapping) : Except ConfigFault Bool :=
  match m.get? "check_bodies" with
  | none => .ok true
  | some (.bool b) => .ok b
  | some v => .error (wrong .notBoolean v)

def isOption (key : Value) : Bool := key.isText "policy" || key.isText "check_bodies"

def ofSection (m : Mapping) : Except ConfigFault Settings :=
  match (m.map Prod.fst).filter (!isOption ·) with
  | [] => do
    let policy ← policyIn m
    let checkBodies ← checkBodiesIn m
    return { policy, checkBodies }
  | keys => .error (unknownOptions keys)

def ofMapping (m : Mapping) : Except ConfigFault Settings :=
  match m.get? "analysis" with
  | none => ofSection m
  | some (.map es _) => ofSection es
  | some _ => .error .sectionNotMapping

end Settings

namespace Config

def ofText (read : Value.Reader) (text : String) : Except ConfigFault Mapping :=
  match read text with
  | .error fault => .error (.unreadable fault)
  | .ok .null => .ok []
  | .ok (.map es _) => .ok es
  | .ok _ => .error .rootNotMapping

def load (read : Value.Reader) (path : Path) (found : Found) : Except ConfigFault Mapping := do
  match ← (found.bytes? path).mapError .path with
  | none => .error (.missingFile path)
  | some bytes => ofText read (← (fileText bytes).mapError .undecodable)

end Config

def Settings.ofOverrides (read : Value.Reader) (m : Mapping) (texts : List String) :
    Except ConfigFault Settings := do
  Settings.ofMapping (← (m.override read texts).mapError .override)

/-- Reads settings from a file, if there is one, with overrides. -/
def Settings.load (read : Value.Reader) (file : Option (Path × Found)) (texts : List String) :
    Except ConfigFault Settings := do
  let m ← match file with
    | none => pure []
    | some (path, found) => Config.load read path found
  Settings.ofOverrides read m texts

end RaisingEffects
