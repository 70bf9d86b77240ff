import RaisingEffects.Config.Settings
import RaisingEffects.Logging.Formatter

/-!
# Settings of logging

Logging is set up from a mapping. A file may hold one; what it does not set is set by defaults, and
a file that holds no document is ignored.

* `Logging.load` reads the mapping in a file.
* `levelOf` and `nameOf` read levels and names of channels.
* `given?`, `textIn`, `levelIn` and `mappingAt` read what a mapping sets.
-/

namespace RaisingEffects

namespace Logging

/-- The name of the level for a number of requests to be verbose. -/
def verbosityLevel (n : Int) : String :=
  if n ≤ 0 then "WARNING" else if n = 1 then "INFO" else "DEBUG"

inductive Refusal where
  | unknownLevel (name : String)
  | notLevel (value : Value)
  | noName

def Refusal.message : Refusal → String
  | unknownLevel name => "Unknown level: " ++ quoted name
  | notLevel value => s!"Level not an integer or a valid string: {value.shown}"
  | noName => "logger name must be a non-empty string"

/-- The level that a value stands for: a number or the name of a level. -/
def levelOf : Value → Except Refusal Int
  | .int n => .ok n
  | .bool b => .ok (if b then 1 else 0)
  | .text name =>
    match levels.lookup name with
    | some level => .ok level
    | none => .error (.unknownLevel name)
  | value => .error (.notLevel value)

/-- The name under which something is logged: any text that is not empty. -/
def nameOf : Value → Except Refusal String
  | .text name => if name.isEmpty then .error .noName else .ok name
  | _ => .error .noName

/-! ## Files -/

def mapping (entries : List (String × Value)) : Value :=
  .map (entries.map fun (k, v) => (.text k, v))

def defaultFormat : String := "%(levelname)s %(name)s: %(message)s"

def defaults : Mapping :=
  [(.text "version", .int 1),
    (.text "disable_existing_loggers", .bool false),
    (.text "formatters", mapping [("checker", mapping [("format", .text defaultFormat)])]),
    (.text "handlers", mapping
      [("stderr", mapping
        [("class", .text "logging.StreamHandler"), ("stream", .text "ext://sys.stderr"),
          ("formatter", .text "checker")])]),
    (.text "loggers", mapping
      [(channelName, mapping
        [("level", .text "WARNING"), ("handlers", .list [.text "stderr"]),
          ("propagate", .bool false)])])]

def settingNames : List String :=
  ["version", "disable_existing_loggers", "formatters", "handlers", "root", "loggers"]

/-- The defaults with the settings of a mapping. Other entries are ignored. -/
def merged (m : Mapping) : Mapping :=
  m.foldl (fun d (k, v) =>
    match k with
    | .text name => if settingNames.contains name then d.set name v else d
    | _ => d) defaults

def ignored (path : Path) : Record where
  level := 30
  channel := channelName
  origin := ⟨"logger", "_load_config", 61⟩
  template := "ignoring unreadable %s: %s"
  arguments := [.text path.text, .text Yaml.Fault.malformed.message]

def load (path : Path) (found : Found) : Except ConfigFault (Mapping × List Record) := do
  match ← (found.bytes? path).mapError .path with
  | none => return (defaults, [])
  | some bytes =>
    let text ← (fileText bytes).mapError .undecodable
    match Value.ofYaml text with
    | .ok (.map es _) => return (merged es, [])
    | .ok _ => return (defaults, [])
    | .error .malformed => return (defaults, [ignored path])
    | .error fault => .error (.unreadable fault)

/-! ## Values in settings -/

/-- Whether a value counts as true: zero and what is empty do not. -/
def holds : Value → Bool
  | .null => false
  | .bool b => b
  | .int n => n ≠ 0
  | .float (.finite _ m _) => m ≠ 0
  | .float _ => true
  | .text s => !s.isEmpty
  | .moment _ | .other .. => true
  | .list vs => !vs.isEmpty
  | .map es _ => !es.isEmpty

/-- The parts of a value: items, keys or characters. -/
def partsOf : Value → List Value
  | .list vs => vs
  | .map es _ => es.map Prod.fst
  | .text s => s.toList.map fun c => .text c.toString
  | _ => []

def given? (m : Mapping) (name : String) : Option Value :=
  (m.get? name).filter fun
    | .null => false
    | _ => true

def textIn (m : Mapping) (name : String) : Option String :=
  match m.get? name with
  | some (.text s) => some s
  | _ => none

def mappingAt (m : Mapping) (key : Value) : Option Mapping :=
  match m.find? fun e => e.1.sameKey key with
  | some (_, .map es _) => some es
  | _ => none

def levelIn (m : Mapping) (name : String) : Option Int :=
  (given? m name).bind fun v => (levelOf v).toOption

end Logging

end RaisingEffects
