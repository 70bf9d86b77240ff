import RaisingEffects.CommandLine.Invocation
import RaisingEffects.Logging.Channels
import RaisingEffects.Report.Basic

/-!
# Running the program

The program reads its arguments, sets up logging, reads its settings and carries out its command.
What it needs of the file system is a function from paths to what they lead to.

Most failures are reported on the error stream, with exit code 2. The others end the program.

* `CommandLine.run` gives what is written and how the program ends.
-/

namespace RaisingEffects

namespace CommandLine

inductive Failure where
  | config (fault : ConfigFault)
  | missingSource (path : Path)
  | source (fault : PathFault)
  | undecodable (fault : Utf8.Fault)
  | unreadable (path : Path) (fault : ParseFailure)
  | violation (v : Violation)
  | logging (fault : Logging.LogFault)

namespace Failure

def message : Failure → String
  | config fault => fault.message
  | missingSource path => s!"source file not found: {path.text}"
  | source fault => fault.message
  | undecodable fault => fault.message
  | unreadable path fault => fault.message path.text
  | violation v => v.text
  | logging fault => fault.message

/-- Whether a failure is reported with exit code 2. -/
def isReported : Failure → Bool
  | config fault => fault.isReported
  | source _ | unreadable _ .outOfTokens | violation _ | logging _ => false
  | missingSource _ | undecodable _ | unreadable .. => true

end Failure

inductive Ending where
  | exit (code : Nat)
  | help
  | refused (message : String)
  | failed (failure : Failure)

structure Writing where
  file : LogFile
  text : String := ""
deriving DecidableEq, Repr

structure Output where
  out : String := ""
  err : String := ""
  files : List Writing := []
deriving DecidableEq, Repr

/-- What is written so far, and the channels that are logged to. -/
structure Console extends Output where
  channels : Logging.Channels := .initial

namespace Console

def writesTo (c : Console) (path : Path) : Bool := c.files.any fun w => w.file.path = path

/-- Opens a file. What was written to it is lost if it is begun anew. -/
def openFile (c : Console) (f : LogFile) : Console :=
  if c.writesTo f.path then
    { c with files := c.files.map fun w => if w.file.path = f.path && f.isNew then ⟨f, ""⟩ else w }
  else { c with files := c.files ++ [{ file := f }] }

/-- Writes to a stream. A file that is not open is opened first. -/
def write (c : Console) : Stream × String → Console
  | (.out, s) => { c with out := c.out ++ s }
  | (.err, s) => { c with err := c.err ++ s }
  | (.file f, s) =>
    let c := if c.writesTo f.path then c else c.openFile f
    let add (w : Writing) : Writing := { w with text := w.text ++ s }
    { c with files := c.files.map fun w => if w.file.path = f.path then add w else w }

def finding (c : Console) (find : Path → Found) (path : Path) : Found :=
  match c.files.find? fun w => w.file.path = path.collapsed with
  | none => find path
  | some w =>
    let added := w.text.toUTF8.toList
    match find path with
    | .file bytes => .file (if w.file.isNew then added else bytes ++ added)
    | _ => .file added

def print (c : Console) (line : String) : Console := c.write (.out, line ++ "\n")

def take (c : Console) (d : Logging.Delivery) : Console × Option Failure :=
  (d.lines.foldl write { c with channels := d.channels }, d.fault.map .logging)

def log (c : Console) (records : List Logging.Record) : Console × Option Failure :=
  c.take (c.channels.each Logging.Channels.write records)

def finish (c : Console) : Output := (c.take c.channels.finish).1.toOutput

end Console

/-! ## The log of a check -/

def record (level : Nat) (origin : Logging.Origin) (template : String)
    (arguments : List Logging.Argument) : Logging.Record :=
  { level, channel := Logging.Channels.partName origin.part, origin, template, arguments }

def LogEntry.record : LogEntry → Logging.Record
  | .closure span e =>
    CommandLine.record 10 ⟨"inference", "infer_closure_effect", 246⟩ "closure at %s inferred as %s"
      [.text span.start.text, .effect e]
  | .forwards function e =>
    CommandLine.record 10 ⟨"delegation", "resolve_delegation", 101⟩ "'%s' forwards %s"
      [.text function, .effect e]
  | .resolved function mode e =>
    CommandLine.record 10 ⟨"checker", "_seed_function", 155⟩ "'%s' resolved in %s mode to %s"
      [.text function, .text mode.name, .effect e]
  | .violation v =>
    CommandLine.record 10 ⟨"checker", "_record", 183⟩ "%s: %s"
      [.text v.cause.kind, .text v.cause.message]

def records (v : Verdict) (settings : Settings) : List Logging.Record :=
  v.log.map (fun e => LogEntry.record e.2) ++
    [record 20 ⟨"checker", "check_module", 75⟩
      "checked %d function(s) under %s policy: %d diagnostic(s)"
      [.number v.program.functions.length, .text settings.policy.name,
        .number v.diagnostics.length]]

/-! ## Commands -/

/-- The mapping that settings are read from in the absence of a file. -/
def defaultConfig : Mapping :=
  [(.text "analysis", .map
    [(.text "policy", .text "compatibility"), (.text "check_bodies", .bool true)])]

def Invocation.settings (i : Invocation) (read : Value.Reader) (find : Path → Found) :
    Except ConfigFault Settings := do
  let m ← match i.config with
    | .absent => pure defaultConfig
    | .blank => .error .blankPath
    | .value path => Config.load read path (find path)
  let policy := i.policy.map fun p => some s!"analysis.policy={p}"
  Settings.ofMapping
    (← (m.overrideUnlessBlank read (i.overrides ++ policy.toList)).mapError .override)

def checkFile (find : Path → Found) (settings : Settings) (path : Path) :
    Except Failure Verdict := do
  match ← ((find path).bytes? path).mapError .source with
  | none => .error (.missingSource path)
  | some bytes =>
    let source ← (fileText bytes).mapError .undecodable
    let r ← (Program.parse source).mapError (.unreadable path)
    (r.program.check settings r.program.declaresError r.skipped).mapError .violation

/-- Checks files one after the other, up to the first failure. What is said of a file in words is
written at once. -/
def checkFiles (find : Path → Found) (settings : Settings) (format : Format) :
    List Path → Console → Console × Except Failure (List (Path × Verdict))
  | [], c => (c, .ok [])
  | path :: paths, c =>
    match checkFile (c.finding find) settings path with
    | .error failure => (c, .error failure)
    | .ok v =>
      match c.log (records v settings) with
      | (c, some failure) => (c, .error failure)
      | (c, none) =>
        let c := if format = .text then c.print (v.text path.text) else c
        match checkFiles find settings format paths c with
        | (c, .ok vs) => (c, .ok ((path, v) :: vs))
        | r => r

/-- The reports on files as one payload: a list if there are several. -/
def reports (vs : List (Path × Verdict)) : Payload :=
  match vs.map fun (path, v) => v.report (some path.text) with
  | [report] => report
  | all => .list all

def padded (width : Nat) (name : String) : String :=
  name ++ String.ofList (List.replicate (width - name.length) ' ')

def effectLines (effects : Table Effect) : List String :=
  let width := effects.foldl (fun n e => max n e.1.length) 0
  effects.map fun (name, e) => s!"{padded width name}  {e.text}"

def exitCode (vs : List (Path × Verdict)) : Nat := if vs.all fun v => v.2.isClean then 0 else 1

def Command.run (find : Path → Found) (settings : Settings) (c : Console) :
    Command → Console × Except Failure Nat
  | .check sources format =>
    match checkFiles find settings format sources c with
    | (c, .error failure) => (c, .error failure)
    | (c, .ok vs) =>
      (if format = .json then c.print ((reports vs).render 0) else c, .ok (exitCode vs))
  | .effects source =>
    match checkFile (c.finding find) settings source with
    | .error failure => (c, .error failure)
    | .ok v =>
      match c.log (records v settings) with
      | (c, some failure) => (c, .error failure)
      | (c, none) => ((effectLines v.effects).foldl Console.print c, .ok (exitCode [(source, v)]))

def Invocation.console (i : Invocation) (find : Path → Found) : Except ConfigFault Console := do
  let start : Console := {}
  let c ← match i.logConfig with
    | none => pure start
    | some path => do
      let (settings, records) ← Logging.load path (find path)
      let (c, _) := start.log records
      let channels := c.channels.configure settings
      pure (channels.opened.foldl Console.openFile { c with channels })
  let level :=
    if i.verbosity = 0 then none
    else Logging.levels.lookup (Logging.verbosityLevel i.verbosity)
  return { c with channels := level.elim c.channels c.channels.setLevel }

def Invocation.run (i : Invocation) (find : Path → Found) : Output × Ending :=
  match i.console find with
  | .error fault => ({}, .failed (.config fault))
  | .ok c =>
    let (c, r) : Console × Except Failure Nat := match i.settings Value.ofYaml (c.finding find) with
      | .error fault => (c, .error (.config fault))
      | .ok settings => i.command.run find settings c
    match r with
    | .ok code => (c.finish, .exit code)
    | .error failure =>
      if failure.isReported then
        let c := c.write (.err, s!"[{programName}] error: {failure.message}\n")
        (c.finish, .exit 2)
      else (c.finish, .failed failure)

def run (find : Path → Found) (args : List String) : Output × Ending :=
  match Invocation.read args with
  | .error .help => ({}, .help)
  | .error (.refused program message) => ({}, .refused s!"{program}: error: {message}")
  | .ok i => i.run find

end CommandLine

end RaisingEffects
