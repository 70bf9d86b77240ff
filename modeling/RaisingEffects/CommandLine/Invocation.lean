import RaisingEffects.CommandLine.Arguments
import RaisingEffects.Config.Settings

/-!
# Invocations

The program checks files or prints the effects of the functions in a file. Options in front of the
command say how.

* `Invocation.read` reads the arguments of the program.
-/

namespace RaisingEffects

namespace CommandLine

inductive Key where
  | help
  | config
  | override
  | policy
  | logConfig
  | verbose
  | format
deriving DecidableEq, Repr

inductive Format where
  | text
  | json
deriving DecidableEq, Repr

inductive Command where
  | check (sources : List Path) (format : Format)
  | effects (source : Path)
deriving DecidableEq, Repr

inductive Choice (α : Type) where
  | absent
  /-- The option is given without a value. -/
  | blank
  | value (a : α)
deriving DecidableEq, Repr

namespace Choice

variable {α β : Type}

def value? : Choice α → Option α
  | value a => some a
  | _ => none

def map (f : α → β) : Choice α → Choice β
  | absent => .absent
  | blank => .blank
  | value a => .value (f a)

end Choice

structure Invocation where
  config : Choice Path
  /-- The overrides; one that is given without a value is `none`. -/
  overrides : List (Option String)
  policy : Option String
  logConfig : Option Path
  verbosity : Nat
  command : Command
deriving DecidableEq, Repr

def programName : String := "raisecheck"

def helpOption : Opt Key := { key := .help, names := ["-h", "--help"] }

def commandNames : List String := ["check", "effects"]

def mainUsage : Usage Key where
  program := programName
  options :=
    [helpOption,
      { key := .config, names := ["--config"], takesValue := true },
      { key := .override, names := ["--set"], takesValue := true },
      { key := .policy, names := ["--policy"], takesValue := true
        choices := Policy.all.map Policy.name },
      { key := .logConfig, names := ["--log-config"], takesValue := true },
      { key := .verbose, names := ["-v", "--verbose"] }]
  isHelp k := k = .help
  operands := .rest
  operandName := "command"

def checkUsage : Usage Key where
  program := programName ++ " check"
  options :=
    [helpOption,
      { key := .format, names := ["--format"], takesValue := true, choices := ["text", "json"] }]
  isHelp k := k = .help
  operands := .many
  operandName := "sources"

def effectsUsage : Usage Key where
  program := programName ++ " effects"
  options := [helpOption]
  isHelp k := k = .help
  operands := .one
  operandName := "source"

namespace Given

def values (g : Given Key) (key : Key) : List (Option String) :=
  (g.options.filter fun (k, _) => k = key).map Prod.snd

def choice (g : Given Key) (key : Key) : Choice String :=
  match (g.values key).getLast? with
  | none => .absent
  | some none => .blank
  | some (some v) => .value v

def count (g : Given Key) (key : Key) : Nat := g.options.countP fun (k, _) => k = key

end Given

/-- Reads a command and its arguments, and what is left over of them. -/
def Command.read (name : String) (args : List String) : Except Stop (Command × List String) :=
  if name = "check" then do
    let (g, sources) ← checkUsage.read args
    let format := if g.choice .format = .value "json" then .json else .text
    return (.check (sources.map Path.ofText) format, g.leftOver)
  else if name = "effects" then do
    let (g, sources) ← effectsUsage.read args
    return (.effects (Path.ofText (sources.headD "")), g.leftOver)
  else
    .error (.refused programName ("argument command: " ++ invalidChoice name commandNames))

/-- Reads the arguments of the program. Nothing may be left over. -/
def Invocation.read (args : List String) : Except Stop Invocation := do
  let (g, operands) ← mainUsage.read args
  let (command, leftOver) ← Command.read (operands.headD "") (operands.drop 1)
  match g.leftOver ++ leftOver with
  | [] =>
    return {
      config := (g.choice .config).map Path.ofText
      overrides := g.values .override
      policy := (g.choice .policy).value?
      logConfig := (g.choice .logConfig).value?.map Path.ofText
      verbosity := g.count .verbose
      command }
  | args =>
    .error (.refused programName ("unrecognized arguments: " ++ " ".intercalate args))

def Invocation.paths (i : Invocation) : List Path :=
  i.logConfig.toList ++ i.config.value?.toList ++
    match i.command with
    | .check sources _ => sources
    | .effects source => [source]

end CommandLine

end RaisingEffects
