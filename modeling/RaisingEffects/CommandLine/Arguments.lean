import RaisingEffects.Text.Digit
import RaisingEffects.Text.Quoted

/-!
# Arguments of a command

A command takes options and operands. An option is named in full or by the start of a long name
that no other option has; its value follows as the next argument, or after `=`. Short options that
take no value may be joined, as in `-vv`. After `--` there are operands only, and an option whose
value is `--` is given without a value. Options and operands that nothing takes are left over.

* `Usage.read` reads arguments.
-/

namespace RaisingEffects

namespace CommandLine

structure Opt (κ : Type) where
  key : κ
  names : List String
  takesValue : Bool := false
  /-- The values that are accepted; all values if there are none. -/
  choices : List String := []

inductive Operands where
  | one
  | many
  /-- An operand and everything after it, options too. -/
  | rest
deriving DecidableEq, Repr

structure Usage (κ : Type) where
  program : String
  options : List (Opt κ)
  isHelp : κ → Bool
  operands : Operands
  operandName : String

inductive Stop where
  | help
  | refused (program message : String)
deriving DecidableEq, Repr

inductive Role (κ : Type) where
  | operand
  | divider
  /-- An option, by its name, and what is written together with it. -/
  | option (opt : Opt κ) (name : String) (attached : Option (List Char))
  | unknownOption

structure Given (κ : Type) where
  options : List (κ × Option String) := []
  operands : Option (List String) := none
  leftOver : List String := []

namespace Opt

variable {κ : Type}

def shown (o : Opt κ) : String := "/".intercalate o.names

def complaint (o : Opt κ) (message : String) : String := s!"argument {o.shown}: {message}"

end Opt

def invalidChoice (value : String) (choices : List String) : String :=
  s!"invalid choice: {quoted value} (choose from " ++
    ", ".intercalate (choices.map quoted) ++ ")"

def withoutBreak (cs : List Char) : List Char :=
  if cs.getLast? = some '\n' then cs.dropLast else cs

/-- Whether a text is a negative number. A line break may follow it. -/
def isNegativeNumber (cs : List Char) : Bool :=
  let isDecimal (c : Char) : Bool := (decimalValue? c).isSome
  match withoutBreak cs with
  | '-' :: ds =>
    match ds.dropWhile isDecimal with
    | [] => !ds.isEmpty
    | '.' :: places => !places.isEmpty && places.all isDecimal
    | _ => false
  | _ => false

namespace Usage

variable {κ : Type}

def named (u : Usage κ) : List (String × Opt κ) :=
  u.options.flatMap fun o => o.names.map fun n => (n, o)

def option? (u : Usage κ) (name : String) : Option (Opt κ) := u.named.lookup name

/-- What stands after the first `=`, if there is one. -/
def attached (cs : List Char) : Option (List Char) :=
  if cs.contains '=' then some ((cs.dropWhile (· != '=')).drop 1) else none

/-- What a long option may mean: the options whose names start like it. -/
def longMeanings (u : Usage κ) (cs : List Char) : List (String × Role κ) :=
  let start := cs.takeWhile (· != '=')
  u.named.filterMap fun (name, o) =>
    if start.isPrefixOf name.toList then some (name, .option o name (attached cs)) else none

/-- What a short option may mean: an option with a value or with further options joined to it, or
the options whose names start like it. -/
def shortMeanings (u : Usage κ) (cs : List Char) : List (String × Role κ) :=
  u.named.filterMap fun (name, o) =>
    if name.toList = cs.take 2 then some (name, .option o name (some (cs.drop 2)))
    else if cs.isPrefixOf name.toList then some (name, .option o name none)
    else none

/-- What an argument that starts with `-` is. -/
def dashedRole (u : Usage κ) (arg : String) : Except Stop (Role κ) :=
  let cs := arg.toList
  let start := String.ofList (cs.takeWhile (· != '='))
  match u.option? arg, u.option? start with
  | some o, _ => .ok (.option o arg none)
  | none, some o => .ok (.option o start (attached cs))
  | none, none =>
    if cs.length = 1 then .ok .operand
    else
      let long := cs.drop 1 |>.head? |>.any (· == '-')
      match if long then u.longMeanings cs else u.shortMeanings cs with
      | [(_, role)] => .ok role
      | [] =>
        if isNegativeNumber cs || cs.contains ' ' then .ok .operand else .ok .unknownOption
      | meanings =>
        .error (.refused u.program
          (s!"ambiguous option: {arg} could match " ++
            ", ".intercalate (meanings.map Prod.fst)))

def role (u : Usage κ) (arg : String) : Except Stop (Role κ) :=
  if arg.toList.head? = some '-' then u.dashedRole arg else .ok .operand

def roles (u : Usage κ) : List String → Except Stop (List (String × Role κ))
  | [] => .ok []
  | arg :: args =>
    if arg = "--" then .ok ((arg, .divider) :: args.map fun a => (a, .operand))
    else do
      let r ← u.role arg
      let rs ← u.roles args
      return (arg, r) :: rs

/-! ## Options -/

def nextValue (u : Usage κ) (o : Opt κ) :
    List (String × Role κ) → Except Stop (Option String × List (String × Role κ))
  | (value, .operand) :: args => .ok (some value, args)
  | _ => .error (.refused u.program (o.complaint "expected one argument"))

/-- The options that an argument stands for, and the arguments after it and its value. What is
written together with an option that takes no value are further options; a long option has none. -/
def expand (u : Usage κ) : Nat → Opt κ → String → Option (List Char) → List (String × Role κ) →
    Except Stop (List (Opt κ × Option String) × List (String × Role κ))
  | 0, _, _, _, args => .ok ([], args)
  | n + 1, o, name, attached, args =>
    match attached, o.takesValue with
    | none, true => do
      let (value, args) ← u.nextValue o args
      return ([(o, value)], args)
    | none, false => .ok ([(o, none)], args)
    | some text, true => .ok ([(o, some (String.ofList text))], args)
    | some text, false =>
      let isLong := (name.toList.drop 1).head?.any (· == '-')
      let next := text.head?.bind fun c =>
        if isLong then none
        else
          let name := String.ofList ['-', c]
          (u.option? name).map fun o => (name, o)
      match next with
      | some (name, next) => do
        let rest := text.drop 1
        let (options, args) ←
          u.expand n next name (if rest.isEmpty then none else some rest) args
        return ((o, none) :: options, args)
      | none =>
        .error (.refused u.program
          (o.complaint s!"ignored explicit argument {quoted (String.ofList text)}"))

/-- Takes options one after the other. The value `--` is none. -/
def take (u : Usage κ) (g : Given κ) : List (Opt κ × Option String) → Except Stop (Given κ)
  | [] => .ok g
  | (o, value) :: options =>
    if u.isHelp o.key then .error .help
    else
      match value.filter (· != "--") with
      | some v =>
        if o.choices.isEmpty || o.choices.contains v then
          u.take { g with options := g.options ++ [(o.key, some v)] } options
        else .error (.refused u.program (o.complaint (invalidChoice v o.choices)))
      | none => u.take { g with options := g.options ++ [(o.key, none)] } options

/-! ## Operands -/

def isOperand (arg : String × Role κ) : Bool :=
  match arg.2 with
  | .operand => true
  | _ => false

def isDivider (arg : String × Role κ) : Bool :=
  match arg.2 with
  | .divider => true
  | _ => false

def isPlain (arg : String × Role κ) : Bool := isOperand arg || isDivider arg

/-- The number of arguments at the front that are taken as operands. -/
def operandCount? (kind : Operands) (args : List (String × Role κ)) : Option Nat :=
  let dividers := args.takeWhile isDivider
  match args.drop dividers.length with
  | [] => none
  | arg :: rest =>
    if isOperand arg then
      some (dividers.length + 1 +
        match kind with
        | .one => (rest.takeWhile isDivider).length
        | .many => (rest.takeWhile isPlain).length
        | .rest => rest.length)
    else none

/-- The operands in the arguments that are taken as such. The first `--` is none, unless everything
is taken. -/
def operandsIn (kind : Operands) (args : List String) : List String :=
  if kind = .rest then args else args.erase "--"

def readRoles (u : Usage κ) : Nat → Given κ → List (String × Role κ) → Except Stop (Given κ)
  | 0, g, _ => .ok g
  | n + 1, g, args =>
    match args with
    | [] => .ok g
    | (arg, .unknownOption) :: args => u.readRoles n { g with leftOver := g.leftOver ++ [arg] } args
    | (_, .option o name attached) :: args => do
      let (options, args) ← u.expand ((attached.getD []).length + 1) o name attached args
      u.readRoles n (← u.take g options) args
    | args =>
      match g.operands, operandCount? u.operands args with
      | none, some count =>
        let operands := operandsIn u.operands ((args.take count).map Prod.fst)
        u.readRoles n { g with operands := some operands } (args.drop count)
      | _, _ =>
        let plain := args.takeWhile isPlain
        u.readRoles n { g with leftOver := g.leftOver ++ plain.map Prod.fst }
          (args.drop plain.length)

/-- Reads arguments. Operands must be given. -/
def read (u : Usage κ) (args : List String) : Except Stop (Given κ × List String) := do
  let g ← u.readRoles (args.length + 1) {} (← u.roles args)
  match g.operands with
  | some operands => return (g, operands)
  | none =>
    .error (.refused u.program s!"the following arguments are required: {u.operandName}")

end Usage

end CommandLine

end RaisingEffects
