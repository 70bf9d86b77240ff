import RaisingEffects.Logging.Reference

/-!
# Handlers

A handler writes records to a stream or to a file, or holds them back and hands them to another
handler later.

* `Bound` is what decides whether a handler writes a record, and when it hands records on.
* `Formatter.ofMapping` and `Handler.ofMapping` read what settings say of formatters and handlers.
* `handlersOf` are the handlers that settings describe, `makingOrder` those in the order in which
  they are made.
-/

namespace RaisingEffects

structure LogFile where
  path : Path
  isNew : Bool
deriving DecidableEq, Repr

/-- What can be written to: the two streams of the program, and files. -/
inductive Stream where
  | out
  | err
  | file (f : LogFile)
deriving DecidableEq, Repr

namespace Logging

inductive LogFault where
  /-- A number is compared with something of another kind. -/
  | incomparable (kind : String)
  | noWriter
deriving DecidableEq, Repr

def LogFault.message : LogFault → String
  | incomparable kind => s!"'>=' not supported between instances of 'int' and '{kind}'"
  | noWriter => "emit must be implemented by Handler subclasses"

/-- What numbers are compared with. -/
inductive Bound where
  /-- Numbers from `n` on reach the bound. -/
  | least (n : Int)
  | never
  /-- Numbers cannot be compared with something of this kind. -/
  | incomparable (kind : String)
deriving DecidableEq, Repr

namespace Bound

def ofValue (v : Value) : Bound :=
  match v.fraction?, v with
  | some (n, k), _ => least (-(-n / Double.twoTo k))
  | none, .float (.infinite true) => least 0
  | none, .float _ => never
  | none, v => incomparable v.kindName

def isReached (n : Nat) : Bound → Except LogFault Bool
  | least m => .ok (m ≤ n)
  | never => .ok false
  | incomparable kind => .error (.incomparable kind)

end Bound

inductive Sink where
  | nowhere
  | stream (s : Stream)
  /-- Records are held back until their number reaches `capacity` or the level of one `release`.
  They go to the handler with the number `target` then. -/
  | handler (capacity release : Bound) (target : Option Nat)
  | refused
deriving DecidableEq, Repr

structure Handler where
  number : Nat
  sink : Sink := .nowhere
  /-- Whether a file is only opened once there is a record for it. -/
  isLazy : Bool := false
  /-- What the levels of the records that are written reach. -/
  level : Bound := .least 0
  formatter : Formatter := {}
  ending : String := "\n"
deriving DecidableEq, Repr

def Handler.line? (h : Handler) (r : Record) : Option String :=
  (h.formatter.line? r).map (· ++ h.ending)

/-! ## Formatters in settings -/

def styleOf : Option String → Style
  | some "\x7b" => .brace
  | some "$" => .dollar
  | _ => .percent

/-- The text for the first of some names that a mapping has. -/
def textOfFirst (m : Mapping) (names : List String) : Option String :=
  (names.find? m.has).bind (textIn m)

/-- Whether a mapping names what makes the thing that it describes. More can be set of it then. -/
def isMade (m : Mapping) : Bool := m.has "()"

def attributes (m : Mapping) : Mapping := m.nested "."

def Field.ofValue : Value → Field
  | .null => .nothing
  | .text s => .one (.text s)
  | .int (.ofNat n) => .one (.number n)
  | v => .other v.shown

def fieldsOf (m : Mapping) : List (String × Field) :=
  m.filterMap fun
    | (.text name, v) => some (name, .ofValue v)
    | _ => none

def Formatter.ofMapping (m : Mapping) : Formatter where
  style := styleOf (textIn m "style")
  format := (textOfFirst m (if isMade m then ["format", "fmt"] else ["format"])).getD ""
  time :=
    if isMade m && (attributes m).has "datefmt" then textIn (attributes m) "datefmt"
    else textIn m "datefmt"
  extra := if isMade m then fieldsOf (m.nested "defaults") else []

/-! ## Handlers in settings -/

/-- The name of the kind of a handler. What makes a handler may be referred to. -/
def kindOf (m : Mapping) : Option String :=
  if isMade m then
    (textIn m "()").map fun s =>
      match Reference.read? s with
      | some (.known name) => name
      | _ => s
  else textIn m "class"

/-- What a mapping sets, as an attribute or otherwise. -/
def setting? (m : Mapping) (name : String) : Option Value :=
  ((attributes m).get? name).or (m.get? name)

/-- The stream that a mapping names: the error stream if it names none. -/
def streamOf (m : Mapping) : Option Stream :=
  if (attributes m).has "stream" then none
  else
    match given? m "stream" with
    | none => some .err
    | some (.text "ext://sys.stderr") => some .err
    | some (.text "ext://sys.stdout") => some .out
    | _ => none

/-- The file that a mapping names. Lines are added to it unless it is to be written anew. -/
def fileOf (m : Mapping) : Option LogFile :=
  (textIn m "filename").map fun name =>
    { path := (Path.ofText name).collapsed
      isNew := (textIn m "mode").any fun mode => mode.toList.contains 'w' }

def fileKinds : List String :=
  ["logging.FileHandler", "logging.handlers.WatchedFileHandler",
    "logging.handlers.RotatingFileHandler", "logging.handlers.TimedRotatingFileHandler"]

def boundIn (m : Mapping) (name : String) : Option Bound := (setting? m name).map .ofValue

def handlerNumber? (handlers : Mapping) (key : Value) : Option Nat :=
  handlers.findIdx? fun e => e.1.sameKey key

def Sink.ofMapping (handlers m : Mapping) : Sink :=
  let capacity := (boundIn m "capacity").getD .never
  match kindOf m with
  | none => .nowhere
  | some "logging.StreamHandler" => (streamOf m).elim .nowhere .stream
  | some "logging._StderrHandler" => .stream .err
  | some "logging.handlers.MemoryHandler" =>
    let target := if (attributes m).has "target" then none else m.get? "target"
    .handler capacity ((boundIn m "flushLevel").getD (.least 40))
      (target.bind (handlerNumber? handlers))
  | some "logging.handlers.BufferingHandler" => .handler capacity .never none
  | some "logging.Handler" => .refused
  | some kind =>
    if fileKinds.contains kind then (fileOf m).elim .nowhere fun f => .stream (.file f)
    else .nowhere

/-- The formatter of a handler. As an attribute it is a format in braces. Nothing stands for the
message alone. -/
def formatterOf (formatters m : Mapping) : Formatter :=
  if (attributes m).has "formatter" then
    (textIn (attributes m) "formatter").elim {} fun format =>
      if format.isEmpty then {} else { style := .brace, format }
  else
    (((m.get? "formatter").filter holds).bind (mappingAt formatters)).elim {} Formatter.ofMapping

def Handler.ofMapping (settings : Mapping) (number : Nat) (m : Mapping) : Handler where
  number
  sink := .ofMapping (settings.nested "handlers") m
  isLazy := (m.get? "delay").any holds
  level := ((attributes m).get? "level").elim (.least ((levelIn m "level").getD 0)) .ofValue
  formatter := formatterOf (settings.nested "formatters") m
  ending := (textIn (attributes m) "terminator").getD "\n"

def Handler.opens? (h : Handler) : Option LogFile :=
  match h.sink with
  | .stream (.file f) => if h.isLazy then none else some f
  | _ => none

def handlersOf (settings : Mapping) : List Handler :=
  (settings.nested "handlers").zipIdx.map fun
    | ((_, .map m), number) => .ofMapping settings number m
    | (_, number) => { number }

/-- Whether a key comes no later than another one of its kind. -/
def keyLe : Value → Value → Bool
  | .text s, .text t => s ≤ t
  | v, w =>
    match v.fraction?, w.fraction? with
    | some x, some y => Value.fractionLe x y
    | _, _ => true

/-- Whether a handler can only be made after those that are made already. -/
def Handler.waits (h : Handler) (made : List Handler) : Bool :=
  match h.sink with
  | .handler _ _ (some target) => made.all fun t => t.number ≠ target
  | _ => false

/-- The handlers that settings describe, in the order in which they are made: by their keys, and
after all others if their target comes later. -/
def makingOrder (settings : Mapping) : List Handler :=
  let sorted := ((settings.nested "handlers").zip (handlersOf settings)).mergeSort
    fun a b => keyLe a.1.1 b.1.1
  let (made, waiting) : List Handler × List Handler := sorted.foldl
    (fun (made, waiting) (_, h) =>
      if h.waits made then (made, waiting ++ [h]) else (made ++ [h], waiting)) ([], [])
  made ++ waiting

/-- Numbers without those that come again. -/
def distinct : List Nat → List Nat
  | [] => []
  | n :: ns => n :: (distinct ns).filter (· != n)

/-- The handlers that settings give a channel, each of them once. -/
def handlersIn (settings channel : Mapping) : List Handler :=
  let numbers := ((channel.get? "handlers").elim [] partsOf).filterMap
    (handlerNumber? (settings.nested "handlers"))
  (distinct numbers).filterMap ((handlersOf settings)[·]?)

end Logging

end RaisingEffects
