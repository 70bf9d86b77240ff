import RaisingEffects.Effect.Basic
import RaisingEffects.Text.Quoted

/-!
# Records

What the program logs: a template with arguments for its marks `%s` and `%d`, a level, and the part
of the program that it comes from. The fields of a record can be named in formats.

* `Record.message` is the template with its arguments.
* `Record.field?` is the value of a field.
-/

namespace RaisingEffects

namespace Logging

def channelName : String := "raisecheck"

def levels : List (String × Int) :=
  [("CRITICAL", 50), ("FATAL", 50), ("ERROR", 40), ("WARNING", 30), ("WARN", 30), ("INFO", 20),
    ("DEBUG", 10), ("NOTSET", 0)]

def levelName (level : Nat) : String :=
  match levels.find? fun l => l.2 = (level : Int) with
  | some (name, _) => name
  | none => s!"Level {level}"

inductive Argument where
  | text (s : String)
  | number (n : Nat)
  | effect (e : Effect)
deriving DecidableEq, Repr

namespace Argument

def plain : Argument → String
  | text s => s
  | number n => toString n
  | effect e => e.text

/-- An argument on its own, written so that its kind can be seen. -/
def shown : Argument → String
  | text s => quoted s
  | number n => toString n
  | effect .nothrow => "NoThrow()"
  | effect (.raises type) => s!"TypedThrow(error_type={quoted type})"
  | effect .raisesAny => "BaseThrow()"

end Argument

structure Origin where
  part : String
  function : String
  line : Nat
deriving DecidableEq, Repr

structure Record where
  level : Nat
  channel : String
  origin : Origin
  template : String
  arguments : List Argument
deriving DecidableEq, Repr

/-- A template with arguments in the places of its marks. -/
def fillMarks : List Char → List Argument → List Char
  | '%' :: 's' :: cs, a :: as | '%' :: 'd' :: cs, a :: as => a.plain.toList ++ fillMarks cs as
  | c :: cs, as => c :: fillMarks cs as
  | [], _ => []

def Record.message (r : Record) : String :=
  String.ofList (fillMarks r.template.toList r.arguments)

inductive Field where
  | one (a : Argument)
  | several (as : List Argument)
  | nothing
  | other (shown : String)
deriving DecidableEq, Repr

namespace Field

def plain : Field → String
  | one a => a.plain
  | several as => "(" ++ ", ".intercalate (as.map Argument.shown) ++ ")"
  | nothing => "None"
  | other shown => shown

/-- A field on its own, written so that its kind can be seen. -/
def shown : Field → String
  | one a => a.shown
  | f => f.plain

/-- The element with the given number: one of several arguments, or a character of a text. -/
def element? (index : Nat) : Field → Option Field
  | several as => as[index]?.map one
  | one (.text s) => s.toList[index]?.map fun c => one (.text c.toString)
  | _ => none

end Field

def Record.fields (r : Record) : List (String × Field) :=
  let text (s : String) := Field.one (.text s)
  let number (n : Nat) := Field.one (.number n)
  [("name", text r.channel),
    ("msg", text r.template),
    ("args", .several r.arguments),
    ("levelname", text (levelName r.level)),
    ("levelno", number r.level),
    ("filename", text (r.origin.part ++ ".py")),
    ("module", text r.origin.part),
    ("exc_info", .nothing),
    ("exc_text", .nothing),
    ("stack_info", .nothing),
    ("lineno", number r.origin.line),
    ("funcName", text r.origin.function),
    ("threadName", text "MainThread"),
    ("processName", text "MainProcess"),
    ("message", text r.message)]

def Record.field? (r : Record) (name : String) : Option Field := r.fields.lookup name

end Logging

end RaisingEffects
