import RaisingEffects.Logging.Settings

/-!
# References in settings

A text in settings may stand for another value: `ext://logging.INFO` for something that the program
knows, `cfg://loggers.raisecheck.level` for another part of the settings. References are followed in
the settings, in their sections, in the entries of sections and in what those hold. What is nested
deeper is taken as it is written, and so are references that lead nowhere.

* `Reference.read?` reads a reference.
* `followReferences` puts the values that references stand for in their places.
-/

namespace RaisingEffects

namespace Logging

inductive Step where
  | name (s : String)
  | number (n : Nat)
deriving DecidableEq, Repr

inductive Reference where
  /-- Something that the program knows under a name. -/
  | known (name : String)
  | path (steps : List Step)
deriving DecidableEq, Repr

namespace Step

def isNamePart (c : Char) : Bool := isLetter c || isNumeral c || c == '_'

def name? (cs : List Char) : Option (String × List Char) :=
  let cs := cs.dropWhile isBlank
  match cs.takeWhile isNamePart with
  | [] => none
  | word => some (String.ofList word, (cs.dropWhile isNamePart).dropWhile isBlank)

/-- The step that a name in brackets stands for. -/
def inBrackets (s : String) : Step :=
  if s.toList.all Char.isDigit then number (Nat.ofDigitChars 10 s.toList 0) else name s

/-- Reads steps, each of them a name after a point or in brackets, from at most `n` characters. -/
def readAll? : Nat → List Char → Option (List Step)
  | _, [] => some []
  | 0, _ => none
  | n + 1, '.' :: cs => do
    let (s, cs) ← name? cs
    return name s :: (← readAll? n cs)
  | n + 1, '[' :: cs => do
    match ← name? cs with
    | (s, ']' :: cs) => return inBrackets s :: (← readAll? n (cs.dropWhile isBlank))
    | _ => none
  | _, _ => none

def from? (v : Value) : Step → Option Value
  | name s =>
    match v with
    | .map es _ => Mapping.get? s es
    | _ => none
  | number n =>
    match v with
    | .map es _ => (es.find? fun e => e.1.sameKey (.int n)).map Prod.snd
    | .list vs => vs[n]?
    | _ => none

end Step

namespace Reference

def read? (s : String) : Option Reference :=
  match s.toList with
  | 'e' :: 'x' :: 't' :: ':' :: '/' :: '/' :: cs => some (known (String.ofList cs))
  | 'c' :: 'f' :: 'g' :: ':' :: '/' :: '/' :: cs => do
    let (s, cs) ← Step.name? cs
    return path (.name s :: (← Step.readAll? cs.length cs))
  | _ => none

/-- The values of what the program knows: the levels and a format. Streams and kinds of handlers are
no values. -/
def knownValue? (name : String) : Option Value :=
  if name = "logging.BASIC_FORMAT" then some (.text "%(levelname)s:%(name)s:%(message)s")
  else (levels.find? fun l => name = "logging." ++ l.1).map fun l => .int l.2

/-- The value that a value stands for, if at most `n` references lead to it. -/
def follow? (settings : Mapping) : Nat → Value → Option Value
  | 0, _ => none
  | n + 1, .text s =>
    match read? s with
    | none => some (.text s)
    | some (known name) => some ((knownValue? name).getD (.text s))
    | some (path steps) =>
      steps.foldlM (fun v step => (step.from? v).bind (follow? settings n)) (.map settings)
  | _, v => some v

end Reference

mutual

/-- The number of texts in a value. -/
def countTexts : Value → Nat
  | .text _ => 1
  | .list vs => countTextsOf vs
  | .map es _ => countTextsIn es
  | _ => 0

def countTextsOf : List Value → Nat
  | [] => 0
  | v :: vs => countTexts v + countTextsOf vs

def countTextsIn : List (Value × Value) → Nat
  | [] => 0
  | (_, v) :: es => countTexts v + countTextsIn es

end

/-- Follows the references in a value, in mappings up to the given depth. -/
def followIn (settings : Mapping) : Nat → Value → Value
  | 0, v => v
  | depth + 1, v =>
    match (Reference.follow? settings (countTextsIn settings + 1) v).getD v with
    | .map es _ => .map (es.map fun (k, v) => (k, followIn settings depth v))
    | v => v

/-- Settings with the values that references stand for. -/
def followReferences (settings : Mapping) : Mapping :=
  settings.map fun (k, v) => (k, followIn settings 3 v)

end Logging

end RaisingEffects
