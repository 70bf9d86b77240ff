import RaisingEffects.Yaml.Value

/-!
# Plain scalars

A scalar without quotes is null, a truth value, a number or a moment if it is written like one, and
a text otherwise. Integers are binary (`0b11`), octal (`017`), hexadecimal (`0x1F`), decimal or in
base sixty (`1:30`). A number with a point needs a sign in its exponent: `1.0e+3`. Underscores may
stand between digits.

* `Scalar.value` is the value of a plain scalar.
* `Scalar.truth`, `Scalar.integer`, `Scalar.number` and `Scalar.moment` are the values of scalars
  that are said to be of a kind.
-/

namespace RaisingEffects

namespace Yaml

inductive Fault where
  | malformed
  | numeral (fault : NumeralFault)
  | noDigits (base : Nat)
  | noCharacter
  | moment (fault : MomentFault)
  | tooLarge
  /-- A word is said to be a truth value. -/
  | notTruth (word : String)
  | noNumber
  | notMoment
deriving DecidableEq, Repr

def Fault.message : Fault → String
  | malformed => "malformed document"
  | numeral f => f.message
  | noDigits base => s!"invalid literal for int() with base {base}: ''"
  | noCharacter => "chr() arg not in range(0x110000)"
  | moment fault => fault.message
  | tooLarge => "int too large to convert to float"
  | notTruth word => RaisingEffects.quoted word
  | noNumber => "string index out of range"
  | notMoment => "'NoneType' object has no attribute 'groupdict'"

/-- Whether a fault is one of a value that is written wrongly. -/
def Fault.isOfValue : Fault → Bool
  | tooLarge | notTruth _ | noNumber | notMoment => false
  | _ => true

namespace Scalar

def isDigit (c : Char) : Bool := '0' ≤ c && c ≤ '9'

def isPlace (c : Char) : Bool := isDigit c || c == '_'

def digitValue? (c : Char) : Option Nat :=
  if isDigit c then some (c.toNat - '0'.toNat)
  else if 'a' ≤ c && c ≤ 'f' then some (c.toNat - 'a'.toNat + 10)
  else if 'A' ≤ c && c ≤ 'F' then some (c.toNat - 'A'.toNat + 10)
  else none

/-- Whether characters are digits of a base, or underscores, and there is one. -/
def arePlaces (base : Nat) (cs : List Char) : Bool :=
  !cs.isEmpty && cs.all fun c => c == '_' || (digitValue? c).any (· < base)

def ofDigits (base : Nat) (cs : List Char) : Nat :=
  (cs.filterMap digitValue?).foldl (fun n d => base * n + d) 0

def sign : List Char → Bool × List Char
  | '-' :: cs => (true, cs)
  | '+' :: cs => (false, cs)
  | cs => (false, cs)

def signed (negative : Bool) (n : Nat) : Value := .int (if negative then -n else n)

def decimal (cs : List Char) : Except Fault Nat :=
  (Numeral.int (String.ofList (cs.filter isDigit))).mapError .numeral

/-- The parts after the first of a number in base sixty: each of them has one or two digits and is
below sixty. -/
def sixtieths? : List (List Char) → Option (List Nat)
  | [] => some []
  | [c] :: ps => if isDigit c then (sixtieths? ps).map (ofDigits 10 [c] :: ·) else none
  | [c, d] :: ps =>
    if '0' ≤ c && c ≤ '5' && isDigit d then (sixtieths? ps).map (ofDigits 10 [c, d] :: ·) else none
  | _ :: _ => none

/-- The number whose parts in base sixty follow a first one. -/
def ofSixtieths (first : Nat) (parts : List Nat) : Nat := parts.foldl (fun n p => 60 * n + p) first

/-- Whether characters start a decimal number that does not begin with zero. -/
def isCounting : List Char → Bool
  | c :: cs => '1' ≤ c && c ≤ '9' && cs.all isPlace
  | [] => false

/-- An integer without its sign: its value, if the characters are written like an integer. -/
def magnitude? (cs : List Char) : Option (Except Fault Nat) :=
  let inBase (base : Nat) (ds : List Char) : Option (Except Fault Nat) :=
    if !arePlaces base ds then none
    else if ds.all (· == '_') then some (.error (.noDigits base))
    else some (.ok (ofDigits base ds))
  match cs with
  | ['0'] => some (.ok 0)
  | '0' :: 'b' :: ds => inBase 2 ds
  | '0' :: 'x' :: ds => inBase 16 ds
  | '0' :: ds => if arePlaces 8 ds then some (.ok (ofDigits 8 ds)) else none
  | _ =>
    match cs.splitOn ':' with
    | [whole] => if isCounting whole then some (decimal whole) else none
    | whole :: parts =>
      if isCounting whole then
        (sixtieths? parts).map fun ps => (decimal whole).map fun n => ofSixtieths n ps
      else none
    | [] => none

def exponent? : List Char → Option Int
  | [] => some 0
  | e :: s :: ds =>
    if (e == 'e' || e == 'E') && !ds.isEmpty && ds.all isDigit then
      if s == '-' then some (-ofDigits 10 ds)
      else if s == '+' then some (ofDigits 10 ds)
      else none
    else none
  | [_] => none

/-- A whole part, decimal places and an exponent as an exact number. -/
def exact (whole places : List Char) (exponent : Int) : Decimal :=
  let places := places.filter isDigit
  ⟨ofDigits 10 (whole ++ places), exponent - places.length⟩

/-- The sum of parts in base sixty, the last one first, where `weight` is that of the first part.
Each step is rounded. -/
def sumSixtieths (sum : Double) (weight : Nat) : List Double → Except Fault Double
  | [] => .ok sum
  | part :: parts =>
    match Double.ofFraction false weight 1 with
    | .finite s m e =>
      sumSixtieths (sum.add (part.mul (.finite s m e))) (60 * weight) parts
    | _ => .error .tooLarge

/-- A number with a point but without its sign. -/
def pointed? (cs : List Char) : Option (Except Fault Double) :=
  let (whole, rest) := (cs.takeWhile (· != '.'), (cs.dropWhile (· != '.')).drop 1)
  let places := rest.takeWhile isPlace
  let tail := rest.dropWhile isPlace
  match whole.splitOn ':' with
  | [w] =>
    if (w.head?.any isDigit && w.all isPlace) && cs.contains '.' then
      (exponent? tail).map fun e => .ok (.ofDecimal false (exact w places e))
    else none
  | w :: parts =>
    if (w.head?.any isDigit && w.all isPlace) && cs.contains '.' && tail.isEmpty then
      (sixtieths? parts).map fun _ =>
        let part (cs : List Char) := Double.ofDecimal false (exact cs [] 0)
        let last := Double.ofDecimal false (exact (parts.getLastD w) places 0)
        sumSixtieths (.nearest 0 1) 1 (last :: ((w :: parts).dropLast.map part).reverse)
    else none
  | [] => none

def withSign (negative : Bool) : Double → Double
  | .finite _ m e => .finite negative m e
  | .infinite _ => .infinite negative
  | .nan => .nan

/-- A number with a point, if the characters are written like one. A sign needs a digit before the
point. -/
def float? (cs : List Char) : Option (Except Fault Double) :=
  let (negative, unsigned) := sign cs
  let word := String.ofList unsigned
  if word = ".inf" ∨ word = ".Inf" ∨ word = ".INF" then some (.ok (.infinite negative))
  else
    match cs with
    | '.' :: rest =>
      let word := String.ofList rest
      if word = "nan" ∨ word = "NaN" ∨ word = "NAN" then some (.ok .nan)
      else if rest.head?.any isDigit then
        (exponent? (rest.dropWhile isPlace)).map fun e =>
          .ok (.ofDecimal false (exact [] (rest.takeWhile isPlace) e))
      else none
    | _ => (pointed? unsigned).map fun d => d.map (withSign negative)

def bool? (word : String) : Option Bool :=
  if word ∈ ["yes", "Yes", "YES", "true", "True", "TRUE", "on", "On", "ON"] then some true
  else if word ∈ ["no", "No", "NO", "false", "False", "FALSE", "off", "Off", "OFF"] then some false
  else none

def isNull (word : String) : Bool := word ∈ ["", "~", "null", "Null", "NULL"]

/-- The value of a plain scalar. The marks of a default value and of a merge are no values. -/
def value (word : String) : Except Fault Value :=
  let cs := word.toList
  if isNull word then .ok .null
  else if word = "=" ∨ word = "<<" then .error .malformed
  else
    match bool? word, float? cs, magnitude? (sign cs).2, Moment.read? cs with
    | some b, _, _, _ => .ok (.bool b)
    | _, some d, _, _ => d.map .float
    | _, _, some n, _ => n.map (signed (sign cs).1)
    | _, _, _, some m => (m.map .moment).mapError .moment
    | _, _, _, _ => .ok (.text word)

/-! ## Scalars of a given kind -/

/-- The truth value that a text is said to be. -/
def truth (text : String) : Except Fault Value :=
  let word := String.ofList (text.toList.map Char.toLower)
  match bool? word with
  | some b => .ok (.bool b)
  | none => .error (.notTruth word)

/-- A text without underscores and without its sign, and whether that is a minus. Something must be
left. -/
def unsigned (text : String) : Except Fault (Bool × List Char) :=
  let cs := text.toList.filter (· != '_')
  if cs.isEmpty then .error .noNumber else .ok (sign cs)

def integer (text : String) : Except Fault Value := do
  let (negative, cs) ← unsigned text
  let inBase (base : Nat) (cs : List Char) : Except Fault Int :=
    (Numeral.inBase base (String.ofList cs)).mapError .numeral
  let n ← show Except Fault Int from match cs with
    | [] => .error .noNumber
    | '0' :: 'b' :: ds => inBase 2 ds
    | '0' :: 'x' :: ds => inBase 16 ds
    | ['0'] => .ok 0
    | '0' :: _ => inBase 8 cs
    | _ => ((cs.splitOn ':').mapM (inBase 10)).map (·.foldl (fun n p => 60 * n + p) 0)
  return .int (if negative then -n else n)

def number (text : String) : Except Fault Value := do
  let (negative, cs) ← unsigned (String.ofList (text.toList.map Char.toLower))
  let word := String.ofList cs
  let part (cs : List Char) : Except Fault Double :=
    (Numeral.double (String.ofList cs)).mapError .numeral
  let d ←
    if word = ".inf" then .ok (.infinite false)
    else if word = ".nan" then .ok .nan
    else
      match cs.splitOn ':' with
      | [whole] => part whole
      | parts => do sumSixtieths (.nearest 0 1) 1 (← parts.mapM part).reverse
  return .float (if negative then d.negate else d)

def moment (text : String) : Except Fault Value :=
  match Moment.read? text.toList with
  | some m => (m.map .moment).mapError .moment
  | none => .error .notMoment

end Scalar

end Yaml

end RaisingEffects
