import RaisingEffects.Number.Decimal
import RaisingEffects.Text.Digit
import RaisingEffects.Text.Quoted

/-!
# Numerals

Numerals are written in the decimal digits of any script. A digit that is not decimal, such as a
superscript, makes a numeral unreadable, and an integer has at most `maxDigits` digits.

* `Numeral.int` reads an integer, `Numeral.decimal` a number with a point.
* `Numeral.inBase` and `Numeral.double` read integers in any base and numbers in any form, with
  blanks around them.
-/

namespace RaisingEffects

inductive NumeralFault where
  /-- An integer has too many digits: `count` of them before anything else. -/
  | tooLong (count : Nat)
  /-- An integer has a digit that is not decimal. -/
  | notInteger (text : String)
  | notInBase (base : Nat) (text : String)
  /-- A number with a point has a digit that is not decimal. -/
  | notDecimal (text : String)
  | unwritable
deriving DecidableEq, Repr

namespace Numeral

def maxDigits : Nat := 4300

def isDecimal (c : Char) : Bool := (decimalValue? c).isSome

/-- The values of the decimal digits at the front, and what follows them. -/
def leading (cs : List Char) : List Nat × List Char :=
  ((cs.takeWhile isDecimal).filterMap decimalValue?, cs.dropWhile isDecimal)

/-- The number that decimal digits stand for. -/
def value (ds : List Nat) : Nat := ds.foldl (fun n d => 10 * n + d) 0

def int (text : String) : Except NumeralFault Nat :=
  let (ds, rest) := leading text.toList
  if maxDigits < ds.length then .error (.tooLong ds.length)
  else if rest.isEmpty then .ok (value ds)
  else .error (.notInteger text)

def decimal (text : String) : Except NumeralFault Decimal :=
  match leading text.toList with
  | (whole, '.' :: rest) =>
    match leading rest with
    | (places, []) => .ok ⟨value (whole ++ places), -places.length⟩
    | _ => .error (.notDecimal text)
  | _ => .error (.notDecimal text)

def trimmed (text : String) : List Char :=
  ((text.toList.dropWhile isBlank).reverse.dropWhile isBlank).reverse

def signed : List Char → Bool × List Char
  | '-' :: cs => (true, cs)
  | '+' :: cs => (false, cs)
  | cs => (false, cs)

def digit? (c : Char) : Option Nat :=
  let letter := c.toLower
  if 'a' ≤ letter && letter ≤ 'f' then some (letter.toNat - 'a'.toNat + 10) else decimalValue? c

/-- The letter that may stand for a base, after a zero in front of the digits. -/
def baseLetter? (base : Nat) : Option Char := [(2, 'b'), (8, 'o'), (16, 'x')].lookup base

def inBase (base : Nat) (text : String) : Except NumeralFault Int :=
  let (negative, cs) := signed (trimmed text)
  let digits := match cs with
    | '0' :: c :: rest => if baseLetter? base = some c.toLower then rest else cs
    | cs => cs
  let values := digits.filterMap digit?
  if base = 10 && maxDigits < (digits.takeWhile isDecimal).length then
    .error (.tooLong (digits.takeWhile isDecimal).length)
  else if digits.isEmpty || values.length < digits.length || values.any (base ≤ ·) then
    .error (.notInBase base text)
  else
    let n : Nat := values.foldl (fun n d => base * n + d) 0
    .ok (if negative then -n else n)

def exponent? : List Char → Option Int
  | [] => some 0
  | c :: cs =>
    let (negative, cs) := signed cs
    match leading cs with
    | (d :: ds, []) =>
      if c.toLower = 'e' then some (if negative then -value (d :: ds) else value (d :: ds))
      else none
    | _ => none

def scientific? (cs : List Char) : Option Decimal :=
  let (whole, rest) := leading cs
  let (places, rest) := match rest with
    | '.' :: rest => leading rest
    | rest => ([], rest)
  if whole.isEmpty && places.isEmpty then none
  else (exponent? rest).map fun e => ⟨value (whole ++ places), e - places.length⟩

def double (text : String) : Except NumeralFault Double :=
  let (negative, cs) := signed (trimmed text)
  let word := String.ofList (cs.map Char.toLower)
  if word = "inf" ∨ word = "infinity" then .ok (.infinite negative)
  else if word = "nan" then .ok .nan
  else
    match scientific? cs with
    | some d => .ok (.ofDecimal negative d)
    | none => .error (.notDecimal text)

end Numeral

namespace NumeralFault

/-- The wording of a fault. An unreadable integer is shown up to its first 200 characters. -/
def message : NumeralFault → String
  | tooLong count =>
    s!"Exceeds the limit ({Numeral.maxDigits} digits) for integer string conversion: value has " ++
      s!"{count} digits; use sys.set_int_max_str_digits() to increase the limit"
  | notInteger text =>
    "invalid literal for int() with base 10: " ++ String.ofList ((quoted text).toList.take 200)
  | notInBase base text =>
    s!"invalid literal for int() with base {base}: " ++
      String.ofList ((quoted text).toList.take 200)
  | notDecimal text => "could not convert string to float: " ++ quoted text
  | unwritable =>
    s!"Exceeds the limit ({Numeral.maxDigits} digits) for integer string conversion; use " ++
      "sys.set_int_max_str_digits() to increase the limit"

end NumeralFault

end RaisingEffects
