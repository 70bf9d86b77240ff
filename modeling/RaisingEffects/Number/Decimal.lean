/-!
# Decimals and doubles

A number written in decimal is exact. A `Double` is a binary number with 53 significant bits and a
bounded exponent, and `Double.ofDecimal` is the one nearest to a decimal, the even one of two
that are equally near. `Double.add` and `Double.mul` round the exact result in the same way.
-/

namespace RaisingEffects

/-- The exact number `digits * 10 ^ scale`. -/
structure Decimal where
  digits : Nat
  scale : Int
deriving DecidableEq, Repr

/-- A binary floating-point number of 64 bits: `mantissa * 2 ^ exponent` with a sign, where the
mantissa has at most 53 bits and the exponent lies between -1074 and 971; or no finite number. -/
inductive Double where
  | finite (negative : Bool) (mantissa : Nat) (exponent : Int)
  | infinite (negative : Bool)
  | nan
deriving DecidableEq, Repr

namespace Double

def twoTo (k : Nat) : Nat := Nat.pow 2 k

def tenTo (k : Nat) : Nat := Nat.pow 10 k

def minExponent : Int := -1074

def maxExponent : Int := 971

/-- The quotient rounded to the nearest number, to the even one of two. -/
def roundDiv (num den : Nat) : Nat :=
  let q := num / den
  let r := num % den
  if 2 * r < den then q
  else if den < 2 * r then q + 1
  else if q % 2 = 0 then q else q + 1

/-- Numerator and denominator of `num / (den * 2 ^ e)`. -/
def scaleBy (num den : Nat) (e : Int) : Nat × Nat :=
  match e with
  | .ofNat k => (num, den * twoTo k)
  | .negSucc k => (num * twoTo (k + 1), den)

def ofFraction (negative : Bool) (num den : Nat) : Double :=
  -- The quotient has 53 or 54 bits at this exponent, or fewer at the least one.
  let low := max minExponent ((num.log2 : Int) - den.log2 - 53)
  let fit := scaleBy num den low
  let e := if fit.1 / fit.2 < twoTo 53 then low else low + 1
  let (n, d) := scaleBy num den e
  let m := roundDiv n d
  let (m, e) := if m = twoTo 53 then (twoTo 52, e + 1) else (m, e)
  if maxExponent < e then .infinite negative else .finite negative m e

/-- The double nearest to a decimal. Decimals beyond the range of doubles are told apart by the
number of their digits. -/
def ofDecimal (negative : Bool) (d : Decimal) : Double :=
  let size : Int := (Nat.toDigits 10 d.digits).length + d.scale
  if d.digits = 0 ∨ size < -330 then .finite negative 0 minExponent
  else if 330 < size then .infinite negative
  else
    match d.scale with
    | .ofNat k => ofFraction negative (d.digits * tenTo k) 1
    | .negSucc k => ofFraction negative d.digits (tenTo (k + 1))

/-- The absolute value of a finite number as a fraction. -/
def fraction? : Double → Option (Nat × Nat)
  | .finite _ m (.ofNat k) => some (m * twoTo k, 1)
  | .finite _ m (.negSucc k) => some (m, twoTo (k + 1))
  | _ => none

/-- The double nearest to the fraction `num / den`, which may be zero. -/
def nearest (num den : Nat) : Double :=
  if num = 0 then .finite false 0 minExponent else ofFraction false num den

def add (a b : Double) : Double :=
  match a.fraction?, b.fraction? with
  | some (m, d), some (n, e) => nearest (m * e + n * d) (d * e)
  | _, _ => .infinite false

/-- The product of two numbers that are not negative, of which the second is not zero. -/
def mul (a b : Double) : Double :=
  match a.fraction?, b.fraction? with
  | some (m, d), some (n, e) => nearest (m * n) (d * e)
  | _, _ => .infinite false

def negate : Double → Double
  | finite s m e => finite (!s) m e
  | infinite s => infinite (!s)
  | nan => nan

/-- The 64 bits of a double: sign, exponent and fraction. -/
def bits : Double → Nat
  | .finite negative m e =>
    let unit := twoTo 52
    let magnitude := if m < unit then m else (e - minExponent + 1).toNat * unit + (m - unit)
    if negative then twoTo 63 + magnitude else magnitude
  | .infinite negative => if negative then twoTo 63 + 2047 * twoTo 52 else 2047 * twoTo 52
  | .nan => 4095 * twoTo 51

end Double

end RaisingEffects
