import RaisingEffects.Number.Decimal

/-!
# The shortest text of a double

A double is written with the fewest decimal digits that read back as the same double; of two such
decimals of the same length, the nearer one.

* `Double.shortest` finds the digits.
* `Double.text` writes them: positionally while the exponent is at least -4 and below 16, with at
  least one digit after the point, and in scientific form beyond.
-/

namespace RaisingEffects

namespace Double

def digitCount (n : Nat) : Nat := (Nat.toDigits 10 n).length

/-- The number `p` for which the positive fraction `num / den` is at least `10 ^ (p - 1)` and below
`10 ^ p`. -/
def magnitude (num den : Nat) : Int :=
  if den ≤ num then digitCount (num / den)
  else 1 - digitCount ((den - 1) / num)

/-- The quotient of `num / den` by `10 ^ scale`, rounded down, and what is left, as a fraction of
the returned denominator. -/
def cut (num den : Nat) (scale : Int) : Nat × Nat × Nat :=
  match scale with
  | .ofNat k => (num / (den * tenTo k), num % (den * tenTo k), den * tenTo k)
  | .negSucc k => (num * tenTo (k + 1) / den, num * tenTo (k + 1) % den, den)

/-- The decimal with the given scale that is nearest to `num / den` among those of its two
neighbours that read back as `d`; of two equally near ones, the even one. -/
def neighbour (d : Double) (num den : Nat) (scale : Int) : Option Decimal :=
  let (q, r, unit) := cut num den scale
  let below : Decimal := ⟨q, scale⟩
  let above : Decimal := ⟨q + 1, scale⟩
  let low := decide (ofDecimal false below = d)
  let high := decide (ofDecimal false above = d)
  if low && high then
    if 2 * r < unit ∨ 2 * r = unit ∧ q % 2 = 0 then some below else some above
  else if low then some below
  else if high then some above
  else none

/-- Tries decimals with more and more digits. -/
def search (d : Double) (num den : Nat) (top : Int) : Nat → Nat → Decimal
  | 0, digits => ⟨(cut num den (top - digits)).1, top - digits⟩
  | n + 1, digits =>
    match neighbour d num den (top - digits) with
    | some decimal => decimal
    | none => search d num den top n (digits + 1)

/-- The shortest decimal that reads back as the positive number `mantissa * 2 ^ exponent`. Seventeen
digits always suffice. -/
def shortest (mantissa : Nat) (exponent : Int) : Decimal :=
  let (num, den) :=
    match exponent with
    | .ofNat k => (mantissa * twoTo k, 1)
    | .negSucc k => (mantissa, twoTo (k + 1))
  search (.finite false mantissa exponent) num den (magnitude num den) 17 1

def trimZeros (ds : List Char) : List Char := (ds.reverse.dropWhile (· == '0')).reverse

def zeros (n : Nat) : List Char := List.replicate n '0'

/-- The text of `0.ds * 10 ^ top`, where the first digit is not zero. -/
def layout (ds : List Char) (top : Int) : List Char :=
  if -4 < top ∧ top ≤ 0 then '0' :: '.' :: zeros (-top).toNat ++ ds
  else if 0 < top ∧ top ≤ 16 then
    let n := top.toNat
    if n < ds.length then ds.take n ++ '.' :: ds.drop n
    else ds ++ zeros (n - ds.length) ++ ['.', '0']
  else
    let e := top - 1
    let digits := Nat.toDigits 10 e.natAbs
    let places := ds.drop 1
    ds.take 1 ++ (if places.isEmpty then [] else '.' :: places) ++
      'e' :: (if e < 0 then '-' else '+') :: zeros (2 - digits.length) ++ digits

def text (d : Double) : String :=
  let sign (negative : Bool) (s : List Char) := String.ofList (if negative then '-' :: s else s)
  match d with
  | .nan => "nan"
  | .infinite negative => sign negative ['i', 'n', 'f']
  | .finite negative 0 _ => sign negative ['0', '.', '0']
  | .finite negative mantissa exponent =>
    let decimal := shortest mantissa exponent
    let digits := Nat.toDigits 10 decimal.digits
    sign negative (layout (trimZeros digits) (digits.length + decimal.scale))

end Double

end RaisingEffects
