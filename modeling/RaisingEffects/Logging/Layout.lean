import RaisingEffects.Logging.Record
import RaisingEffects.Number.Decimal
import RaisingEffects.Text.Digit

/-!
# Layouts of fields

How a field of a record is written: as a text or in one of the forms of numbers, cut to a precision
and padded to a width. There are two ways to ask for a layout, which differ in what they allow.

* `PercentLayout.write?` is the layout after a percent sign, as in `%(levelname)-8s`.
* `BraceLayout.write?` is the layout in braces, after a colon.
-/

namespace RaisingEffects

namespace Logging

/-! ## Texts -/

/-- A text in quotes in which every character beyond the first 128 is escaped. -/
def quotedAscii (s : String) : String :=
  String.ofList ((quoted s).toList.flatMap fun c =>
    if c.toNat < 128 then [c] else Quoted.escape c)

/-- A field as a text: `s` writes it as it is, `r` shows its kind, `a` does so in the first 128
characters. -/
def Field.asText? (conversion : Char) (f : Field) : Option String :=
  match conversion with
  | 's' => some f.plain
  | 'r' => some f.shown
  | 'a' =>
    some (match f with
      | .one (.text s) => quotedAscii s
      | f => f.shown)
  | _ => none

/-! ## Numbers -/

def copies (n : Nat) (c : Char) : List Char := List.replicate n c

/-- The digits of a number in a base, at least `least` of them. -/
def digitsIn (base least n : Nat) : List Char :=
  let ds := Nat.toDigits base n
  copies (least - ds.length) '0' ++ ds

/-- Decimal places after a point. The point stands even without places if `point` says so. -/
def withPlaces (ds places : List Char) (point : Bool) : List Char :=
  if places.isEmpty && !point then ds else ds ++ '.' :: places

/-- The first `count` digits of a number, rounded to the nearest, and the exponent of the first. -/
def leadingDigits (count n : Nat) : List Char × Nat :=
  let ds := Nat.toDigits 10 n
  if ds.length ≤ count then (ds ++ copies (count - ds.length) '0', ds.length - 1)
  else
    let rounded := Nat.toDigits 10 (Double.roundDiv n (Double.tenTo (ds.length - count)))
    (rounded.take count, ds.length - 1 + (rounded.length - count))

def scientific (ds : List Char) (exponent : Nat) (point : Bool) : List Char :=
  withPlaces (ds.take 1) (ds.drop 1) point ++ 'e' :: '+' :: digitsIn 10 2 exponent

def withoutZeros (cs : List Char) : List Char := (cs.reverse.dropWhile (· == '0')).reverse

/-- A number in the shorter of the two forms, with `precision` digits. -/
def generalForm (precision n : Nat) (full : Bool) : List Char :=
  let count := max 1 precision
  let (ds, exponent) := leadingDigits count n
  let places := ds.drop (exponent + 1)
  if exponent < count then
    withPlaces (ds.take (exponent + 1)) (if full then places else withoutZeros places) full
  else
    let rest := ds.drop 1
    scientific (ds.take 1 ++ if full then rest else withoutZeros rest) exponent full

/-- A number with a point in one of the forms `f`, `e` and `g`, and `%`, which is in hundredths. -/
def pointForm? (form : Char) (precision n : Nat) (full : Bool) : Option (List Char) :=
  match form with
  | 'f' => some (withPlaces (Nat.toDigits 10 n) (copies precision '0') full)
  | 'e' =>
    let (ds, exponent) := leadingDigits (precision + 1) n
    some (scientific ds exponent full)
  | 'g' => some (generalForm precision n full)
  | '%' => some (withPlaces (Nat.toDigits 10 (100 * n)) (copies precision '0') full ++ ['%'])
  | _ => none

/-- A number in parts: what stands before its digits, and the digits. -/
structure NumberParts where
  mark : List Char := []
  digits : List Char

def capital (cs : List Char) : List Char := cs.map Char.toUpper

/-- A number in a form. The letter of the form in upper case makes all letters upper case; `full`
asks for the mark of the base, or for the point and all places. -/
def numberParts? (form : Char) (full : Bool) (precision : Option Nat) (n : Nat) :
    Option NumberParts :=
  let inBase (base : Nat) (letter : Char) : NumberParts :=
    { mark := if full then ['0', letter] else [], digits := digitsIn base (precision.getD 0) n }
  let p := precision.getD 6
  match form with
  | 'd' | 'i' | 'u' | 'n' => some { digits := digitsIn 10 (precision.getD 0) n }
  | 'b' => some (inBase 2 'b')
  | 'o' => some (inBase 8 'o')
  | 'x' => some (inBase 16 'x')
  | 'X' =>
    let parts := inBase 16 'X'
    some { parts with digits := capital parts.digits }
  | 'E' | 'F' | 'G' =>
    (pointForm? form.toLower p n full).map fun ds => { digits := capital ds }
  | form => (pointForm? form p n full).map fun ds => { digits := ds }

/-! ## Padding -/

inductive Align where
  | left
  | right
  | center
  /-- The padding stands between the sign of a number and its digits. -/
  | inside
deriving DecidableEq, Repr

/-- Pads a text, of which `head` is the sign, to a width. -/
def padded (align : Align) (fill : Char) (width : Nat) (head body : List Char) : List Char :=
  let missing := width - (head.length + body.length)
  match align with
  | .left => head ++ body ++ copies missing fill
  | .right => copies missing fill ++ head ++ body
  | .center => copies (missing / 2) fill ++ head ++ body ++ copies (missing - missing / 2) fill
  | .inside => head ++ copies missing fill ++ body

def signOf (plus blank : Bool) : List Char :=
  if plus then ['+'] else if blank then [' '] else []

/-! ## Layouts after a percent sign -/

structure PercentLayout where
  /-- The characters `-`, `+`, blank, `#` and `0` that are given. -/
  flags : List Char
  width : Nat
  precision : Option Nat
  conversion : Char
deriving DecidableEq, Repr

def PercentLayout.write? (l : PercentLayout) (f : Field) : Option (List Char) :=
  let has (c : Char) : Bool := l.flags.contains c
  let align : Align := if has '-' then .left else .right
  match f.asText? l.conversion with
  | some s =>
    let cs := s.toList
    some (padded align ' ' l.width [] (l.precision.elim cs cs.take))
  | none =>
    match l.conversion, f with
    | '%', _ => some ['%']
    | 'c', .one (.number n) => some (padded align ' ' l.width [] [Char.ofNat n])
    | 'c', .one (.text s) =>
      if s.length = 1 then some (padded align ' ' l.width [] s.toList) else none
    | conversion, .one (.number n) =>
      if conversion = 'b' || conversion = 'n' then none
      else
        (numberParts? conversion (has '#') l.precision n).map fun parts =>
          let head := signOf (has '+') (has ' ') ++ parts.mark
          if has '0' && !has '-' then padded .inside '0' l.width head parts.digits
          else padded align ' ' l.width head parts.digits
    | _, _ => none

/-! ## Layouts in braces -/

structure BraceLayout where
  fill : Char := ' '
  align : Option Align := none
  sign : Option Char := none
  /-- Whether the form of a number is asked for in full. -/
  full : Bool := false
  zero : Bool := false
  width : Nat := 0
  group : Option Char := none
  precision : Option Nat := none
  form : Option Char := none
deriving DecidableEq, Repr

namespace BraceLayout

def align? : Char → Option Align
  | '<' => some .left
  | '>' => some .right
  | '^' => some .center
  | '=' => some .inside
  | _ => none

/-- Splits off the first character if it passes a test. -/
def optional (test : Char → Bool) : List Char → Option Char × List Char
  | c :: cs => if test c then (some c, cs) else (none, c :: cs)
  | [] => (none, [])

/-- Splits off a number, in digits of any script. -/
def number (cs : List Char) : Option Nat × List Char :=
  let isDecimal (c : Char) : Bool := (decimalValue? c).isSome
  match (cs.takeWhile isDecimal).filterMap decimalValue? with
  | [] => (none, cs)
  | ds => (some (ds.foldl (fun n d => 10 * n + d) 0), cs.dropWhile isDecimal)

/-- Splits off a fill character and an alignment. -/
def alignment : List Char → Option Char × Option Align × List Char
  | c :: a :: cs =>
    match align? a, align? c with
    | some align, _ => (some c, some align, cs)
    | none, some align => (none, some align, a :: cs)
    | none, none => (none, none, c :: a :: cs)
  | [a] =>
    match align? a with
    | some align => (none, some align, [])
    | none => (none, none, [a])
  | [] => (none, none, [])

def read? (cs : List Char) : Option BraceLayout :=
  let (fill, align, cs) := alignment cs
  let (sign, cs) := optional (fun c => c == '+' || c == '-' || c == ' ') cs
  let (full, cs) := optional (· == '#') cs
  let (zero, cs) := if fill.isSome then (none, cs) else optional (· == '0') cs
  let (width, cs) := number cs
  let (group, cs) := optional (fun c => c == ',' || c == '_') cs
  let (precision, cs) : Option (Option Nat) × List Char := match cs with
    | '.' :: cs =>
      let (precision, cs) := number cs
      (precision.map some, cs)
    | cs => (some none, cs)
  match precision, cs with
  | none, _ => none
  | some precision, [] =>
    some { fill := fill.getD (if zero.isSome then '0' else ' '), align, sign, full := full.isSome,
           zero := zero.isSome, width := width.getD 0, group, precision }
  | some precision, [form] =>
    some { fill := fill.getD (if zero.isSome then '0' else ' '), align, sign, full := full.isSome,
           zero := zero.isSome, width := width.getD 0, group, precision, form := some form }
  | _, _ => none

/-- Digits with a mark between groups, the last of which have `size` digits. -/
def grouped (size : Nat) (mark : Char) (ds : List Char) : List Char :=
  (ds.zipIdx.flatMap fun (d, i) =>
    if i ≠ 0 && (ds.length - i) % size = 0 then [mark, d] else [d])

/-- The least number of digits that take up a width together with the marks between groups. -/
def groupedLength (size width : Nat) : Nat → Nat → Nat
  | 0, count => count
  | n + 1, count =>
    if count + (count - 1) / size < width then groupedLength size width n (count + 1) else count

def writeText? (l : BraceLayout) (s : String) : Option (List Char) :=
  if l.sign.isSome || l.full || l.group.isSome || l.align = some .inside ||
      !(l.form.getD 's' = 's') then none
  else
    let cs := s.toList
    some (padded (l.align.getD .left) l.fill l.width [] (l.precision.elim cs cs.take))

def writeNumber? (l : BraceLayout) (n : Nat) : Option (List Char) :=
  let form := l.form.getD 'd'
  let align := l.align.getD (if l.zero then .inside else .right)
  let isWhole := "dbnoxX".toList.contains form
  let size := if "boxX".toList.contains form then 4 else 3
  if form = 'c' then
    if l.sign.isSome || l.full || l.group.isSome || l.precision.isSome then none
    else some (padded align l.fill l.width [] [Char.ofNat n])
  else if form = 'i' || form = 'u' || isWhole && l.precision.isSome then none
  else if l.group = some ',' && size = 4 || l.group.isSome && form = 'n' then none
  else
    (numberParts? form l.full l.precision n).map fun parts =>
      let head := signOf (l.sign = some '+') (l.sign = some ' ') ++ parts.mark
      let whole := if isWhole then parts.digits else parts.digits.takeWhile Char.isDigit
      let rest := parts.digits.drop whole.length
      let digits := match l.group with
        | some mark =>
          let room := if align = .inside && l.fill = '0' then l.width - head.length - rest.length
            else 0
          let count := groupedLength size room room whole.length
          grouped size mark (copies (count - whole.length) '0' ++ whole) ++ rest
        | none => parts.digits
      padded align l.fill l.width head digits

def write? (l : BraceLayout) : Field → Option (List Char)
  | .one (.text s) => l.writeText? s
  | .one (.number n) => l.writeNumber? n
  | f => if l = {} then some f.plain.toList else none

end BraceLayout

end Logging

end RaisingEffects
