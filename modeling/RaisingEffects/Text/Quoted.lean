import RaisingEffects.Text.Printable

/-!
# Quoted texts

A text as messages show it: in quotes, with the characters escaped that would not be seen. Single
quotes are used unless the text has a single quote and no double quote.

Surrogates are no characters, but a text may be said to hold one. A character of the last plane
stands for it then, and is shown as the surrogate.
-/

namespace RaisingEffects

/-- The last `width` hexadecimal digits of `n`, in lower case. -/
def hexDigits (width n : Nat) : List Char :=
  match width with
  | 0 => []
  | w + 1 => hexDigits w (n / 16) ++ [Nat.digitChar (n % 16)]

namespace Quoted

def isSurrogate (n : Nat) : Bool := 0xd800 ≤ n && n ≤ 0xdfff

/-- The character that stands for what has a number: the surrogates are moved to the last plane. -/
def standIn (n : Nat) : Char := Char.ofNat (if isSurrogate n then 0x100000 + n else n)

/-- The escape of a character that is not shown as it is. -/
def escape (c : Char) : List Char :=
  let n := if isSurrogate (c.toNat - 0x100000) then c.toNat - 0x100000 else c.toNat
  if n < 0x100 then '\\' :: 'x' :: hexDigits 2 n
  else if n < 0x10000 then '\\' :: 'u' :: hexDigits 4 n
  else '\\' :: 'U' :: hexDigits 8 n

def char (q c : Char) : List Char :=
  if c = q ∨ c = '\\' then ['\\', c]
  else if c = '\n' then ['\\', 'n']
  else if c = '\r' then ['\\', 'r']
  else if c = '\t' then ['\\', 't']
  else if isPrintable c then [c]
  else escape c

def mark (cs : List Char) : Char := if '\'' ∈ cs ∧ '"' ∉ cs then '"' else '\''

end Quoted

def quoted (s : String) : String :=
  let cs := s.toList
  let q := Quoted.mark cs
  String.ofList (q :: cs.flatMap (Quoted.char q) ++ [q])

end RaisingEffects
