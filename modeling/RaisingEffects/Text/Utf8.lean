import RaisingEffects.Text.Quoted

/-!
# Texts of files

Files hold UTF-8. Every character has one encoding, the shortest; surrogates and numbers beyond the
last character have none. Lines may end in `\n`, `\r\n` or `\r`, and all ends are read as `\n`.

* `Utf8.decode` reads bytes as characters.
* `fileText` reads the text of a file.
-/

namespace RaisingEffects

namespace Utf8

/-- What is wrong with bytes that encode no character. -/
inductive Flaw where
  | start
  | continuation
  | cutShort
deriving DecidableEq, Repr

/-- Bytes that encode no character: `first` is the first of `count` bytes, after `position`
others. -/
structure Fault where
  flaw : Flaw
  position : Nat
  count : Nat
  first : UInt8
deriving DecidableEq, Repr

def Flaw.message : Flaw → String
  | start => "invalid start byte"
  | continuation => "invalid continuation byte"
  | cutShort => "unexpected end of data"

def Fault.message (f : Fault) : String :=
  let bytes :=
    if f.count = 1 then
      s!"byte 0x{String.ofList (hexDigits 2 f.first.toNat)} in position {f.position}"
    else s!"bytes in position {f.position}-{f.position + f.count - 1}"
  s!"'utf-8' codec can't decode {bytes}: {f.flaw.message}"

def continues (b : UInt8) : Bool := 0x80 ≤ b && b ≤ 0xbf

/-- Whether `b` can be the second byte of an encoding that starts with `a`. -/
def follows (a b : UInt8) : Bool :=
  continues b &&
    (if a = 0xe0 then 0xa0 ≤ b
    else if a = 0xed then b < 0xa0
    else if a = 0xf0 then 0x90 ≤ b
    else if a = 0xf4 then b < 0x90
    else true)

/-- The length of an encoding that starts with the byte. -/
def length? (b : UInt8) : Option Nat :=
  if b < 0x80 then some 1
  else if b < 0xc2 then none
  else if b < 0xe0 then some 2
  else if b < 0xf0 then some 3
  else if b < 0xf5 then some 4
  else none

/-- The number of bytes of an encoding of length `n` that are there, among those after the first
byte `a`. -/
def matching (a : UInt8) (n : Nat) : List UInt8 → Nat
  | [] => 1
  | b :: bs => if follows a b then 2 + ((bs.take (n - 2)).takeWhile continues).length else 1

def character (a : UInt8) (bs : List UInt8) : Char :=
  let lead :=
    if bs.length = 0 then a.toNat
    else if bs.length = 1 then a.toNat % 32
    else if bs.length = 2 then a.toNat % 16
    else a.toNat % 8
  Char.ofNat (bs.foldl (fun n b => n * 64 + b.toNat % 64) lead)

/-- Reads the bytes after `position` others. -/
def decodeFrom : Nat → Nat → List UInt8 → Except Fault (List Char)
  | _, _, [] => .ok []
  | 0, _, _ :: _ => .ok []
  | n + 1, position, a :: bs =>
    match length? a with
    | none => .error ⟨.start, position, 1, a⟩
    | some 1 => do return character a [] :: (← decodeFrom n (position + 1) bs)
    | some k =>
      let found := matching a k bs
      if found = k then do
        return character a (bs.take (k - 1)) ::
          (← decodeFrom n (position + k) (bs.drop (k - 1)))
      else if bs.length + 1 = found then .error ⟨.cutShort, position, found, a⟩
      else .error ⟨.continuation, position, found, a⟩

def decode (bytes : List UInt8) : Except Fault (List Char) := decodeFrom bytes.length 0 bytes

end Utf8

/-- Reads every end of a line as `\n`. -/
def unifyLines : List Char → List Char
  | [] => []
  | '\r' :: '\n' :: cs => '\n' :: unifyLines cs
  | '\r' :: cs => '\n' :: unifyLines cs
  | c :: cs => c :: unifyLines cs

def fileText (bytes : List UInt8) : Except Utf8.Fault String := do
  return String.ofList (unifyLines (← Utf8.decode bytes))

end RaisingEffects
