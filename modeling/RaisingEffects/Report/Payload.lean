import RaisingEffects.Text.Quoted

/-!
# Payloads

The data that reports are made of, and its text: records and lists have one item a line, indented
by two blanks a level, and everything but printable ASCII is escaped.
-/

namespace RaisingEffects

inductive Payload where
  | null
  | number (n : Nat)
  | text (s : String)
  | list (items : List Payload)
  | record (fields : List (String × Payload))

namespace Payload

def unit (n : Nat) : List Char := '\\' :: 'u' :: hexDigits 4 n

def char (c : Char) : List Char :=
  let n := c.toNat
  if c = '"' ∨ c = '\\' then ['\\', c]
  else if c = '\n' then ['\\', 'n']
  else if c = '\r' then ['\\', 'r']
  else if c = '\t' then ['\\', 't']
  else if c = '\x08' then ['\\', 'b']
  else if c = '\x0c' then ['\\', 'f']
  else if 0x20 ≤ n ∧ n ≤ 0x7e then [c]
  else if n < 0x10000 then unit n
  else unit (0xd800 + (n - 0x10000) / 0x400) ++ unit (0xdc00 + (n - 0x10000) % 0x400)

def quote (s : String) : String := String.ofList ('"' :: s.toList.flatMap char ++ ['"'])

def newline (level : Nat) : String := "\n" ++ String.ofList (List.replicate (2 * level) ' ')

mutual

/-- The text of a payload at the given level. -/
def render (level : Nat) : Payload → String
  | null => "null"
  | number n => toString n
  | text s => quote s
  | list [] => "[]"
  | list items =>
    "[" ++ ",".intercalate (renderItems (level + 1) items) ++ newline level ++ "]"
  | record [] => "\x7b\x7d"
  | record fields =>
    "\x7b" ++ ",".intercalate (renderFields (level + 1) fields) ++ newline level ++ "\x7d"

def renderItems (level : Nat) : List Payload → List String
  | [] => []
  | p :: ps => (newline level ++ render level p) :: renderItems level ps

def renderFields (level : Nat) : List (String × Payload) → List String
  | [] => []
  | (k, p) :: fs => (newline level ++ quote k ++ ": " ++ render level p) :: renderFields level fs

end

end Payload

end RaisingEffects
