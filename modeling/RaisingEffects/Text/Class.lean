/-!
# Classes of characters

A class of characters is given by the lengths of the runs of code points that are by turns outside
and inside it, the first run outside. `CharClass.has` decides membership by one pass that stops at
the run of the character, so the characters at the start of the code space are answered at once.
-/

namespace RaisingEffects

structure CharClass where
  runs : List Nat
deriving DecidableEq, Repr

namespace CharClass

/-- Membership of the code point `n` places on, where `inside` tells it of the first run. -/
def scan (n : Nat) (inside : Bool) : List Nat → Bool
  | [] => inside
  | r :: rs => if n < r then inside else scan (n - r) (!inside) rs

def has (k : CharClass) (c : Char) : Bool := scan c.toNat false k.runs

end CharClass

/-! ## Blank characters -/

/-- White space in the wide sense: the Unicode spaces and line separators, and the control
characters that separate words, lines or records. -/
def blanks : CharClass := ⟨[
  9, 5, 14, 5, 100, 1, 26, 1, 5599, 1, 2431, 11, 29, 2, 5, 1, 47, 1, 4000, 1]⟩

def isBlank (c : Char) : Bool := blanks.has c

end RaisingEffects
