import RaisingEffects.Parse.Clause

/-!
# The reader of a source

`Parse` reads tokens from left to right, keeps the names that are in scope, and notes the words
that were skipped. The outermost scope holds the names that are known everywhere; names are only
ever declared in the scopes inside it.

* `peek`, `accept`, `expect` look at and take the next token.
* `declare`, `require`, `inScope` keep the scopes.
* `sepTail`, `untilKind` read repetitions; their first argument bounds the number of rounds, and
  each round takes a token.
-/

namespace RaisingEffects

/-- The state of a reader: the token read last, the tokens to come, the scopes from the inside out,
and the words skipped so far. -/
structure ParseState where
  last : Token
  rest : List Token
  scopes : List (List String)
  skipped : List Ambiguity

abbrev Parse (α : Type) := StateT ParseState (Except ParseFailure) α

namespace Parse

variable {α : Type}

def fail (failure : ParseFailure) : Parse α := fun _ => .error failure

def faultAt (pos : Pos) (fault : ParseFault) : Parse α := fail (.fault fault pos)

/-! ## Tokens -/

/-- The next token; at the end of the tokens, the last one. -/
def peek : Parse Token := fun s => .ok (s.rest.headD s.last, s)

/-- The token after the next one; at the end of the tokens, the last one. -/
def peekSecond : Parse Token := fun s =>
  match s.rest with
  | _ :: t :: _ => .ok (t, s)
  | [t] => .ok (t, s)
  | [] => .ok (s.last, s)

def previous : Parse Token := fun s => .ok (s.last, s)

def skip : Parse Unit := fun s =>
  match s.rest with
  | t :: ts => .ok ((), { s with last := t, rest := ts })
  | [] => .error .outOfTokens

def accept (kind : TokenKind) : Parse (Option Token) := do
  let t ← peek
  if t.kind = kind then
    skip
    return some t
  else return none

def expect (kind : TokenKind) : Parse Token := do
  let t ← peek
  if t.kind = kind then
    skip
    return t
  else faultAt t.pos (.expected kind t.kind)

def expectName : Parse Token := expect .ident

def expectSign (s : Sign) : Parse Token := expect (.symbol s)

def nextIs (kind : TokenKind) : Parse Bool := do return (← peek).kind = kind

/-- The number of tokens to come, which bounds the rounds of a repetition. -/
def remaining : Parse Nat := fun s => .ok (s.rest.length, s)

/-- The span from the token `start` to the token read last. -/
def spanFrom (start : Token) : Parse Span := do return ⟨start.pos, (← previous).span.stop⟩

/-! ## Names -/

/-- Declares a name in the innermost scope, where it must be new. -/
def declare (name : String) (pos : Pos) : Parse Unit := fun s =>
  match s.scopes with
  | scope :: outer =>
    if name ∈ scope then .error (.fault (.redeclared name) pos)
    else .ok ((), { s with scopes := (name :: scope) :: outer })
  | [] => .ok ((), { s with scopes := [[name]] })

def declareAll (names : List String) (pos : Pos) : Parse Unit :=
  match names with
  | [] => pure ()
  | n :: ns => do
    declare n pos
    declareAll ns pos

def require (name : String) (pos : Pos) : Parse Unit := fun s =>
  if s.scopes.any (name ∈ ·) then .ok ((), s) else .error (.fault (.undefined name) pos)

def inScope (p : Parse α) : Parse α := fun s =>
  match p { s with scopes := [] :: s.scopes } with
  | .ok (a, s') => .ok (a, { s' with scopes := s'.scopes.drop 1 })
  | .error e => .error e

/-! ## Clauses -/

def noteSkipped (a : Ambiguity) : Parse Unit := fun s =>
  .ok ((), { s with skipped := s.skipped ++ [a] })

def clause (mayDeclare : Bool) : Parse (Option (Clause Span)) := fun s =>
  match ClauseReading.read mayDeclare s.rest with
  | .ok r =>
    .ok (r.clause, { s with
      last := r.used.getLastD s.last
      rest := r.rest
      skipped := s.skipped ++ r.skipped.toList })
  | .error e => .error e

/-! ## Repetitions -/

def sepTail (item : Parse α) : Nat → Parse (List α)
  | 0 => fail .outOfTokens
  | n + 1 => do
    match ← accept (.symbol .comma) with
    | none => return []
    | some _ =>
      let a ← item
      let as ← sepTail item n
      return a :: as

def commaList (item : Parse α) : Parse (List α) := do
  let a ← item
  let as ← sepTail item (← remaining)
  return a :: as

/-- Items separated by commas up to a closing sign, which is taken too. -/
def listUntil (close : Sign) (item : Parse α) : Parse (List α) := do
  if ← nextIs (.symbol close) then
    let _ ← expectSign close
    return []
  else
    let as ← commaList item
    let _ ← expectSign close
    return as

/-- Items up to a token of the given kind, which stays. -/
def untilKind (kind : TokenKind) (item : Parse α) : Nat → Parse (List α)
  | 0 => fail .outOfTokens
  | n + 1 => do
    if ← nextIs kind then return []
    else
      let a ← item
      let as ← untilKind kind item n
      return a :: as

end Parse

end RaisingEffects
