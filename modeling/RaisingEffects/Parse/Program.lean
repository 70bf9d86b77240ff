import RaisingEffects.Effect.Basic
import RaisingEffects.Parse.Expr

/-!
# Reading programs

A program consists of declarations of errors, types, interfaces and functions. The names of
functions, errors, types and interface members are known everywhere in it, wherever they stand.

* `Program.parse` reads a source text.
* `Stmt.parseAll` reads statements by themselves.
-/

namespace RaisingEffects

/-- The names that are known without a declaration. -/
def builtins : List String := ["len", "print", "range", "str"]

def memberModifiers : List String := ["mut", "static", "override"]

/-- The names that declarations introduce: those right after `fn`, `error` and `type`. -/
def declaredNames : List Token → List String
  | t :: u :: ts =>
    let tail := declaredNames (u :: ts)
    if (t.kind = .keyword .fn || t.kind = .keyword .error || t.kind = .keyword .type) &&
        u.kind = .ident then u.value :: tail
    else tail
  | _ => []

namespace Parse

open TokenKind Sign Keyword

/-! ## Functions -/

def forwardName (known : List String) : Parse String := do
  let t ← expectName
  if t.value ∈ known then return t.value
  else faultAt t.pos (.notAParameter t.value)

def forwards (known : List String) : Parse (List String) := do
  let t ← peek
  if t.kind = ident && t.value = "forwards" && (← peekSecond).kind = symbol lparen then
    skip
    let _ ← expectSign lparen
    let names ← commaList (forwardName known)
    let _ ← expectSign rparen
    return names
  else return []

/-- Requires that the clause of a forwarding function names one type. -/
def checkTarget (name : Token) (forwards : List String) (c : Option (Clause Span)) : Parse Unit :=
  match forwards, c with
  | _ :: _, some ⟨_, types⟩ =>
    match types with
    | [t] => if t = neverType then faultAt name.pos (.needsTarget name.value) else pure ()
    | _ => faultAt name.pos (.needsTarget name.value)
  | _, _ => pure ()

def function (r : Level) : Parse (FunDecl Span) := do
  let start ← expect (keyword Keyword.fn)
  let name ← expectName
  let ps ← params r
  let forwarded ← forwards (ps.map Param.name)
  let c ← clause false
  checkTarget name forwarded c
  let result ← typeAfter arrow r
  let span ← spanFrom start
  let body ← inScope do
    declareAll (ps.map Param.name) start.pos
    r.block
  return ⟨span, name.value, ps, forwarded, c, result, body⟩

/-! ## Interfaces -/

/-- Reads the words in front of a member. After a member that ends in a bare `raises`, a word that
is no modifier can only be meant as its type, and is skipped. -/
def modifiers (afterBare : Bool) : Nat → List String → Parse (List String)
  | 0, _ => fail .outOfTokens
  | n + 1, found => do
    match ← accept ident with
    | none => return found
    | some t =>
      if t.value ∈ memberModifiers then modifiers afterBare n (found ++ [t.value])
      else if afterBare && found.isEmpty then
        noteSkipped ⟨t.value, t.pos⟩
        modifiers afterBare n found
      else faultAt t.pos (.unknownModifier t.value)

def member (r : Level) (afterBare : Bool) : Parse (Member Span) := do
  let start ← peek
  let words ← modifiers afterBare (← remaining) []
  let _ ← expect (keyword Keyword.fn)
  let name ← expectName
  let ps ← params r
  let c ← clause true
  let result ← typeAfter arrow r
  let _ ← accept (symbol semicolon)
  return ⟨← spanFrom start, name.value, words, ps, c, result⟩

def endsBare (m : Member Span) : Bool :=
  m.result.isNone && m.clause.any fun c => c.types.isEmpty

def members (r : Level) : Nat → Bool → Parse (List (Member Span))
  | 0, _ => fail .outOfTokens
  | n + 1, afterBare => do
    if ← nextIs (symbol rbrace) then return []
    else
      let m ← member r afterBare
      let ms ← members r n (endsBare m)
      return m :: ms

def interface (r : Level) : Parse (Interface Span) := do
  let start ← expect (keyword Keyword.interface)
  let name ← expectName
  let _ ← expectSign lbrace
  let ms ← members r (← remaining) false
  let _ ← expectSign rbrace
  return ⟨← spanFrom start, name.value, ms⟩

/-! ## Programs -/

def nameDecl (start : Token) : Parse (NameDecl Span) := do
  let name ← expectName
  let _ ← expectSign semicolon
  return ⟨← spanFrom start, name.value⟩

/-- Reads declarations up to the end and puts them behind those of `p`. -/
def declarations (r : Level) : Nat → Program Span → Parse (Program Span)
  | 0, _ => fail .outOfTokens
  | n + 1, p => do
    let t ← peek
    match t.kind with
    | eof => return p
    | keyword Keyword.error =>
      skip
      let d ← nameDecl t
      declarations r n { p with errors := p.errors ++ [d] }
    | keyword Keyword.type =>
      skip
      let d ← nameDecl t
      declarations r n { p with types := p.types ++ [d] }
    | keyword Keyword.interface =>
      let i ← interface r
      declarations r n { p with interfaces := p.interfaces ++ [i] }
    | _ =>
      let f ← function r
      if f.name ∈ p.functions.map FunDecl.name then faultAt t.pos (.duplicateFunction f.name)
      else declarations r n { p with functions := p.functions ++ [f] }

end Parse

/-- A program that was read, and the words that were skipped in it. -/
structure Reading where
  program : Program Span
  skipped : List Ambiguity

def Program.ofTokens (tokens : List Token) : Except ParseFailure Reading := do
  let start : ParseState :=
    { last := tokens.headD (Token.eofAt .start)
      rest := tokens
      scopes := [declaredNames tokens ++ builtins]
      skipped := [] }
  let (p, s) ← Parse.declarations (.ofDepth tokens.length) tokens.length {} start
  return ⟨p, s.skipped⟩

def Program.parse (source : String) : Except ParseFailure Reading :=
  match Token.readAll source with
  | .ok tokens => ofTokens tokens
  | .error e => .error (.ofLexError e)

/-- Reads statements by themselves: the body of the first function, when the text is put between
the braces of a function without parameters. -/
def Stmt.parseAll (source : String) : Except ParseFailure (List (Stmt Span)) := do
  let r ← Program.parse ("fn __temp__() \x7b" ++ source ++ "\x7d")
  return (r.program.functions.head?.map fun f => f.body.statements).getD []

end RaisingEffects
