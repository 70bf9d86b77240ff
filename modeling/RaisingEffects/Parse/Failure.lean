import RaisingEffects.Number.Numeral
import RaisingEffects.Token.Lexer

/-!
# Failures of reading a source

A source is refused at a position for a stated cause, or because a numeral in it cannot be read.
`ParseFault.message` and `ParseFailure.message` are the wordings.
-/

namespace RaisingEffects

inductive ParseFault where
  | lexical (fault : LexFault)
  | expected (kind found : TokenKind)
  | expectedErrorType (found : TokenKind)
  | unexpected (found : TokenKind)
  | redeclared (name : String)
  | undefined (name : String)
  | duplicateFunction (name : String)
  | notAParameter (name : String)
  | needsTarget (function : String)
  | unknownModifier (word : String)
  | unknownMethod (word : String)
  | callTarget
deriving DecidableEq, Repr

def ParseFault.message : ParseFault → String
  | lexical fault => fault.message
  | expected kind found => s!"Expected {kind.name}, found {found.name}"
  | expectedErrorType found => s!"Expected error type in raises clause, found {found.name}"
  | unexpected found => s!"Unexpected token {found.name}"
  | redeclared name => s!"Identifier '{name}' already declared in this scope"
  | undefined name => s!"Use of undefined identifier '{name}'"
  | duplicateFunction name => s!"Duplicate function '{name}'"
  | notAParameter name => s!"'{name}' in forwards clause is not a parameter"
  | needsTarget function =>
    s!"Forwarding function '{function}' needs a single typed target: raises(T)"
  | unknownModifier word => s!"Unknown modifier '{word}'"
  | unknownMethod word => s!"Unknown collection method '{word}'"
  | callTarget => "Calls must target identifiers"

inductive ParseFailure where
  | fault (fault : ParseFault) (pos : Pos)
  | numeral (fault : NumeralFault)
  | outOfTokens
deriving DecidableEq, Repr

def ParseFailure.message (filename : String) : ParseFailure → String
  | fault f pos => s!"{filename}:{pos.text}: {f.message}"
  | numeral f => f.message
  | outOfTokens => "list index out of range"

def ParseFailure.ofLexError (e : LexError) : ParseFailure := .fault (.lexical e.fault) e.pos

/-- A word after a bare `raises` where only a type could stand. It is skipped. -/
structure Ambiguity where
  word : String
  pos : Pos
deriving DecidableEq, Repr

end RaisingEffects
