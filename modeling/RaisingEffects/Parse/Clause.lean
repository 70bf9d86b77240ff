import RaisingEffects.Parse.Failure
import RaisingEffects.Tree.Basic

/-!
# Reading effect clauses

    clause ::= 'raises' ( '(' name (',' name)* ')' )?

A word after a bare `raises` is never a type. Where a declaration may follow, the word belongs to
that declaration; elsewhere it can only be a type without its parentheses, and it is skipped and
noted as an `Ambiguity`.
-/

namespace RaisingEffects

/-- What was read at a place where a clause may stand: the clause if there is one, the word that
was skipped after it, the tokens that were read and those that follow. -/
structure ClauseReading where
  clause : Option (Clause Span)
  skipped : Option Ambiguity
  used : List Token
  rest : List Token

namespace ClauseReading

/-- The names after the opening parenthesis, up to the closing one, with the tokens read. -/
def names : List Token → Except ParseFailure (List String × List Token × List Token)
  | [] => .error .outOfTokens
  | t :: ts =>
    if t.kind = .ident then
      match ts with
      | [] => .error .outOfTokens
      | u :: us =>
        if u.kind = .symbol .comma then do
          let (ns, used, rest) ← names us
          return (t.value :: ns, t :: u :: used, rest)
        else if u.kind = .symbol .rparen then .ok ([t.value], [t, u], us)
        else .error (.fault (.expected (.symbol .rparen) u.kind) u.pos)
    else .error (.fault (.expectedErrorType t.kind) t.pos)

def afterRaises (mayDeclare : Bool) (start : Token) : List Token → Except ParseFailure ClauseReading
  | [] => .error .outOfTokens
  | t :: ts =>
    let bare : Clause Span := ⟨start.span, []⟩
    if t.kind = .symbol .lparen then do
      let (ns, used, rest) ← names ts
      let stop := (used.getLastD t).span.stop
      return ⟨some ⟨⟨start.pos, stop⟩, ns⟩, none, start :: t :: used, rest⟩
    else if t.kind = .ident && !mayDeclare then
      .ok ⟨some bare, some ⟨t.value, t.pos⟩, [start, t], ts⟩
    else .ok ⟨some bare, none, [start], t :: ts⟩

def read (mayDeclare : Bool) : List Token → Except ParseFailure ClauseReading
  | [] => .error .outOfTokens
  | t :: ts =>
    if t.kind = .keyword .raises then afterRaises mayDeclare t ts
    else .ok ⟨none, none, [], t :: ts⟩

end ClauseReading

end RaisingEffects
