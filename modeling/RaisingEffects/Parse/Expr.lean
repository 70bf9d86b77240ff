import RaisingEffects.Parse.Monad

/-!
# Reading types, expressions and statements

Every construct that contains another of its kind starts with a token of its own. So the grammar
is read in levels: `Level` holds readers for what stands inside, a construct is read with the
readers of the level below, and a source of `n` tokens needs `n` levels.

* Operators bind, from loosest to tightest, `or`, `and`, `== !=`, `< <= > >=`, `+ -`, `* / %`, and
  associate to the left; the unary `-` and `not` bind tighter than all of them.
* A name must be in scope where it is used; a `let` is in scope after its statement.
-/

namespace RaisingEffects

/-- Readers for what stands inside a construct. The argument of `binary` is the least precedence
that an operator may have. -/
structure Level where
  type : Parse (TypeExpr Span)
  binary : Nat → Parse (Expr Span)
  unary : Parse (Expr Span)
  block : Parse (Block Span)

namespace Level

def expr (r : Level) : Parse (Expr Span) := r.binary 0

end Level

namespace Parse

open TokenKind Sign Keyword

/-! ## Types and parameters -/

/-- Reads a type after a sign, if there is one. -/
def typeAfter (sign : Sign) (r : Level) : Parse (Option (TypeExpr Span)) := do
  match ← accept (symbol sign) with
  | none => return none
  | some _ => return some (← r.type)

/-- Reads a type: a function type or a name with arguments. -/
def typeOf (r : Level) : Parse (TypeExpr Span) := do
  let start ← peek
  match ← accept (keyword Keyword.fn) with
  | some _ =>
    let _ ← expectSign lparen
    let params ← listUntil rparen r.type
    let c ← clause false
    let result ← typeAfter arrow r
    return .fn (← spanFrom start) params c result
  | none =>
    let name ← expectName
    match ← accept (symbol lt) with
    | none => return .named (← spanFrom start) name.value []
    | some _ =>
      let args ← commaList r.type
      let _ ← expectSign gt
      return .named (← spanFrom start) name.value args

def param (r : Level) : Parse (Param Span) := do
  let name ← expectName
  let type ← typeAfter colon r
  return ⟨name.value, type⟩

def params (r : Level) : Parse (List (Param Span)) := do
  let _ ← expectSign lparen
  listUntil rparen (param r)

/-! ## Expressions -/

def binaryOp? : TokenKind → Option BinaryOp
  | symbol either | keyword or_ => some .or
  | symbol both | keyword and_ => some .and
  | symbol eq => some .eq
  | symbol ne => some .ne
  | symbol lt => some .lt
  | symbol le => some .le
  | symbol gt => some .gt
  | symbol ge => some .ge
  | symbol plus => some .add
  | symbol minus => some .sub
  | symbol times => some .mul
  | symbol slash => some .div
  | symbol percent => some .mod
  | _ => none

def unaryOp? : TokenKind → Option UnaryOp
  | symbol minus => some .neg
  | keyword not_ => some .not
  | _ => none

def literalOf (t : Token) (v : Literal) : Parse (Expr Span) := do
  skip
  return .literal (← spanFrom t) v

/-- Reads the numeral `t`, whose value is `v` if it can be read. -/
def numeralOf {α : Type} (t : Token) (v : Except NumeralFault α) (f : α → Literal) :
    Parse (Expr Span) := do
  match v with
  | .ok a => literalOf t (f a)
  | .error e => fail (.numeral e)

def collectionFrom (r : Level) (start : Token) (kind : CollectionKind) : Parse (Expr Span) := do
  let _ ← expectSign lbracket
  let elements ← listUntil rbracket r.expr
  return .collection (← spanFrom start) kind elements

def closureParams (r : Level) : Parse (List (Param Span)) := do
  match ← accept (symbol either) with
  | some _ => return []
  | none =>
    let _ ← expectSign pipe
    listUntil pipe (param r)

def closure (r : Level) : Parse (Expr Span) := do
  let start ← peek
  let ps ← closureParams r
  let c ← clause false
  let body ← inScope do
    declareAll (ps.map Param.name) start.pos
    if c.isSome || (← nextIs (symbol lbrace)) then
      return Body.block (← r.block)
    else
      return Body.expr (← r.expr)
  return .closure (← spanFrom start) ps c body

def primary (r : Level) : Parse (Expr Span) := do
  let t ← peek
  match t.kind with
  | symbol lparen =>
    skip
    let e ← r.expr
    let _ ← expectSign rparen
    return e
  | symbol lbracket => collectionFrom r t .list
  | symbol pipe | symbol either => closure r
  | ident =>
    if t.value = "set" && (← peekSecond).kind = symbol lbracket then
      skip
      collectionFrom r t .set
    else
      skip
      require t.value t.pos
      return .name (← spanFrom t) t.value
  | keyword true_ => literalOf t (.bool true)
  | keyword false_ => literalOf t (.bool false)
  | int => numeralOf t (Numeral.int t.value) .int
  | float => numeralOf t (Numeral.decimal t.value) .float
  | string => literalOf t (.string t.value)
  | found => faultAt t.pos (.unexpected found)

/-- Refuses a call of something that is not a name, at its closing parenthesis. -/
def refuseCall {α : Type} : Parse α := do faultAt (← previous).pos .callTarget

/-- Reads the argument lists after the expression `e` that starts at `start`. Only a name can be
called, so a second argument list is refused. -/
def callTail (r : Level) (start : Token) (e : Expr Span) : Parse (Expr Span) := do
  match ← accept (symbol lparen) with
  | none => return e
  | some _ =>
    let args ← listUntil rparen r.expr
    match e.name? with
    | none => refuseCall
    | some callee =>
      let span ← spanFrom start
      match ← accept (symbol lparen) with
      | none => return .call span callee args
      | some _ =>
        let _ ← listUntil rparen r.expr
        refuseCall

def unaryOf (r : Level) : Parse (Expr Span) := do
  let t ← peek
  match unaryOp? t.kind with
  | some op =>
    skip
    return .unary op (← r.unary)
  | none =>
    let e ← primary r
    callTail r t e

/-- Reads further operators of at least the given precedence, and their operands. -/
def binaryTail (r : Level) (least : Nat) : Nat → Expr Span → Parse (Expr Span)
  | 0, _ => fail .outOfTokens
  | n + 1, left => do
    let t ← peek
    match binaryOp? t.kind with
    | none => return left
    | some op =>
      if op.precedence < least then return left
      else
        skip
        let right ← r.binary (op.precedence + 1)
        binaryTail r least n (.binary op left right)

def binaryOf (r : Level) (least : Nat) : Parse (Expr Span) := do
  let e ← unaryOf r
  binaryTail r least (← remaining) e

/-! ## Statements -/

def mutMark : Parse Bool := do
  let t ← peek
  if t.kind = ident && t.value = "mut" && (← peekSecond).kind = ident then
    skip
    return true
  else return false

def letFrom (r : Level) (start : Token) : Parse (Stmt Span) := do
  let isMut ← mutMark
  let name ← expectName
  let type ← typeAfter colon r
  let _ ← expectSign assign
  let value ← r.expr
  let _ ← expectSign semicolon
  declare name.value name.pos
  return .let_ (← spanFrom start) name.value isMut type value

def returnFrom (r : Level) (start : Token) : Parse (Stmt Span) := do
  if ← nextIs (symbol semicolon) then
    let _ ← expectSign semicolon
    return .return_ (← spanFrom start) none
  else
    let value ← r.expr
    let _ ← expectSign semicolon
    return .return_ (← spanFrom start) (some value)

def raiseFrom (r : Level) (start : Token) : Parse (Stmt Span) := do
  let value ← r.expr
  let _ ← expectSign semicolon
  return .raise (← spanFrom start) value

def catchName : Parse (Option String) := do
  match ← accept ident with
  | none => return none
  | some t =>
    declare t.value t.pos
    return some t.value

def tryFrom (r : Level) (start : Token) : Parse (Stmt Span) := do
  let body ← r.block
  let _ ← expect (keyword catch_)
  let (binding, handler) ← inScope do
    let binding ← catchName
    return (binding, ← r.block)
  return .try_ (← spanFrom start) body binding handler

def elseTail (r : Level) : Nat → Parse (Else Span)
  | 0 => fail .outOfTokens
  | n + 1 => do
    match ← accept (keyword elif) with
    | some _ =>
      let test ← r.expr
      let body ← r.block
      return .elif test body (← elseTail r n)
    | none =>
      match ← accept (keyword else_) with
      | some _ => return .block (← r.block)
      | none => return .none

def ifFrom (r : Level) : Parse (Stmt Span) := do
  let test ← r.expr
  let body ← r.block
  let rest ← elseTail r (← remaining)
  return .if_ test body rest

def forFrom (r : Level) : Parse (Stmt Span) := do
  let target ← expectName
  let _ ← expect (keyword in_)
  let iterable ← r.expr
  let body ← inScope do
    declare target.value target.pos
    r.block
  return .for_ target.value iterable body

def whileFrom (r : Level) : Parse (Stmt Span) := do
  let condition ← r.expr
  let body ← r.block
  return .while_ condition body

def insertion? (word : String) : Option Insertion :=
  if word = "append" then some .append
  else if word = "insert" then some .insert
  else none

/-- Reads an insertion, `target.append(value);`. -/
def insertionStmt (r : Level) : Parse (Stmt Span) := do
  let target ← expectName
  require target.value target.pos
  let _ ← expectSign dot
  let method ← expectName
  match insertion? method.value with
  | none => faultAt method.pos (.unknownMethod method.value)
  | some how =>
    let _ ← expectSign lparen
    let value ← r.expr
    let _ ← expectSign rparen
    let _ ← expectSign semicolon
    return .insert (← spanFrom target) target.value how value

def exprStmt (r : Level) (start : Token) : Parse (Stmt Span) := do
  let e ← r.expr
  match e.name? with
  | none =>
    let _ ← expectSign semicolon
    return .expr e
  | some target =>
    match ← accept (symbol assign) with
    | some _ =>
      let value ← r.expr
      let _ ← expectSign semicolon
      return .assign (← spanFrom start) target value
    | none =>
      let _ ← expectSign semicolon
      return .expr e

def stmt (r : Level) : Parse (Stmt Span) := do
  let t ← peek
  match t.kind with
  | keyword let_ => do skip; letFrom r t
  | keyword return_ => do skip; returnFrom r t
  | keyword raise => do skip; raiseFrom r t
  | keyword try_ => do skip; tryFrom r t
  | keyword if_ => do skip; ifFrom r
  | keyword for_ => do skip; forFrom r
  | keyword while_ => do skip; whileFrom r
  | ident =>
    if (← peekSecond).kind = symbol dot then insertionStmt r else exprStmt r t
  | _ => exprStmt r t

def blockOf (r : Level) : Parse (Block Span) := do
  let start ← expectSign lbrace
  let ss ← inScope do untilKind (symbol rbrace) (stmt r) (← remaining)
  let _ ← expectSign rbrace
  return .mk (← spanFrom start) ss

end Parse

/-- The readers for sources of at most `n` tokens. -/
def Level.ofDepth : Nat → Level
  | 0 =>
    { type := Parse.fail .outOfTokens
      binary := fun _ => Parse.fail .outOfTokens
      unary := Parse.fail .outOfTokens
      block := Parse.fail .outOfTokens }
  | n + 1 =>
    let r := ofDepth n
    { type := Parse.typeOf r
      binary := Parse.binaryOf r
      unary := Parse.unaryOf r
      block := Parse.blockOf r }

end RaisingEffects
