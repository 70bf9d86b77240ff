import RaisingEffects.Proofs.Token.Words
import RaisingEffects.Tree.Basic

/-!
# Writing programs

The words of a program, and with spaces between them its text. Nothing is left to precedence: every
operand stands in parentheses. Every member of an interface ends in a semicolon, so that what
follows a bare `raises` is never taken for its type.

* `Expr.words` and its companions give the words of each part of a tree.
* `Program.text` is the text of a program.
* `Program.Spellable` says that the names in a program are names, that its numbers are not too
  long, and that it has no number with a point.
-/

namespace RaisingEffects

variable {α : Type}

namespace Word

/-- Items with commas between them. -/
def commas : List (List Word) → List Word
  | [] => []
  | ws :: rest => ws ++ rest.flatMap (.sign .comma :: ·)

/-- Items with commas between them, inside two signs. -/
def between (first last : Sign) (items : List (List Word)) : List Word :=
  .sign first :: (commas items ++ [.sign last])

/-- Names inside parentheses. -/
def namesList (names : List String) : List Word :=
  between .lparen .rparen (names.map fun n => [.name n])

end Word

/-! ## Signatures -/

def Clause.words (c : Clause α) : List Word :=
  match c.types with
  | [] => [.keyword .raises]
  | ts => .keyword .raises :: Word.namesList ts

def Clause.optionWords : Option (Clause α) → List Word
  | none => []
  | some c => c.words

mutual

def TypeExpr.words : TypeExpr α → List Word
  | .named _ name [] => [.name name]
  | .named _ name (arg :: args) =>
    .name name :: Word.between .lt .gt (TypeExpr.words arg :: TypeExpr.wordsAll args)
  | .fn _ params clause none =>
    .keyword .fn :: (Word.between .lparen .rparen (TypeExpr.wordsAll params) ++
      Clause.optionWords clause)
  | .fn _ params clause (some result) =>
    .keyword .fn :: (Word.between .lparen .rparen (TypeExpr.wordsAll params) ++
      (Clause.optionWords clause ++ .sign .arrow :: TypeExpr.words result))

def TypeExpr.wordsAll : List (TypeExpr α) → List (List Word)
  | [] => []
  | t :: ts => TypeExpr.words t :: TypeExpr.wordsAll ts

end

/-- The words of a type after a sign, if there is one. -/
def TypeExpr.wordsAfter (sign : Sign) : Option (TypeExpr α) → List Word
  | none => []
  | some t => .sign sign :: t.words

def Param.words (p : Param α) : List Word := .name p.name :: TypeExpr.wordsAfter .colon p.type

def Param.listWords (ps : List (Param α)) : List Word :=
  Word.between .lparen .rparen (ps.map Param.words)

/-! ## Expressions and statements -/

def Literal.words : Literal → List Word
  | bool true => [.keyword .true_]
  | bool false => [.keyword .false_]
  | int n => [.number n]
  | float d => [.decimal d]
  | string v => [.text v]

def BinaryOp.word : BinaryOp → Word
  | or => .keyword .or_
  | and => .keyword .and_
  | eq => .sign .eq
  | ne => .sign .ne
  | lt => .sign .lt
  | le => .sign .le
  | gt => .sign .gt
  | ge => .sign .ge
  | add => .sign .plus
  | sub => .sign .minus
  | mul => .sign .times
  | div => .sign .slash
  | mod => .sign .percent

def UnaryOp.word : UnaryOp → Word
  | neg => .sign .minus
  | not => .keyword .not_

def CollectionKind.words : CollectionKind → List Word
  | list => []
  | set => [.name "set"]

def Insertion.word : Insertion → Word
  | append => .name "append"
  | insert => .name "insert"

/-- The words of the parameters of a closure, with their bars. -/
def Param.closureWords : List (Param α) → List Word
  | [] => [.sign .either]
  | ps => Word.between .pipe .pipe (ps.map Param.words)

mutual

def Expr.words : Expr α → List Word
  | .name _ id => [.name id]
  | .literal _ value => value.words
  | .call _ callee args => .name callee :: Word.between .lparen .rparen (Expr.wordsAll args)
  | .closure _ params clause body =>
    Param.closureWords params ++ (Clause.optionWords clause ++ Body.words body)
  | .collection _ kind elements =>
    kind.words ++ Word.between .lbracket .rbracket (Expr.wordsAll elements)
  | .binary op left right =>
    .sign .lparen :: (Expr.words left ++ .sign .rparen :: op.word :: .sign .lparen ::
      (Expr.words right ++ [.sign .rparen]))
  | .unary op operand => op.word :: .sign .lparen :: (Expr.words operand ++ [.sign .rparen])

def Expr.wordsAll : List (Expr α) → List (List Word)
  | [] => []
  | e :: es => Expr.words e :: Expr.wordsAll es

def Body.words : Body α → List Word
  | .block block => Block.words block
  | .expr expr => Expr.words expr

def Block.words : Block α → List Word
  | .mk _ ss => .sign .lbrace :: (Stmt.wordsAll ss ++ [.sign .rbrace])

def Stmt.words : Stmt α → List Word
  | .let_ _ name isMut type value =>
    .keyword .let_ :: ((if isMut then [.name "mut"] else []) ++ .name name ::
      (TypeExpr.wordsAfter .colon type ++ .sign .assign ::
        (Expr.words value ++ [.sign .semicolon])))
  | .assign _ target value =>
    .name target :: .sign .assign :: (Expr.words value ++ [.sign .semicolon])
  | .return_ _ none => [.keyword .return_, .sign .semicolon]
  | .return_ _ (some value) => .keyword .return_ :: (Expr.words value ++ [.sign .semicolon])
  | .raise _ value => .keyword .raise :: (Expr.words value ++ [.sign .semicolon])
  | .try_ _ body binding handler =>
    .keyword .try_ :: (Block.words body ++ .keyword .catch_ ::
      (binding.toList.map .name ++ Block.words handler))
  | .insert _ target how value =>
    .name target :: .sign .dot :: how.word :: .sign .lparen ::
      (Expr.words value ++ [.sign .rparen, .sign .semicolon])
  | .for_ target iterable body =>
    .keyword .for_ :: .name target :: .keyword .in_ :: (Expr.words iterable ++ Block.words body)
  | .while_ condition body => .keyword .while_ :: (Expr.words condition ++ Block.words body)
  | .if_ test body rest =>
    .keyword .if_ :: (Expr.words test ++ (Block.words body ++ Else.words rest))
  | .expr value => Expr.words value ++ [.sign .semicolon]

def Stmt.wordsAll : List (Stmt α) → List Word
  | [] => []
  | s :: ss => Stmt.words s ++ Stmt.wordsAll ss

def Else.words : Else α → List Word
  | .none => []
  | .block block => .keyword .else_ :: Block.words block
  | .elif test body rest =>
    .keyword .elif :: (Expr.words test ++ (Block.words body ++ Else.words rest))

end

/-! ## Declarations -/

def NameDecl.words (first : Keyword) (d : NameDecl α) : List Word :=
  [.keyword first, .name d.name, .sign .semicolon]

def Member.words (m : Member α) : List Word :=
  m.modifiers.map .name ++ .keyword .fn :: .name m.name :: (Param.listWords m.params ++
    (Clause.optionWords m.clause ++
      (TypeExpr.wordsAfter .arrow m.result ++ [.sign .semicolon])))

def Interface.words (i : Interface α) : List Word :=
  .keyword .interface :: .name i.name :: .sign .lbrace ::
    (i.members.flatMap Member.words ++ [.sign .rbrace])

/-- The words of a forwards list. -/
def forwardsWords : List String → List Word
  | [] => []
  | names => .name "forwards" :: Word.namesList names

def FunDecl.words (g : FunDecl α) : List Word :=
  .keyword .fn :: .name g.name :: (Param.listWords g.params ++ (forwardsWords g.forwards ++
    (Clause.optionWords g.clause ++ (TypeExpr.wordsAfter .arrow g.result ++ g.body.words))))

/-- A declaration of any kind. -/
inductive Decl (α : Type) where
  | error (decl : NameDecl α)
  | type (decl : NameDecl α)
  | interface (decl : Interface α)
  | function (decl : FunDecl α)

def Decl.words : Decl α → List Word
  | error d => d.words .error
  | type d => d.words .type
  | interface i => i.words
  | function g => g.words

/-! ## Lists of words -/

theorem Word.between_append (first last : Sign) (items : List (List Word)) (ws : List Word) :
    between first last items ++ ws = .sign first :: (commas items ++ .sign last :: ws) := by
  simp [between]

theorem TypeExpr.wordsAll_eq_map (ts : List (TypeExpr α)) :
    TypeExpr.wordsAll ts = ts.map TypeExpr.words := by
  induction ts with
  | nil => rfl
  | cons t ts ih => rw [TypeExpr.wordsAll, ih, List.map_cons]

theorem Expr.wordsAll_eq_map (es : List (Expr α)) : Expr.wordsAll es = es.map Expr.words := by
  induction es with
  | nil => rfl
  | cons e es ih => rw [Expr.wordsAll, ih, List.map_cons]

theorem TypeExpr.words_named (loc : α) (name : String) (arg : TypeExpr α)
    (args : List (TypeExpr α)) :
    (TypeExpr.named loc name (arg :: args)).words =
      .name name :: Word.between .lt .gt ((arg :: args).map TypeExpr.words) := by
  rw [TypeExpr.words, TypeExpr.wordsAll_eq_map, List.map_cons]

theorem TypeExpr.words_fn (loc : α) (params : List (TypeExpr α)) (clause : Option (Clause α))
    (result : Option (TypeExpr α)) :
    (TypeExpr.fn loc params clause result).words =
      .keyword .fn :: (Word.between .lparen .rparen (params.map TypeExpr.words) ++
        (Clause.optionWords clause ++ TypeExpr.wordsAfter .arrow result)) := by
  cases result with
  | none => rw [TypeExpr.words, TypeExpr.wordsAll_eq_map, TypeExpr.wordsAfter, List.append_nil]
  | some result => rw [TypeExpr.words, TypeExpr.wordsAll_eq_map, TypeExpr.wordsAfter]

namespace Program

/-- The declarations of a program, one kind after the other. -/
def decls (p : Program α) : List (Decl α) :=
  p.errors.map .error ++ (p.types.map .type ++
    (p.interfaces.map .interface ++ p.functions.map .function))

def words (p : Program α) : List Word := p.decls.flatMap Decl.words

/-- The text of a program. -/
def text (p : Program α) : String := String.ofList (Word.spell p.words)

/-- The names in a program are names, its numbers are not too long, and it has no number with a
point. -/
def Spellable (p : Program α) : Prop := ∀ w ∈ p.words, w.isSpelled = true

instance (p : Program α) : Decidable p.Spellable :=
  inferInstanceAs (Decidable (∀ w ∈ p.words, w.isSpelled = true))

end Program

end RaisingEffects
