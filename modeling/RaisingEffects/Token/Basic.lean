import RaisingEffects.Text.Place

/-!
# Tokens

The words, numbers, texts and signs that a source consists of. A token keeps its kind, its value
(the text itself, or for a quoted text what it stands for) and where it stands.

* `TokenKind.name` is the name of a kind in messages.
* `Keyword.ofText?` and `Sign.ofPair?`, `Sign.ofChar?` recognise the fixed words and signs.
-/

namespace RaisingEffects

inductive Keyword where
  | fn | let_ | if_ | else_ | elif | for_ | while_ | in_ | return_ | true_ | false_
  | and_ | or_ | not_ | raise | raises | try_ | catch_ | error | type | interface
deriving DecidableEq, Repr

namespace Keyword

def text : Keyword → String
  | fn => "fn"
  | let_ => "let"
  | if_ => "if"
  | else_ => "else"
  | elif => "elif"
  | for_ => "for"
  | while_ => "while"
  | in_ => "in"
  | return_ => "return"
  | true_ => "true"
  | false_ => "false"
  | and_ => "and"
  | or_ => "or"
  | not_ => "not"
  | raise => "raise"
  | raises => "raises"
  | try_ => "try"
  | catch_ => "catch"
  | error => "error"
  | type => "type"
  | interface => "interface"

def all : List Keyword :=
  [fn, let_, if_, else_, elif, for_, while_, in_, return_, true_, false_, and_, or_, not_, raise,
    raises, try_, catch_, error, type, interface]

def ofText? (s : String) : Option Keyword := all.find? fun k => k.text == s

end Keyword

inductive Sign where
  | lparen | rparen | lbrace | rbrace | lbracket | rbracket
  | colon | comma | semicolon | dot | pipe
  | arrow | both | either
  | eq | ne | le | ge | assign | lt | gt | plus | minus | times | slash | percent
deriving DecidableEq, Repr

namespace Sign

def text : Sign → String
  | lparen => "("
  | rparen => ")"
  | lbrace => "\x7b"
  | rbrace => "\x7d"
  | lbracket => "["
  | rbracket => "]"
  | colon => ":"
  | comma => ","
  | semicolon => ";"
  | dot => "."
  | pipe => "|"
  | arrow => "->"
  | both => "&&"
  | either => "||"
  | eq => "=="
  | ne => "!="
  | le => "<="
  | ge => ">="
  | assign => "="
  | lt => "<"
  | gt => ">"
  | plus => "+"
  | minus => "-"
  | times => "*"
  | slash => "/"
  | percent => "%"

/-- The name of a sign in messages: brackets and separators have names, operators stand for
themselves. -/
def name : Sign → String
  | lparen => "LPAREN"
  | rparen => "RPAREN"
  | lbrace => "LBRACE"
  | rbrace => "RBRACE"
  | lbracket => "LBRACKET"
  | rbracket => "RBRACKET"
  | colon => "COLON"
  | comma => "COMMA"
  | semicolon => "SEMICOLON"
  | dot => "DOT"
  | pipe => "PIPE"
  | arrow => "ARROW"
  | both => "AND_OP"
  | either => "OR_OP"
  | s => s.text

/-- The sign of two characters, which takes precedence over the signs of one. -/
def ofPair? : Char → Char → Option Sign
  | '-', '>' => some arrow
  | '=', '=' => some eq
  | '!', '=' => some ne
  | '<', '=' => some le
  | '>', '=' => some ge
  | '&', '&' => some both
  | '|', '|' => some either
  | _, _ => none

def ofChar? : Char → Option Sign
  | '(' => some lparen
  | ')' => some rparen
  | '\x7b' => some lbrace
  | '\x7d' => some rbrace
  | '[' => some lbracket
  | ']' => some rbracket
  | ':' => some colon
  | ',' => some comma
  | ';' => some semicolon
  | '.' => some dot
  | '|' => some pipe
  | '=' => some assign
  | '<' => some lt
  | '>' => some gt
  | '+' => some plus
  | '-' => some minus
  | '*' => some times
  | '/' => some slash
  | '%' => some percent
  | _ => none

end Sign

inductive TokenKind where
  | keyword (word : Keyword)
  | ident
  | int
  | float
  | string
  | symbol (sign : Sign)
  | eof
deriving DecidableEq, Repr

def TokenKind.name : TokenKind → String
  | keyword k => k.text
  | ident => "IDENT"
  | int => "INT"
  | float => "FLOAT"
  | string => "STRING"
  | symbol s => s.name
  | eof => "EOF"

/-- A token. The value of a quoted text is what it stands for; any other token's value is the text
itself, and that of the end mark is empty. -/
structure Token where
  kind : TokenKind
  value : String
  span : Span
deriving DecidableEq, Repr

def Token.pos (t : Token) : Pos := t.span.start

def Token.eofAt (p : Pos) : Token := ⟨.eof, "", ⟨p, p⟩⟩

end RaisingEffects
