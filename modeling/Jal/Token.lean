namespace Jal

inductive Keyword where
  | andKw | breakKw | classKw | defKw | doKw | elseKw | falseKw | forKw | ifKw | inheritsKw | letKw
  | noneKw | numOfKw | orKw | returnKw | selfKw | strOfKw | superKw | thenKw | timesKw | trueKw
  | whileKw
deriving Repr, DecidableEq, Inhabited

namespace Keyword

def word : Keyword → String
  | andKw => "and"
  | breakKw => "break"
  | classKw => "class"
  | defKw => "def"
  | doKw => "do"
  | elseKw => "else"
  | falseKw => "false"
  | forKw => "for"
  | ifKw => "if"
  | inheritsKw => "inherits"
  | letKw => "let"
  | noneKw => "none"
  | numOfKw => "numof"
  | orKw => "or"
  | returnKw => "return"
  | selfKw => "self"
  | strOfKw => "strof"
  | superKw => "super"
  | thenKw => "then"
  | timesKw => "times"
  | trueKw => "true"
  | whileKw => "while"

def all : List Keyword :=
  [andKw, breakKw, classKw, defKw, doKw, elseKw, falseKw, forKw, ifKw, inheritsKw, letKw, noneKw,
   numOfKw, orKw, returnKw, selfKw, strOfKw, superKw, thenKw, timesKw, trueKw, whileKw]

def ofWord? (w : String) : Option Keyword := all.find? (·.word == w)

end Keyword

inductive Symbol where
  | leftParen | rightParen | leftBrace | rightBrace | leftBracket | rightBracket
  | comma | dot | semicolon | plus | minus | star | slash
  | bang | assign | less | greater | bangEqual | equal | lessEqual | greaterEqual
deriving Repr, DecidableEq, Inhabited

/-- The tokens `eol` and `eof` stand for the end of a line and of the text; an `eol` is only kept
where it may end a statement. -/
inductive TokenKind where
  | eof
  | eol
  | ident
  | number (value : Float)
  | text (value : String)
  | keyword (k : Keyword)
  | symbol (s : Symbol)
deriving Repr, Inhabited

namespace TokenKind

def isEof : TokenKind → Bool
  | eof => true
  | _ => false

def isEol : TokenKind → Bool
  | eol => true
  | _ => false

def isIdent : TokenKind → Bool
  | ident => true
  | _ => false

def isKeyword (k : Keyword) : TokenKind → Bool
  | keyword k' => k' == k
  | _ => false

def isSymbol (s : Symbol) : TokenKind → Bool
  | symbol s' => s' == s
  | _ => false

end TokenKind

structure Token where
  kind : TokenKind
  lexeme : String
  line : Nat
deriving Repr, Inhabited

def Token.describe (t : Token) : String :=
  match t.kind with
  | .eof => "end of input"
  | .eol => "end of line"
  | _ => "'" ++ t.lexeme ++ "'"

end Jal
