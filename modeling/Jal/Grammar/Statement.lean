import Jal.Grammar.Expression
import Jal.Grammar.Recovery
import Jal.Program.Stmt

namespace Jal

/-- Where a statement stands. Inside the consequence of an `if` an `else` may follow it. -/
inductive Place where
  | declaration
  | body (elseMayFollow : Bool)
deriving Repr, DecidableEq, Inhabited

namespace Cursor

/-- An `else` comes next, in a place where it ends the statement before it. -/
def atInlineElse (c : Cursor) (elseMayFollow : Bool) : Bool :=
  elseMayFollow && c.nextIs (TokenKind.isKeyword .elseKw)

/-- A `return` has no value before these. -/
def atTerminator (c : Cursor) (elseMayFollow : Bool) : Bool :=
  c.nextIs TokenKind.isEol || c.nextIs (TokenKind.isSymbol .semicolon) ||
    c.nextIs (TokenKind.isSymbol .rightBrace) || c.atEnd || c.atInlineElse elseMayFollow

end Cursor

namespace Parser

/-- A statement ends at the end of a line, at a semicolon (with one end of line right after it),
before a closing brace, at the end, right after a closing brace, or before an `else` that may
follow. -/
def terminator (elseMayFollow : Bool) : Parser Unit := do
  if ← accept TokenKind.isEol then return
  if ← acceptSymbol .semicolon then
    acceptEol
    return
  let c ← get
  if c.nextIs (TokenKind.isSymbol .rightBrace) || c.atEnd ||
      c.previousIs (TokenKind.isSymbol .rightBrace) || c.atInlineElse elseMayFollow then return
  unexpected "end of line or closing brace"

def letClause (bound : Nat) : Parser Stmt := do
  let variableName ← name "variable name"
  if ← acceptSymbol .assign then
    let init ← expression bound
    return .letVar variableName (some init)
  else return .letVar variableName none

/-- Declarations up to a closing brace or the end; those that fail leave nothing. -/
def blockItems (item : Place → Parser Stmt) : Nat → Parser (List Stmt)
  | 0 => exhausted
  | n + 1 => do
    skipEols
    let c ← get
    if c.nextIs (TokenKind.isSymbol .rightBrace) || c.atEnd then return []
    let slot ← recovering (item .declaration)
    let others ← blockItems item n
    return slot.toList ++ others

def block (bound : Nat) (item : Place → Parser Stmt) : Parser (List Stmt) := do
  let body ← blockItems item bound
  let _ ← expectSymbol .rightBrace "'\x7d' after block"
  return body

def ifStatement (bound : Nat) (elseMayFollow : Bool) (item : Place → Parser Stmt) :
    Parser Stmt := do
  let test ← expression bound
  let _ ← expectKeyword .thenKw "'then' after if condition"
  acceptEol
  let consequence ← item (.body true)
  if ← acceptKeyword .elseKw then
    acceptEol
    let alternative ← item (.body elseMayFollow)
    return .ifThen test consequence (some alternative)
  else return .ifThen test consequence none

def whileStatement (bound : Nat) (elseMayFollow : Bool) (item : Place → Parser Stmt) :
    Parser Stmt := do
  let test ← expression bound
  let _ ← expectKeyword .doKw "'do' after while condition"
  acceptEol
  return .whileDo test (← item (.body elseMayFollow))

def timesStatement (bound line : Nat) (elseMayFollow : Bool) (item : Place → Parser Stmt) :
    Parser Stmt := do
  let count ← expression bound
  let _ ← expectKeyword .timesKw "'times' after repeat count"
  acceptEol
  return .times line count (← item (.body elseMayFollow))

def forInit (bound : Nat) : Parser (Option Stmt) := do
  if ← acceptSymbol .semicolon then return none
  let init ←
    if ← acceptKeyword .letKw then letClause bound else Stmt.expr <$> expression bound
  let _ ← expectSymbol .semicolon "';' after loop initializer"
  return some init

/-- An expression that is left out where `stop` comes next. -/
def expressionUnless (bound : Nat) (stop : Symbol) : Parser (Option Expr) := do
  if ← checkSymbol stop then return none else return some (← expression bound)

/-- The statement that a `for` stands for: `init` runs once around a loop whose body ends with
`update`. A missing test always holds. -/
def forLoop (init : Option Stmt) (test update : Option Expr) (body : Stmt) : Stmt :=
  let body :=
    match update with
    | none => body
    | some e => .block [body, .expr e]
  let loop := Stmt.whileDo (test.getD (.literal (.bool true))) body
  match init with
  | none => loop
  | some s => .block [s, loop]

def forStatement (bound : Nat) (elseMayFollow : Bool) (item : Place → Parser Stmt) :
    Parser Stmt := do
  let _ ← expectSymbol .leftParen "'(' after 'for'"
  let init ← forInit bound
  let test ← expressionUnless bound .semicolon
  let _ ← expectSymbol .semicolon "';' after loop condition"
  let update ← expressionUnless bound .rightParen
  let _ ← expectSymbol .rightParen "')' after for clauses"
  acceptEol
  return forLoop init test update (← item (.body elseMayFollow))

def returnStatement (bound line : Nat) (elseMayFollow : Bool) : Parser Stmt := do
  if (← get).atTerminator elseMayFollow then
    terminator elseMayFollow
    return .returnWith line none
  else
    let value ← expression bound
    terminator elseMayFollow
    return .returnWith line (some value)

def routine (bound : Nat) (item : Place → Parser Stmt) : Parser (Routine Stmt) := do
  let routineName ← name "function name"
  let _ ← expectSymbol .leftParen "'(' after function name"
  let params ← itemsUpTo bound .rightParen (name "parameter name")
  let _ ← expectSymbol .rightParen "')' after parameters"
  let _ ← expectSymbol .leftBrace "'\x7b' before function body"
  let body ← block bound item
  terminator false
  return ⟨routineName, params, body⟩

def methods (bound : Nat) (item : Place → Parser Stmt) : Nat → Parser (List (Routine Stmt))
  | 0 => exhausted
  | n + 1 => do
    skipEols
    let c ← get
    if c.nextIs (TokenKind.isSymbol .rightBrace) || c.atEnd then return []
    let _ ← expectKeyword .defKw "'def' in class body"
    let first ← routine bound item
    let others ← methods bound item n
    return first :: others

def superclass : Parser (Option Reference) := do
  if ← acceptKeyword .inheritsKw then
    let superclassName ← name "superclass name"
    return some ⟨← freshId, superclassName⟩
  else return none

def classDeclaration (bound : Nat) (item : Place → Parser Stmt) : Parser Stmt := do
  let className ← name "class name"
  let parent ← superclass
  let _ ← expectSymbol .leftBrace "'\x7b' before class body"
  let members ← methods bound item bound
  let _ ← expectSymbol .rightBrace "'\x7d' after class body"
  terminator false
  return .classDecl className parent members

def bodyStatement (bound : Nat) (elseMayFollow : Bool) (item : Place → Parser Stmt) :
    Parser Stmt := do
  let t ← peek
  match t.kind with
  | .keyword .ifKw =>
    let _ ← next
    ifStatement bound elseMayFollow item
  | .keyword .elseKw => throw (.elseWithoutIf t.line)
  | .keyword .whileKw =>
    let _ ← next
    whileStatement bound elseMayFollow item
  | .keyword .doKw =>
    let _ ← next
    timesStatement bound t.line elseMayFollow item
  | .keyword .forKw =>
    let _ ← next
    forStatement bound elseMayFollow item
  | .keyword .breakKw =>
    let _ ← next
    terminator elseMayFollow
    return .breakLoop t.line
  | .keyword .returnKw =>
    let _ ← next
    returnStatement bound t.line elseMayFollow
  | .symbol .leftBrace =>
    let _ ← next
    let body ← block bound item
    terminator elseMayFollow
    return .block body
  | _ =>
    let e ← expression bound
    terminator elseMayFollow
    return .expr e

def declaration (bound : Nat) (item : Place → Parser Stmt) : Parser Stmt := do
  if ← acceptKeyword .letKw then
    let s ← letClause bound
    terminator false
    return s
  if ← acceptKeyword .defKw then return .define (← routine bound item)
  if ← acceptKeyword .classKw then return ← classDeclaration bound item
  bodyStatement bound false item

def statement : Nat → Place → Parser Stmt
  | 0, _ => exhausted
  | n + 1, .declaration => declaration (n + 1) (statement n)
  | n + 1, .body elseMayFollow => bodyStatement (n + 1) elseMayFollow (statement n)

end Parser

end Jal
