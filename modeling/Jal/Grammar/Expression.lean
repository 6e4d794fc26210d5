import Jal.Grammar.Cursor
import Jal.Program.Expr

namespace Jal

namespace Parser

abbrev Combine := Expr → Expr → Expr

abbrev Level := Token → Option Combine

def disjunction : Level := fun t =>
  if t.kind.isKeyword .orKw then some (.logical .or) else none

def conjunction : Level := fun t =>
  if t.kind.isKeyword .andKw then some (.logical .and) else none

def equality : Level := fun t =>
  match t.kind with
  | .symbol .equal => some (.binary .equal t.line)
  | .symbol .bangEqual => some (.binary .notEqual t.line)
  | _ => none

def comparison : Level := fun t =>
  match t.kind with
  | .symbol .greater => some (.binary .greater t.line)
  | .symbol .greaterEqual => some (.binary .greaterEqual t.line)
  | .symbol .less => some (.binary .less t.line)
  | .symbol .lessEqual => some (.binary .lessEqual t.line)
  | _ => none

def sum : Level := fun t =>
  match t.kind with
  | .symbol .plus => some (.binary .add t.line)
  | .symbol .minus => some (.binary .subtract t.line)
  | _ => none

def product : Level := fun t =>
  match t.kind with
  | .symbol .star => some (.binary .multiply t.line)
  | .symbol .slash => some (.binary .divide t.line)
  | _ => none

def levels : List Level := [disjunction, conjunction, equality, comparison, sum, product]

def unaryOp? (kind : TokenKind) : Option UnaryOp :=
  match kind with
  | .symbol .bang => some .not
  | .symbol .minus => some .negate
  | .keyword .numOfKw => some .numOf
  | .keyword .strOfKw => some .strOf
  | _ => none

def literal? (kind : TokenKind) : Option Literal :=
  match kind with
  | .keyword .falseKw => some (.bool false)
  | .keyword .trueKw => some (.bool true)
  | .keyword .noneKw => some .none
  | .number x => some (.number x)
  | .text s => some (.text s)
  | _ => none

def name (what : String) : Parser Name := do
  let t ← expect TokenKind.isIdent what
  return ⟨t.lexeme, t.line⟩

/-- The further operators of one level after a left operand; they associate to the left. -/
def infixTail (level : Level) (operand : Parser Expr) : Nat → Expr → Parser Expr
  | 0, _ => exhausted
  | n + 1, left => do
    match level (← peek) with
    | none => return left
    | some combine =>
      let _ ← next
      let right ← operand
      infixTail level operand n (combine left right)

def infixChain (bound : Nat) (level : Level) (operand : Parser Expr) : Parser Expr := do
  let left ← operand
  infixTail level operand bound left

/-- One or more items between commas. -/
def commaSeparated {α : Type} (item : Parser α) : Nat → Parser (List α)
  | 0 => exhausted
  | n + 1 => do
    let first ← item
    if ← acceptSymbol .comma then
      let others ← commaSeparated item n
      return first :: others
    else return [first]

/-- Items between commas up to the symbol `stop`, which is not read; there may be none. -/
def itemsUpTo {α : Type} (bound : Nat) (stop : Symbol) (item : Parser α) : Parser (List α) := do
  if ← checkSymbol stop then return [] else commaSeparated item bound

def primary (bound : Nat) (expr : Parser Expr) : Parser Expr := do
  let t ← peek
  match literal? t.kind with
  | some value =>
    let _ ← next
    return .literal value
  | none =>
    match t.kind with
    | .ident =>
      let _ ← next
      return .variable ⟨← freshId, ⟨t.lexeme, t.line⟩⟩
    | .keyword .selfKw =>
      let _ ← next
      return .selfRef (← freshId) t.line
    | .keyword .superKw =>
      let _ ← next
      let _ ← expectSymbol .dot "'.' after 'super'"
      let method ← name "superclass method name"
      return .superRef (← freshId) t.line method
    | .symbol .leftParen =>
      let _ ← next
      let inner ← expr
      let _ ← expectSymbol .rightParen "')' after expression"
      return .grouping inner
    | .symbol .leftBracket =>
      let _ ← next
      let elements ← itemsUpTo bound .rightBracket expr
      let _ ← expectSymbol .rightBracket "']' after array elements"
      return .array elements
    | _ => unexpected "expression"

def postfixTail (bound : Nat) (expr : Parser Expr) : Nat → Expr → Parser Expr
  | 0, _ => exhausted
  | n + 1, e => do
    let t ← peek
    match t.kind with
    | .symbol .leftParen =>
      let _ ← next
      let arguments ← itemsUpTo bound .rightParen expr
      let close ← expectSymbol .rightParen "')' after arguments"
      postfixTail bound expr n (.call e close.line arguments)
    | .symbol .leftBracket =>
      let _ ← next
      let position ← expr
      let _ ← expectSymbol .rightBracket "']' after index"
      postfixTail bound expr n (.index e t.line position)
    | .symbol .dot =>
      let _ ← next
      let property ← name "property name after '.'"
      postfixTail bound expr n (.get e property)
    | _ => return e

def postfixChain (bound : Nat) (expr : Parser Expr) : Parser Expr := do
  let e ← primary bound expr
  postfixTail bound expr bound e

def unary (operand : Parser Expr) : Nat → Parser Expr
  | 0 => exhausted
  | n + 1 => do
    let t ← peek
    match unaryOp? t.kind with
    | none => operand
    | some op =>
      let _ ← next
      let e ← unary operand n
      return .unary op t.line e

/-- An expression without an assignment at its top. -/
def operation (bound : Nat) (expr : Parser Expr) : Parser Expr :=
  levels.foldr (infixChain bound) (unary (postfixChain bound expr) bound)

/-- What an expression becomes to the left of an equals sign, if it can stand there. -/
def assignTo? (target value : Expr) : Option Expr :=
  match target with
  | .variable ref => some (.assign ref value)
  | .get object property => some (.set object property value)
  | .index object line position => some (.indexSet object line position value)
  | _ => none

/-- An assignment to something else is reported and read as its left side alone. -/
def assignment (bound : Nat) (expr : Parser Expr) : Parser Expr := do
  let target ← operation bound expr
  let t ← peek
  if t.kind.isSymbol .assign then
    let _ ← next
    let value ← expr
    match assignTo? target value with
    | some e => return e
    | none =>
      report (.invalidAssignmentTarget t.line)
      return target
  else return target

def expression : Nat → Parser Expr
  | 0 => exhausted
  | n + 1 => assignment (n + 1) (expression n)

end Parser

end Jal
