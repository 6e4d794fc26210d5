import Jal.Token

namespace Jal

inductive ParseError where
  | expected (line : Nat) (what found : String)
  | invalidAssignmentTarget (line : Nat)
  | elseWithoutIf (line : Nat)
deriving Repr, DecidableEq, Inhabited

namespace ParseError

def line : ParseError → Nat
  | expected line _ _ => line
  | invalidAssignmentTarget line => line
  | elseWithoutIf line => line

def message : ParseError → String
  | expected line what found => s!"line {line}: expected " ++ what ++ ", found " ++ found
  | invalidAssignmentTarget line => s!"line {line}: invalid assignment target"
  | elseWithoutIf line => s!"line {line}: expected a valid 'if' before 'else'"

end ParseError

/-- Where reading stands: the kind of the last token read, the tokens still to come, the line of
the end, the errors so far with the latest first, and the next id for a use of a variable. -/
structure Cursor where
  previous : Option TokenKind
  rest : List Token
  endLine : Nat
  errors : List ParseError
  nextId : Nat
deriving Inhabited

namespace Cursor

/-- The start of a token list. A list without an `eof` ends on the line of its last token. -/
def start (firstId : Nat) (tokens : List Token) : Cursor :=
  let endLine :=
    match tokens.find? (·.kind.isEof), tokens.getLast? with
    | some eof, _ => eof.line
    | none, some last => last.line
    | none, none => 1
  { previous := none, rest := tokens.takeWhile fun t => !t.kind.isEof, endLine, errors := [],
    nextId := firstId }

/-- The next token, which at the end is an `eof`. -/
def peek (c : Cursor) : Token := c.rest.headD ⟨.eof, "", c.endLine⟩

/-- Steps over the next token; there is no step past the end. -/
def advance (c : Cursor) : Cursor :=
  match c.rest with
  | [] => c
  | t :: rest => { c with previous := some t.kind, rest }

def atEnd (c : Cursor) : Bool := c.rest.isEmpty

def nextIs (c : Cursor) (p : TokenKind → Bool) : Bool := p c.peek.kind

def previousIs (c : Cursor) (p : TokenKind → Bool) : Bool := c.previous.any p

def skipEols (c : Cursor) : Cursor :=
  let (eols, rest) := c.rest.span (·.kind.isEol)
  { c with previous := (eols.getLast?.map Token.kind) <|> c.previous, rest }

end Cursor

abbrev Parser := EStateM ParseError Cursor

namespace Parser

def peek : Parser Token := do return (← get).peek

def next : Parser Token := fun c => .ok c.peek c.advance

def check (p : TokenKind → Bool) : Parser Bool := do return (← get).nextIs p

def accept (p : TokenKind → Bool) : Parser Bool := fun c =>
  if c.nextIs p then .ok true c.advance else .ok false c

def unexpected {α : Type} (what : String) : Parser α := fun c =>
  .error (.expected c.peek.line what c.peek.describe) c

def expect (p : TokenKind → Bool) (what : String) : Parser Token := fun c =>
  if c.nextIs p then .ok c.peek c.advance else unexpected what c

def expectSymbol (s : Symbol) (what : String) : Parser Token := expect (TokenKind.isSymbol s) what

def expectKeyword (k : Keyword) (what : String) : Parser Token :=
  expect (TokenKind.isKeyword k) what

def acceptSymbol (s : Symbol) : Parser Bool := accept (TokenKind.isSymbol s)

def acceptKeyword (k : Keyword) : Parser Bool := accept (TokenKind.isKeyword k)

def checkSymbol (s : Symbol) : Parser Bool := check (TokenKind.isSymbol s)

def acceptEol : Parser Unit := do let _ ← accept TokenKind.isEol

def skipEols : Parser Unit := modify Cursor.skipEols

/-- Hands out an id that no other use of a variable has. A counter of 64 bits hands out the same
ids as long as `nextId` stays below `2 ^ 64`. -/
def freshId : Parser Nat := fun c => .ok c.nextId { c with nextId := c.nextId + 1 }

def report (e : ParseError) : Parser Unit := modify fun c => { c with errors := e :: c.errors }

/-- What is asked for where the bound on nesting is used up, and nowhere else. -/
def nestingLimit : String := "less nesting"

/-- The outcome of reading when the bound on nesting is used up. The bound is larger than the
number of tokens to come and every level of nesting reads a token of its own, so this is never
reached from `parse`. -/
def exhausted {α : Type} : Parser α := unexpected nestingLimit

end Parser

end Jal
