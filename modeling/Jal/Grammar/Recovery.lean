import Jal.Grammar.Cursor

namespace Jal

namespace Cursor

def startsAfresh : TokenKind → Bool
  | .symbol .rightBrace => true
  | .keyword k =>
    k ∈ [.letKw, .defKw, .classKw, .ifKw, .whileKw, .forKw, .doKw, .returnKw, .breakKw]
  | _ => false

def endsStatement (kind : TokenKind) : Bool := kind.isEol || kind.isSymbol .semicolon

/-- Skips tokens until a statement has just ended or one may begin. -/
def skipStatement (previous : Option TokenKind) : List Token → Option TokenKind × List Token
  | [] => (previous, [])
  | t :: rest =>
    if previous.any endsStatement || startsAfresh t.kind then (previous, t :: rest)
    else skipStatement (some t.kind) rest

/-- Goes on after an error in what began at `start`, always at least one token past it. -/
def synchronize (start c : Cursor) : Cursor :=
  let c := if c.rest.length == start.rest.length then c.advance else c
  let (previous, rest) := skipStatement c.previous c.rest
  { c with previous, rest }

end Cursor

namespace Parser

/-- Runs `p`; if it fails, its error is recorded and the rest of the statement skipped. -/
def recovering {α : Type} (p : Parser α) : Parser (Option α) := fun start =>
  match p start with
  | .ok a c => .ok (some a) c
  | .error e c => .ok none (start.synchronize { c with errors := e :: c.errors })

end Parser

end Jal
