import Jal.Grammar.Statement

namespace Jal

namespace Parser

/-- All declarations up to the end, one slot for each; a slot is empty where one failed. -/
def slots (bound : Nat) : Nat → Parser (List (Option Stmt))
  | 0 => return []
  | n + 1 => do
    skipEols
    if (← get).atEnd then return []
    let slot ← recovering (statement bound .declaration)
    let others ← slots bound n
    return slot :: others

end Parser

/-- What parsing a token list gives; the errors are in order. -/
structure Parsed where
  slots : List (Option Stmt)
  errors : List ParseError
  nextId : Nat
deriving Inhabited

namespace Parsed

def survivors (p : Parsed) : Program := p.slots.filterMap id

def program? (p : Parsed) : Option Program := if p.errors.isEmpty then some p.survivors else none

end Parsed

/-- Parses a token list, handing out ids from `firstId` on. -/
def parse (firstId : Nat) (tokens : List Token) : Parsed :=
  let c := Cursor.start firstId tokens
  let bound := c.rest.length + 1
  match Parser.slots bound bound c with
  | .ok slots c => ⟨slots, c.errors.reverse, c.nextId⟩
  | .error e c => ⟨[], (e :: c.errors).reverse, c.nextId⟩

end Jal
