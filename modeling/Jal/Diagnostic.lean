import Jal.Grammar.Program
import Jal.Scope.Resolve
import Jal.Token.Scan

namespace Jal

inductive Diagnostic where
  | lex (e : LexError)
  | parse (e : ParseError)
  | scope (e : ScopeError)
deriving Repr, DecidableEq, Inhabited

namespace Diagnostic

def line : Diagnostic → Nat
  | lex e => e.line
  | parse e => e.line
  | scope e => e.line

def message : Diagnostic → String
  | lex e => "Error at " ++ e.message
  | parse e => "Error at " ++ e.message
  | scope e => "Error at " ++ e.message

/-- Diagnostics by line; those of one line keep their order. -/
def sorted (ds : List Diagnostic) : List Diagnostic := ds.mergeSort fun a b => a.line ≤ b.line

def report (ds : List Diagnostic) : String := "\n".intercalate (ds.map message)

end Diagnostic

/-- A program that may run, with the depths of its references to local names. -/
structure Checked where
  program : Program
  depths : List (Nat × Nat)
deriving Inhabited

/-- Checks a source text, handing out ids from `firstId` on. The second part is the first id that
was not handed out. -/
def check (firstId : Nat) (source : String) : Except (List Diagnostic) Checked × Nat :=
  let scanned := scan source
  let parsed := parse firstId scanned.tokens
  let unreadable := scanned.errors.map Diagnostic.lex ++ parsed.errors.map Diagnostic.parse
  let outcome : Except (List Diagnostic) Checked :=
    if unreadable.isEmpty then
      match resolve parsed.survivors with
      | .ok depths => .ok ⟨parsed.survivors, depths⟩
      | .error errors => .error (Diagnostic.sorted (errors.map Diagnostic.scope))
    else .error (Diagnostic.sorted unreadable)
  (outcome, parsed.nextId)

end Jal
