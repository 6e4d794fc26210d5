import Jal.Diagnostic
import Jal.Machine.Eval

namespace Jal

inductive Failure where
  | rejected (diagnostics : List Diagnostic)
  | failed (e : RuntimeError)
  | unfinished
deriving Repr, DecidableEq, Inhabited

namespace Failure

def message : Failure → String
  | rejected diagnostics => Diagnostic.report diagnostics
  | failed e => e.message
  | unfinished => "Error: out of fuel"

def exitCode : Failure → Nat
  | rejected _ => 65
  | failed _ => 70
  | unfinished => 70

end Failure

structure Session where
  machine : Machine
  /-- The id after the last one that was handed out; a counter of 64 bits holds the same one as long
  as it is below `2 ^ 64`. -/
  nextId : Nat
deriving Inhabited

namespace Session

def start (console : Console) : Session := ⟨Machine.start console, 0⟩

/-- Runs a program on a machine; the machine is kept however the run ends. -/
def interpret (fuel : Nat) (program : Program) (m : Machine) : Except Failure Unit × Machine :=
  match Run.interpret fuel program m with
  | .ok () m => (.ok (), m)
  | .error (.error e) m => (.error (.failed e), m)
  | .error .outOfFuel m => (.error .unfinished, m)

def run (s : Session) (fuel : Nat) (source : String) : Except Failure Unit × Session :=
  match check s.nextId source with
  | (.error diagnostics, nextId) => (.error (.rejected diagnostics), { s with nextId })
  | (.ok checked, nextId) =>
    let (outcome, machine) :=
      interpret fuel checked.program (s.machine.addDepths checked.depths)
    (outcome, ⟨machine, nextId⟩)

/-- Runs what could be read of a source text, without resolving its names: each of them is
global. -/
def runUnresolved (s : Session) (fuel : Nat) (source : String) : Except Failure Unit × Session :=
  let parsed := parse s.nextId (scan source).tokens
  let (outcome, machine) := interpret fuel parsed.survivors s.machine
  (outcome, ⟨machine, parsed.nextId⟩)

def readLine (s : Session) : Line × Session :=
  let (line, console) := s.machine.console.readLine
  (line, { s with machine := { s.machine with console } })

def write (s : Session) (text : String) : Option String × Session :=
  let (failure, console) := s.machine.console.write text
  (failure, { s with machine := { s.machine with console } })

def write? (s : Session) (text : String) : Option Session :=
  match s.write text with
  | (none, s) => some s
  | (some _, _) => none

end Session

end Jal
