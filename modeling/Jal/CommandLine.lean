import Jal.Session

namespace Jal

namespace CommandLine

inductive FileProblem where
  | system (detail : String) (code : Nat)
  | notText
deriving Repr, DecidableEq, Inhabited

namespace FileProblem

def missing : FileProblem := system "No such file or directory" 2

def notDirectory : FileProblem := system "Not a directory" 20

def directory : FileProblem := system "Is a directory" 21

def nameTooLong : FileProblem := system "File name too long" 36

def message : FileProblem → String
  | system detail code => detail ++ s!" (os error {code})"
  | notText => notTextMessage

end FileProblem

/-- What a call leaves behind. -/
structure Outcome where
  exitCode : Nat
  output : String
  errors : String
deriving Repr, DecidableEq, Inhabited

def usage : String := "Usage: jal <script>"

def sourceOf (contents : Except FileProblem (List UInt8)) : Except FileProblem String :=
  match contents with
  | .error problem => .error problem
  | .ok bytes =>
    match decode? bytes with
    | some source => .ok source
    | none => .error .notText

def runScript (fuel : Nat) (source : String) (console : Console) : Outcome :=
  let (outcome, session) := (Session.start console).run fuel source
  let output := session.machine.console.output
  match outcome with
  | .ok () => ⟨0, output, ""⟩
  | .error failure => ⟨failure.exitCode, output, failure.message ++ "\n"⟩

/-- A call with these arguments, where `file` gives the contents of the files there are. -/
def call (fuel : Nat) (arguments : List String)
    (file : String → Except FileProblem (List UInt8)) (console : Console) : Outcome :=
  match arguments with
  | [path] =>
    match sourceOf (file path) with
    | .ok source => runScript fuel source console
    | .error problem => ⟨66, "", "could not read " ++ path ++ ": " ++ problem.message ++ "\n"⟩
  | _ => ⟨64, "", usage ++ "\n"⟩

/-- The script names the function that reads input. Without its name it cannot be called, so the
input of other scripts need not be read. -/
def mentionsInput (source : String) : Bool :=
  (scan source).tokens.any fun t => t.kind.isIdent && t.lexeme == Native.input.name

end CommandLine

end Jal
