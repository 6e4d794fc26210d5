import Jal.CommandLine
import Std.Time

namespace Jal
namespace CommandLine

/-- More steps than any run has time for. -/
def ampleFuel : Nat := 1000000000000000000

def FileProblem.ofError (e : IO.Error) : FileProblem :=
  match e with
  | .noFileOrDirectory .. => missing
  | .inappropriateType _ code _ => if code = 21 then directory else notDirectory
  | .invalidArgument .. => nameTooLong
  | .permissionDenied .. => system "Permission denied" 13
  | e => system (toString e) 5

def readFile (path : String) : IO (Except FileProblem (List UInt8)) := do
  try
    return .ok (← IO.FS.readBinFile path).toList
  catch e => return .error (.ofError e)

def readClock : IO (Option Float) := do
  let nanoseconds := (← Std.Time.Timestamp.now).toNanosecondsSinceUnixEpoch.val
  return if 0 ≤ nanoseconds then some (Float.ofInt nanoseconds / 1000000000) else none

def readInput (contents : Except FileProblem (List UInt8)) : IO (List UInt8) := do
  match sourceOf contents with
  | .ok source =>
    if mentionsInput source then return (← (← IO.getStdin).readBinToEnd).toList else return []
  | .error _ => return []

end CommandLine
end Jal

open Jal in
def main (arguments : List String) : IO UInt32 := do
  let contents ← CommandLine.readFile (arguments.headD "")
  let input ← CommandLine.readInput contents
  let clock ← CommandLine.readClock
  let console := Console.ofInput input fun _ => clock
  let outcome := CommandLine.call CommandLine.ampleFuel arguments (fun _ => contents) console
  IO.print outcome.output
  IO.eprint outcome.errors
  return outcome.exitCode.toUInt32
