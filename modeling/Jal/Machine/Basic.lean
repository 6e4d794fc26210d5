import Jal.Fault
import Jal.Heap.Basic
import Jal.Machine.Console
import Std.Data.HashMap

namespace Jal

/-- How many calls may be under way at once. -/
def maxDepth : Nat := 1000

structure Machine where
  heap : Heap
  console : Console
  /-- The frame in which names are declared now. -/
  frame : FrameId
  /-- The frame of the global names. -/
  globals : FrameId
  /-- How many scopes lie between a reference and its name; a reference without an entry is
  global. -/
  depths : Std.HashMap Nat Nat
  /-- The loops under way in this call, the innermost first. -/
  loops : List Nat
  /-- The number of the next loop. A counter of 64 bits gives the same numbers to the first
  `2 ^ 64` loops. -/
  nextLoop : Nat
  /-- How many calls are under way. -/
  depth : Nat
deriving Inhabited

inductive Stop where
  | error (e : RuntimeError)
  | outOfFuel
deriving Repr, DecidableEq, Inhabited

abbrev Run := EStateM Stop Machine

namespace Machine

/-- A machine before its first program: a global frame with the native functions. -/
def start (console : Console) : Machine :=
  let natives := Native.all.map fun f => (f.name, Value.native f)
  let (globals, heap) := Heap.empty.newFrame natives none
  { heap, console, frame := globals, globals, depths := ∅, loops := [], nextLoop := 0, depth := 0 }

def addDepths (m : Machine) (depths : List (Nat × Nat)) : Machine :=
  { m with depths := m.depths.insertMany depths }

def enterLoop (m : Machine) : Machine :=
  { m with loops := m.nextLoop :: m.loops, nextLoop := m.nextLoop + 1 }

def leaveLoop (m : Machine) : Machine := { m with loops := m.loops.tail }

/-- Enters a call whose names live in `frame`. The loops of the caller are out of its reach. -/
def enterCall (m : Machine) (frame : FrameId) : Machine :=
  { m with frame, loops := [], depth := m.depth + 1 }

def leaveCall (m : Machine) (frame : FrameId) (loops : List Nat) : Machine :=
  { m with frame, loops, depth := m.depth - 1 }

end Machine

namespace Run

/-- Fails with a fault whose line is not known here. -/
def fail {α : Type} (fault : Fault) : Run α := throw (.error ⟨none, fault⟩)

def failAt {α : Type} (line : Nat) (fault : Fault) : Run α := throw (.error ⟨some line, fault⟩)

/-- The result of a computation without effects, which may fail at `line`. -/
def liftAt {α : Type} (line : Nat) : Except Fault α → Run α
  | .ok a => pure a
  | .error fault => failAt line fault

/-- Gives an error without a line the line of the call it comes from. -/
def orLine {α : Type} (line : Nat) (act : Run α) : Run α := fun m =>
  match act m with
  | .error (.error e) m => .error (.error (e.orLine line)) m
  | r => r

def inFrame {α : Type} (frame : FrameId) (act : Run α) : Run α := fun m =>
  let outer := m.frame
  match act { m with frame } with
  | .ok a m => .ok a { m with frame := outer }
  | .error e m => .error e { m with frame := outer }

def inLoop {α : Type} (act : Nat → Run α) : Run α := fun m =>
  match act m.nextLoop m.enterLoop with
  | .ok a m => .ok a m.leaveLoop
  | .error e m => .error e m.leaveLoop

def inCall {α : Type} (frame : FrameId) (act : Run α) : Run α := fun m =>
  if maxDepth ≤ m.depth then fail .stackOverflow m
  else
    -- only these two are kept during the call: a second reference to the heap would cost a copy
    let outer := m.frame
    let loops := m.loops
    match act (m.enterCall frame) with
    | .ok a m => .ok a (m.leaveCall outer loops)
    | .error e m => .error e (m.leaveCall outer loops)

def onHeap {α : Type} (f : Heap → α × Heap) : Run α := fun m =>
  let (a, heap) := f m.heap
  .ok a { m with heap }

def write (s : String) : Run Unit := fun m =>
  let (failure, console) := m.console.write s
  let m := { m with console }
  match failure with
  | none => .ok () m
  | some message => fail (.console message) m

/-- Reads a line of input; `none` at its end. -/
def readLine : Run Value := fun m =>
  let (line, console) := m.console.readLine
  let m := { m with console }
  match line with
  | .text s => .ok (.text s) m
  | .endOfInput => .ok .none m
  | @Line.notText message => fail (.console message) m

def now : Run Value := fun m =>
  let (reading, console) := m.console.now
  let m := { m with console }
  match reading with
  | some seconds => .ok (.number seconds) m
  | none => fail .clock m

end Run

end Jal
