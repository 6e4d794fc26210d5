namespace Jal

/-- The console and clock around a run. -/
structure Console where
  /-- The bytes not yet read, and between them the messages of the reader where it fails. -/
  input : List (Except String UInt8)
  /-- The texts written so far, in order. -/
  written : Array String
  /-- The number of the first write that is refused, counting from zero. -/
  refusesFrom : Option Nat
  /-- With which message the sink fails when it is called the `n`-th time, be it to take a text or
  to flush. -/
  faults : Nat → Option String
  /-- How often the sink has been called. -/
  calls : Nat
  /-- What the clock shows when it is read the `n`-th time, in seconds since the epoch; nothing if
  it is set before that. -/
  clock : Nat → Option Float
  /-- How often the clock has been read. -/
  readings : Nat
deriving Inhabited

/-- What a line of input turns out to be. -/
inductive Line where
  | text (s : String)
  /-- The bytes encode no text, or the reader failed before the line was over. -/
  | notText {message : String}
  | endOfInput
deriving Repr, DecidableEq, Inhabited

def notTextMessage : String := "stream did not contain valid UTF-8"

def refusedMessage : String := "write refused"

def newlineByte : UInt8 := 10

def continuesLine : Except String UInt8 → Bool
  | .ok b => b != newlineByte
  | .error _ => false

/-- The first line of the input with its newline, and the input after it. If the reader fails before
the line is over, its message takes the place of the line. -/
def splitLine (input : List (Except String UInt8)) :
    Except String (List UInt8) × List (Except String UInt8) :=
  let (line, after) := input.span continuesLine
  let bytes := line.filterMap Except.toOption
  match after with
  | [] => (.ok bytes, [])
  | .ok newline :: after => (.ok (bytes ++ [newline]), after)
  | .error message :: after => (.error message, after)

/-- A line without its newline and one carriage return before it. A line that the end of the input
cuts short is left as it is. -/
def chomp (line : List Char) : List Char :=
  match line.reverse with
  | '\n' :: '\r' :: rest => rest.reverse
  | '\n' :: rest => rest.reverse
  | _ => line

def decode? (bytes : List UInt8) : Option String := String.fromUTF8? ⟨bytes.toArray⟩

def Line.ofBytes : Except String (List UInt8) → Line
  | .error message => @notText message
  | .ok bytes =>
    match decode? bytes with
    | some s => text (String.ofList (chomp s.toList))
    | none => @notText notTextMessage

namespace Console

/-- A console with these bytes as its input, on which nothing fails. -/
def ofInput (input : List UInt8) (clock : Nat → Option Float) : Console :=
  { input := input.map .ok, written := #[], refusesFrom := none, faults := fun _ => none,
    calls := 0, clock, readings := 0 }

/-- Reads one line. A line that is not text is read all the same. -/
def readLine (c : Console) : Line × Console :=
  if c.input.isEmpty then (.endOfInput, c)
  else
    let (line, after) := splitLine c.input
    (.ofBytes line, { c with input := after })

/-- Writing this text would be refused. An empty text is not even tried. -/
def refuses (c : Console) (s : String) : Bool :=
  !s.isEmpty && c.refusesFrom.any (· ≤ c.written.size)

/-- Calls the sink, and gives back its message if it fails. -/
def call (c : Console) : Option String × Console :=
  (c.faults c.calls, { c with calls := c.calls + 1 })

def record (c : Console) (s : String) : Console :=
  if s.isEmpty then c else { c with written := c.written.push s }

def put (c : Console) (s : String) : Option String × Console :=
  if c.refuses s then (some refusedMessage, c)
  else
    match c.call with
    | (some message, c) => (some message, c)
    | (none, c) => (none, c.record s)

def write (c : Console) (s : String) : Option String × Console :=
  match c.put s with
  | (some message, c) => (some message, c)
  | (none, c) => c.call

def now (c : Console) : Option Float × Console :=
  (c.clock c.readings, { c with readings := c.readings + 1 })

def outputSince (c : Console) (n : Nat) : String := String.join (c.written.toList.drop n)

def output (c : Console) : String := c.outputSince 0

end Console

end Jal
