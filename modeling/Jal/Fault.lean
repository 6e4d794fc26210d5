import Jal.Program.Render
import Jal.Value.Basic

namespace Jal

inductive Fault where
  | undefinedVariable (name : String)
  | undefinedProperty (name : String)
  | unaryOperandType (op : UnaryOp) (operand : ValueType)
  | binaryOperandTypes (left : ValueType) (op : BinaryOp) (right : ValueType)
  | divisionByZero
  | invalidNumOf (operand : ValueType)
  | numberParse (text : String)
  | notCallable (callee : ValueType)
  | incorrectArity (expected got : Nat)
  | notAnInstance (holder : ValueType)
  | invalidSuperclass (superclass : ValueType)
  | notIndexable (indexed : ValueType)
  | invalidIndex (index : String)
  | indexOutOfRange (index : String) (length : Nat)
  | invalidRepeatCount (count : ValueType)
  | unexpectedBreak
  | stackOverflow
  | console (message : String)
  | clock
deriving Repr, DecidableEq, Inhabited

namespace Fault

def message : Fault → String
  | undefinedVariable name => "Undefined variable '" ++ name ++ "'"
  | undefinedProperty name => "Undefined property '" ++ name ++ "'"
  | unaryOperandType op operand =>
    "operand of '" ++ op.symbol ++ "' must be a number, got " ++ operand.name
  | binaryOperandTypes left op right =>
    "unsupported operand types for '" ++ op.symbol ++ "': " ++ left.name ++ " and " ++ right.name
  | divisionByZero => "Division by zero"
  | invalidNumOf operand => "numof expects a number or a string, got " ++ operand.name
  | numberParse text => "Cannot convert \"" ++ text ++ "\" to a number"
  | notCallable callee => "Calls are only valid for functions and classes, got " ++ callee.name
  | incorrectArity expected got =>
    s!"wrong number of arguments: expected {expected} but got {got}"
  | notAnInstance holder => "Only instances have properties, got " ++ holder.name
  | invalidSuperclass superclass => "Can only inherit from a class, got " ++ superclass.name
  | notIndexable indexed => "index operator not supported: " ++ indexed.name
  | invalidIndex index => "array index must be a whole number, got " ++ index
  | indexOutOfRange index length => "array index " ++ index ++ s!" out of range for length {length}"
  | invalidRepeatCount count => "repeat count must be a number, got " ++ count.name
  | unexpectedBreak => "Unexpected 'break' statement"
  | stackOverflow => "stack overflow"
  | console message => "console I/O failed: " ++ message
  | clock => "system clock is set before the Unix epoch"

end Fault

/-- A fault and the line it is reported at, once that is known. -/
structure RuntimeError where
  line : Option Nat
  fault : Fault
deriving Repr, DecidableEq, Inhabited

namespace RuntimeError

/-- The error at `line`, unless it has a line already. -/
def orLine (e : RuntimeError) (line : Nat) : RuntimeError :=
  { e with line := e.line <|> some line }

def message (e : RuntimeError) : String :=
  match e.line with
  | some line => s!"Error at line {line}: " ++ e.fault.message
  | none => "Error: " ++ e.fault.message

end RuntimeError

end Jal
