import Jal.Fault
import Jal.Heap.Equal
import Jal.Heap.Render
import Jal.Number.Numeral
import Jal.Text.Blank

namespace Jal

/-- The number that a text says. A numeral has a digit, so the words for infinity and not-a-number
are no numbers here. -/
def numeral? (s : String) : Option Float :=
  let digits := Text.trim s.toList
  if digits.any Char.isDigit then Number.read? digits else none

def applyUnary (h : Heap) (op : UnaryOp) (v : Value) : Except Fault Value :=
  match op, v with
  | .not, v => .ok (.bool !v.truthy)
  | .strOf, v => .ok (.text (h.render v))
  | .numOf, .number x => .ok (.number x)
  | .numOf, .text s =>
    match numeral? s with
    | some x => .ok (.number x)
    | none => .error (.numberParse s)
  | .numOf, v => .error (.invalidNumOf v.type)
  | .negate, .number x => .ok (.number (-x))
  | .negate, v => .error (.unaryOperandType .negate v.type)

/-- Arithmetic and comparison. Division by either zero is refused. -/
def applyNumbers (op : BinaryOp) (x y : Float) : Except Fault Value :=
  match op with
  | .add => .ok (.number (x + y))
  | .subtract => .ok (.number (x - y))
  | .multiply => .ok (.number (x * y))
  | .divide => if y == 0 then .error .divisionByZero else .ok (.number (x / y))
  | .less => .ok (.bool (x < y))
  | .greater => .ok (.bool (x > y))
  | .lessEqual => .ok (.bool (x ≤ y))
  | .greaterEqual => .ok (.bool (x ≥ y))
  | .equal => .ok (.bool (x == y))
  | .notEqual => .ok (.bool (x != y))

def applyBinary (h : Heap) (op : BinaryOp) (v w : Value) : Except Fault Value :=
  match op, v, w with
  | .equal, v, w => .ok (.bool (h.equal v w))
  | .notEqual, v, w => .ok (.bool !(h.equal v w))
  | op, .number x, .number y => applyNumbers op x y
  | .add, .text s, .text t => .ok (.text (s ++ t))
  | op, v, w => .error (.binaryOperandTypes v.type op w.type)

def LogicalOp.decidedBy (op : LogicalOp) (v : Value) : Bool :=
  match op with
  | .or => v.truthy
  | .and => !v.truthy

def arraySlot (h : Heap) (v index : Value) : Except Fault (ArrayId × Nat) :=
  match v, index with
  | .array a, .number x =>
    match Number.toInt? x with
    | none => .error (.invalidIndex (Number.text x))
    | some i =>
      let length := (h.elements a).size
      if 0 ≤ i && i < length then .ok (a, i.toNat)
      else .error (.indexOutOfRange (Number.text x) length)
  | .array _, v => .error (.invalidIndex (h.render v))
  | v, _ => .error (.notIndexable v.type)

end Jal
