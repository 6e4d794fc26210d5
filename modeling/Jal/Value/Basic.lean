import Jal.Program.Stmt

namespace Jal

structure FrameId where
  index : Nat
deriving Repr, DecidableEq, Inhabited

structure ArrayId where
  index : Nat
deriving Repr, DecidableEq, Hashable, Inhabited

structure InstanceId where
  index : Nat
deriving Repr, DecidableEq, Inhabited

inductive Native where
  | print | println | input | time
deriving Repr, DecidableEq, Inhabited

namespace Native

def name : Native → String
  | print => "print"
  | println => "println"
  | input => "input"
  | time => "time"

def arity : Native → Nat
  | print | println | input => 1
  | time => 0

def all : List Native := [print, println, input, time]

end Native

structure Closure where
  routine : Routine Stmt
  frame : FrameId
  isConstructor : Bool
deriving Repr, Inhabited

namespace Closure

def name (c : Closure) : String := c.routine.name.text

def arity (c : Closure) : Nat := c.routine.params.length

end Closure

structure Layer where
  stamp : Nat
  name : String
  methods : List Closure
deriving Repr, Inhabited

/-- Of two methods of one name the later counts. -/
def Layer.method? (l : Layer) (name : String) : Option Closure :=
  l.methods.reverse.find? (·.name == name)

/-- A class is its own layer above those of its superclass. -/
structure Class where
  own : Layer
  inherited : List Layer
deriving Repr, Inhabited

namespace Class

def name (c : Class) : String := c.own.name

def layers (c : Class) : List Layer := c.own :: c.inherited

def superclass? (c : Class) : Option Class :=
  match c.inherited with
  | [] => none
  | l :: rest => some ⟨l, rest⟩

def method? (c : Class) (name : String) : Option Closure := c.layers.findSome? (·.method? name)

def constructor? (c : Class) : Option Closure := c.method? constructorName

/-- A class without a constructor takes no arguments. -/
def arity (c : Class) : Nat := (c.constructor?.map Closure.arity).getD 0

end Class

inductive Value where
  | none
  | bool (b : Bool)
  | number (x : Float)
  | text (s : String)
  | array (id : ArrayId)
  | native (f : Native)
  | function (c : Closure) (stamp : Nat)
  | classValue (c : Class)
  | object (id : InstanceId)
deriving Repr, Inhabited

inductive ValueType where
  | none | boolean | number | string | array | native | function | classType | object
deriving Repr, DecidableEq, Inhabited

namespace ValueType

def name : ValueType → String
  | none => "none"
  | boolean => "boolean"
  | number => "number"
  | string => "string"
  | array => "array"
  | native => "native function"
  | function => "function"
  | classType => "class"
  | object => "instance"

def all : List ValueType :=
  [none, boolean, number, string, array, native, function, classType, object]

def ofName? (name : String) : Option ValueType := all.find? (·.name == name)

end ValueType

namespace Value

def type : Value → ValueType
  | none => .none
  | bool _ => .boolean
  | number _ => .number
  | text _ => .string
  | array _ => .array
  | native _ => .native
  | function _ _ => .function
  | classValue _ => .classType
  | object _ => .object

def truthy : Value → Bool
  | none => false
  | bool b => b
  | _ => true

def arity? : Value → Option Nat
  | native f => some f.arity
  | function c _ => some c.arity
  | classValue c => some c.arity
  | _ => Option.none

def ofLiteral : Literal → Value
  | .none => none
  | .bool b => bool b
  | .number x => number x
  | .text s => text s

end Value

end Jal
