namespace Jal

structure Name where
  text : String
  line : Nat
deriving Repr, DecidableEq, Inhabited

structure Reference where
  id : Nat
  name : Name
deriving Repr, DecidableEq, Inhabited

inductive Literal where
  | none
  | bool (b : Bool)
  | number (x : Float)
  | text (s : String)
deriving Repr, Inhabited

inductive UnaryOp where
  | not | negate | numOf | strOf
deriving Repr, DecidableEq, Inhabited

inductive BinaryOp where
  | equal | notEqual | less | lessEqual | greater | greaterEqual
  | add | subtract | multiply | divide
deriving Repr, DecidableEq, Inhabited

inductive LogicalOp where
  | and | or
deriving Repr, DecidableEq, Inhabited

/-- A call keeps the line of its closing parenthesis, an index that of its opening bracket. -/
inductive Expr where
  | literal (value : Literal)
  | grouping (inner : Expr)
  | unary (op : UnaryOp) (line : Nat) (operand : Expr)
  | binary (op : BinaryOp) (line : Nat) (left right : Expr)
  | logical (op : LogicalOp) (left right : Expr)
  | variable (ref : Reference)
  | assign (ref : Reference) (value : Expr)
  | selfRef (id line : Nat)
  | superRef (id line : Nat) (method : Name)
  | get (object : Expr) (name : Name)
  | set (object : Expr) (name : Name) (value : Expr)
  | index (object : Expr) (line : Nat) (position : Expr)
  | indexSet (object : Expr) (line : Nat) (position value : Expr)
  | call (callee : Expr) (line : Nat) (arguments : List Expr)
  | array (elements : List Expr)
deriving Repr, Inhabited

end Jal
