import Jal.Number.Shortest
import Jal.Program.Stmt
import Jal.Text.Quoted

namespace Jal

def Literal.render : Literal → String
  | none => "none"
  | bool b => if b then "true" else "false"
  | number x => Number.text x
  | text s => Text.quoted s

def UnaryOp.symbol : UnaryOp → String
  | not => "!"
  | negate => "-"
  | numOf => "numof"
  | strOf => "strof"

/-- What stands before the operand: an operator that is a word is set off by a blank. -/
def UnaryOp.lead : UnaryOp → String
  | not => "!"
  | negate => "-"
  | numOf => "numof "
  | strOf => "strof "

def BinaryOp.symbol : BinaryOp → String
  | equal => "=="
  | notEqual => "!="
  | less => "<"
  | lessEqual => "<="
  | greater => ">"
  | greaterEqual => ">="
  | add => "+"
  | subtract => "-"
  | multiply => "*"
  | divide => "/"

def LogicalOp.symbol : LogicalOp → String
  | and => "and"
  | or => "or"

def withCommas (items : List String) : String := ", ".intercalate items

mutual

def Expr.render : Expr → String
  | .literal value => value.render
  | .grouping inner => "(group " ++ inner.render ++ ")"
  | .unary op _ operand => "(" ++ op.lead ++ operand.render ++ ")"
  | .binary op _ left right => "(" ++ left.render ++ " " ++ op.symbol ++ " " ++ right.render ++ ")"
  | .logical op left right => "(" ++ left.render ++ " " ++ op.symbol ++ " " ++ right.render ++ ")"
  | .variable ref => ref.name.text
  | .assign ref value => "(" ++ ref.name.text ++ " = " ++ value.render ++ ")"
  | .selfRef _ _ => "self"
  | .superRef _ _ method => "super." ++ method.text
  | .get object name => object.render ++ "." ++ name.text
  | .set object name value =>
    "(" ++ object.render ++ "." ++ name.text ++ " = " ++ value.render ++ ")"
  | .index object _ position => "(" ++ object.render ++ "[" ++ position.render ++ "])"
  | .indexSet object _ position value =>
    "(" ++ object.render ++ "[" ++ position.render ++ "] = " ++ value.render ++ ")"
  | .call callee _ arguments =>
    callee.render ++ "(" ++ withCommas (Expr.renderAll arguments) ++ ")"
  | .array elements => "[" ++ withCommas (Expr.renderAll elements) ++ "]"

def Expr.renderAll : List Expr → List String
  | [] => []
  | e :: rest => e.render :: Expr.renderAll rest

end

/-- Items between braces, each followed by a blank. -/
def braced (items : List String) : String :=
  "\x7b " ++ String.join (items.map (· ++ " ")) ++ "\x7d"

mutual

def Stmt.render : Stmt → String
  | .expr e => e.render ++ ";"
  | .letVar name none => "let " ++ name.text ++ ";"
  | .letVar name (some init) => "let " ++ name.text ++ " = " ++ init.render ++ ";"
  | .block body => braced (Stmt.renderAll body)
  | .ifThen test consequence none => "if " ++ test.render ++ " then " ++ consequence.render
  | .ifThen test consequence (some alternative) =>
    "if " ++ test.render ++ " then " ++ consequence.render ++ " else " ++ alternative.render
  | .whileDo test body => "while " ++ test.render ++ " do " ++ body.render
  | .times _ count body => "do " ++ count.render ++ " times " ++ body.render
  | .breakLoop _ => "break;"
  | .define routine => Stmt.renderRoutine routine
  | .returnWith _ none => "return;"
  | .returnWith _ (some value) => "return " ++ value.render ++ ";"
  | .classDecl name superclass methods =>
    let heading :=
      match superclass with
      | none => "class " ++ name.text
      | some ref => "class " ++ name.text ++ " inherits " ++ ref.name.text
    heading ++ " " ++ braced (Stmt.renderRoutines methods)

def Stmt.renderAll : List Stmt → List String
  | [] => []
  | s :: rest => s.render :: Stmt.renderAll rest

def Stmt.renderRoutine : Routine Stmt → String
  | ⟨name, params, body⟩ =>
    "def " ++ name.text ++ "(" ++ withCommas (params.map Name.text) ++ ") " ++
      braced (Stmt.renderAll body)

def Stmt.renderRoutines : List (Routine Stmt) → List String
  | [] => []
  | r :: rest => Stmt.renderRoutine r :: Stmt.renderRoutines rest

end

def Program.render (p : Program) : String := " ".intercalate (Stmt.renderAll p)

end Jal
