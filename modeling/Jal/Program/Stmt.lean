import Jal.Program.Expr

namespace Jal

/-- A function or a method, with a body of statements of type `σ`. -/
structure Routine (σ : Type) where
  name : Name
  params : List Name
  body : List σ
deriving Repr, Inhabited

def constructorName : String := "constructor"

def Routine.isConstructor {σ : Type} (r : Routine σ) : Bool := r.name.text == constructorName

/-- There is no `for` among the statements: it is read as a `whileDo`, in blocks of its own. -/
inductive Stmt where
  | expr (e : Expr)
  | letVar (name : Name) (init : Option Expr)
  | block (body : List Stmt)
  | ifThen (test : Expr) (consequence : Stmt) (alternative : Option Stmt)
  | whileDo (test : Expr) (body : Stmt)
  | times (line : Nat) (count : Expr) (body : Stmt)
  | breakLoop (line : Nat)
  | define (routine : Routine Stmt)
  | returnWith (line : Nat) (value : Option Expr)
  | classDecl (name : Name) (superclass : Option Reference) (methods : List (Routine Stmt))
deriving Repr, Inhabited

abbrev Program := List Stmt

end Jal
