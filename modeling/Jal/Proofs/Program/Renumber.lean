import Jal.Grammar.Statement

namespace Jal

def Reference.renumber (f : Nat → Nat) (ref : Reference) : Reference := ⟨f ref.id, ref.name⟩

mutual

def Expr.renumber (f : Nat → Nat) : Expr → Expr
  | .literal value => .literal value
  | .grouping inner => .grouping (inner.renumber f)
  | .unary op line operand => .unary op line (operand.renumber f)
  | .binary op line left right => .binary op line (left.renumber f) (right.renumber f)
  | .logical op left right => .logical op (left.renumber f) (right.renumber f)
  | .variable ref => .variable (ref.renumber f)
  | .assign ref value => .assign (ref.renumber f) (value.renumber f)
  | .selfRef id line => .selfRef (f id) line
  | .superRef id line method => .superRef (f id) line method
  | .get object name => .get (object.renumber f) name
  | .set object name value => .set (object.renumber f) name (value.renumber f)
  | .index object line position => .index (object.renumber f) line (position.renumber f)
  | .indexSet object line position value =>
    .indexSet (object.renumber f) line (position.renumber f) (value.renumber f)
  | .call callee line arguments => .call (callee.renumber f) line (Expr.renumberAll f arguments)
  | .array elements => .array (Expr.renumberAll f elements)

def Expr.renumberAll (f : Nat → Nat) : List Expr → List Expr
  | [] => []
  | e :: rest => e.renumber f :: Expr.renumberAll f rest

end

mutual

def Stmt.renumber (f : Nat → Nat) : Stmt → Stmt
  | .expr e => .expr (e.renumber f)
  | .letVar name init => .letVar name (init.map (Expr.renumber f))
  | .block body => .block (Stmt.renumberAll f body)
  | .ifThen test consequence none => .ifThen (test.renumber f) (consequence.renumber f) none
  | .ifThen test consequence (some alternative) =>
    .ifThen (test.renumber f) (consequence.renumber f) (some (alternative.renumber f))
  | .whileDo test body => .whileDo (test.renumber f) (body.renumber f)
  | .times line count body => .times line (count.renumber f) (body.renumber f)
  | .breakLoop line => .breakLoop line
  | .define routine => .define (Stmt.renumberRoutine f routine)
  | .returnWith line value => .returnWith line (value.map (Expr.renumber f))
  | .classDecl name superclass methods =>
    .classDecl name (superclass.map (Reference.renumber f)) (Stmt.renumberMethods f methods)

def Stmt.renumberAll (f : Nat → Nat) : List Stmt → List Stmt
  | [] => []
  | s :: rest => s.renumber f :: Stmt.renumberAll f rest

def Stmt.renumberRoutine (f : Nat → Nat) : Routine Stmt → Routine Stmt
  | ⟨name, params, body⟩ => ⟨name, params, Stmt.renumberAll f body⟩

def Stmt.renumberMethods (f : Nat → Nat) : List (Routine Stmt) → List (Routine Stmt)
  | [] => []
  | r :: rest => Stmt.renumberRoutine f r :: Stmt.renumberMethods f rest

end

section

variable (f : Nat → Nat)

theorem Expr.renumberAll_eq_map (es : List Expr) :
    Expr.renumberAll f es = es.map (Expr.renumber f) := by
  induction es with
  | nil => rw [Expr.renumberAll, List.map_nil]
  | cons e rest ih => rw [Expr.renumberAll, ih, List.map_cons]

theorem Stmt.renumberAll_eq_map (body : List Stmt) :
    Stmt.renumberAll f body = body.map (Stmt.renumber f) := by
  induction body with
  | nil => rw [Stmt.renumberAll, List.map_nil]
  | cons s rest ih => rw [Stmt.renumberAll, ih, List.map_cons]

theorem Stmt.renumberMethods_eq_map (methods : List (Routine Stmt)) :
    Stmt.renumberMethods f methods = methods.map (Stmt.renumberRoutine f) := by
  induction methods with
  | nil => rw [Stmt.renumberMethods, List.map_nil]
  | cons r rest ih => rw [Stmt.renumberMethods, ih, List.map_cons]

/-- Whether an expression can be assigned to does not depend on ids. -/
theorem Parser.assignTo?_renumber (target value : Expr) :
    assignTo? (target.renumber f) (value.renumber f) =
      (assignTo? target value).map (Expr.renumber f) := by
  cases target <;> simp [assignTo?, Expr.renumber]

theorem Parser.forLoop_renumber (init : Option Stmt) (test update : Option Expr) (body : Stmt) :
    forLoop (init.map (Stmt.renumber f)) (test.map (Expr.renumber f))
        (update.map (Expr.renumber f)) (body.renumber f) =
      (forLoop init test update body).renumber f := by
  have htest : (test.map (Expr.renumber f)).getD (.literal (.bool true)) =
      (test.getD (.literal (.bool true))).renumber f := by
    cases test <;> simp [Expr.renumber]
  cases init <;> cases update <;>
    simp [forLoop, htest, Stmt.renumber, Stmt.renumberAll]

end

end Jal
