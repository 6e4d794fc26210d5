import Jal.Proofs.Program.Words

namespace Jal

mutual

def Expr.ids : Expr → List Nat
  | .literal _ => []
  | .grouping inner => inner.ids
  | .unary _ _ operand => operand.ids
  | .binary _ _ left right => left.ids ++ right.ids
  | .logical _ left right => left.ids ++ right.ids
  | .variable ref => [ref.id]
  | .assign ref value => value.ids ++ [ref.id]
  | .selfRef id _ => [id]
  | .superRef id _ _ => [id]
  | .get object _ => object.ids
  | .set object _ value => value.ids ++ object.ids
  | .index object _ position => object.ids ++ position.ids
  | .indexSet object _ position value => object.ids ++ position.ids ++ value.ids
  | .call callee _ arguments => callee.ids ++ Expr.idsOfAll arguments
  | .array elements => Expr.idsOfAll elements

def Expr.idsOfAll : List Expr → List Nat
  | [] => []
  | e :: rest => e.ids ++ Expr.idsOfAll rest

end

def Expr.idsOfOption : Option Expr → List Nat
  | none => []
  | some e => e.ids

mutual

def Stmt.ids : Stmt → List Nat
  | .expr e => e.ids
  | .letVar _ init => Expr.idsOfOption init
  | .block body => Stmt.idsOfAll body
  | .ifThen test consequence none => test.ids ++ consequence.ids
  | .ifThen test consequence (some alternative) =>
    test.ids ++ consequence.ids ++ alternative.ids
  | .whileDo test body => test.ids ++ body.ids
  | .times _ count body => count.ids ++ body.ids
  | .breakLoop _ => []
  | .define routine => Stmt.idsOfRoutine routine
  | .returnWith _ value => Expr.idsOfOption value
  | .classDecl _ superclass methods =>
    superclass.toList.map Reference.id ++ Stmt.idsOfMethods methods

def Stmt.idsOfAll : List Stmt → List Nat
  | [] => []
  | s :: rest => s.ids ++ Stmt.idsOfAll rest

def Stmt.idsOfRoutine : Routine Stmt → List Nat
  | ⟨_, _, body⟩ => Stmt.idsOfAll body

def Stmt.idsOfMethods : List (Routine Stmt) → List Nat
  | [] => []
  | r :: rest => Stmt.idsOfRoutine r ++ Stmt.idsOfMethods rest

end

def IsPlain (name : String) : Prop := name ≠ "self" ∧ name ≠ "super"

mutual

def Expr.Proper : Expr → Prop
  | .literal _ | .selfRef _ _ | .superRef _ _ _ => True
  | .grouping inner => inner.Proper
  | .unary _ _ operand => operand.Proper
  | .binary _ _ left right => left.Proper ∧ right.Proper
  | .logical _ left right => left.Proper ∧ right.Proper
  | .variable ref => IsPlain ref.name.text
  | .assign ref value => IsPlain ref.name.text ∧ value.Proper
  | .get object _ => object.Proper
  | .set object _ value => object.Proper ∧ value.Proper
  | .index object _ position => object.Proper ∧ position.Proper
  | .indexSet object _ position value => object.Proper ∧ position.Proper ∧ value.Proper
  | .call callee _ arguments => callee.Proper ∧ Expr.AllProper arguments
  | .array elements => Expr.AllProper elements

def Expr.AllProper : List Expr → Prop
  | [] => True
  | e :: rest => e.Proper ∧ Expr.AllProper rest

end

def Expr.OptionProper : Option Expr → Prop
  | none => True
  | some e => e.Proper

mutual

/-- All names are plain, and the branches of an `if` and the bodies of loops declare nothing. -/
def Stmt.Proper : Stmt → Prop
  | .expr e => e.Proper
  | .letVar name init => IsPlain name.text ∧ Expr.OptionProper init
  | .block body => Stmt.AllProper body
  | .ifThen test consequence none =>
    test.Proper ∧ consequence.isDeclaration = false ∧ consequence.Proper
  | .ifThen test consequence (some alternative) =>
    test.Proper ∧ consequence.isDeclaration = false ∧ consequence.Proper ∧
      alternative.isDeclaration = false ∧ alternative.Proper
  | .whileDo test body => test.Proper ∧ body.isDeclaration = false ∧ body.Proper
  | .times _ count body => count.Proper ∧ body.isDeclaration = false ∧ body.Proper
  | .breakLoop _ => True
  | .define routine => Stmt.RoutineProper routine
  | .returnWith _ value => Expr.OptionProper value
  | .classDecl name superclass methods =>
    IsPlain name.text ∧ (∀ ref ∈ superclass, IsPlain ref.name.text) ∧ Stmt.MethodsProper methods

def Stmt.AllProper : List Stmt → Prop
  | [] => True
  | s :: rest => s.Proper ∧ Stmt.AllProper rest

def Stmt.RoutineProper : Routine Stmt → Prop
  | ⟨name, params, body⟩ =>
    IsPlain name.text ∧ (∀ p ∈ params, IsPlain p.text) ∧ Stmt.AllProper body

def Stmt.MethodsProper : List (Routine Stmt) → Prop
  | [] => True
  | r :: rest => Stmt.RoutineProper r ∧ Stmt.MethodsProper rest

end

end Jal
