import Jal.Proofs.Grammar.Parts

namespace Jal

def HasLine (tokens : List Token) (line : Nat) : Prop := ∃ t ∈ tokens, t.line = line

variable (tokens : List Token) (whole : Passage)

mutual

/-- The lines that the program keeps are lines of the tokens, and that of a call is the line of its
closing parenthesis in the whole that it was read from. -/
def Expr.Lined : Expr → Prop
  | .literal _ => True
  | .grouping inner => inner.Lined
  | .unary _ line operand => HasLine tokens line ∧ operand.Lined
  | .binary _ line left right => HasLine tokens line ∧ left.Lined ∧ right.Lined
  | .logical _ left right => left.Lined ∧ right.Lined
  | .variable ref => HasLine tokens ref.name.line
  | .assign ref value => HasLine tokens ref.name.line ∧ value.Lined
  | .selfRef _ line => HasLine tokens line
  | .superRef _ line method => HasLine tokens line ∧ HasLine tokens method.line
  | .get object name => HasLine tokens name.line ∧ object.Lined
  | .set object name value => (HasLine tokens name.line ∧ object.Lined) ∧ value.Lined
  | .index object line position => HasLine tokens line ∧ object.Lined ∧ position.Lined
  | .indexSet object line position value =>
    (HasLine tokens line ∧ object.Lined ∧ position.Lined) ∧ value.Lined
  | .call callee line arguments =>
    (HasLine tokens line ∧ whole.Closes (.call callee line arguments) line) ∧ callee.Lined ∧
      Expr.AllLined arguments
  | .array elements => Expr.AllLined elements

def Expr.AllLined : List Expr → Prop
  | [] => True
  | e :: rest => e.Lined ∧ Expr.AllLined rest

end

def Expr.OptionLined : Option Expr → Prop
  | none => True
  | some e => e.Lined tokens whole

mutual

def Stmt.Lined : Stmt → Prop
  | .expr e => e.Lined tokens whole
  | .letVar _ init => Expr.OptionLined tokens whole init
  | .block body => Stmt.AllLined body
  | .ifThen test consequence none => test.Lined tokens whole ∧ consequence.Lined
  | .ifThen test consequence (some alternative) =>
    test.Lined tokens whole ∧ consequence.Lined ∧ alternative.Lined
  | .whileDo test body => test.Lined tokens whole ∧ body.Lined
  | .times line count body => HasLine tokens line ∧ count.Lined tokens whole ∧ body.Lined
  | .breakLoop line => HasLine tokens line
  | .define routine => Stmt.RoutineLined routine
  | .returnWith _ value => Expr.OptionLined tokens whole value
  | .classDecl _ superclass methods =>
    (∀ ref ∈ superclass, HasLine tokens ref.name.line) ∧ Stmt.MethodsLined methods

def Stmt.AllLined : List Stmt → Prop
  | [] => True
  | s :: rest => s.Lined ∧ Stmt.AllLined rest

def Stmt.RoutineLined : Routine Stmt → Prop
  | ⟨_, _, body⟩ => Stmt.AllLined body

def Stmt.MethodsLined : List (Routine Stmt) → Prop
  | [] => True
  | r :: rest => Stmt.RoutineLined r ∧ Stmt.MethodsLined rest

end

variable {tokens whole}

theorem Stmt.RoutineLined.body {r : Routine Stmt} (h : Stmt.RoutineLined tokens whole r) :
    Stmt.AllLined tokens whole r.body := by
  obtain ⟨name, params, body⟩ := r
  exact h

theorem Stmt.MethodsLined.of_mem {r : Routine Stmt} {methods : List (Routine Stmt)}
    (h : Stmt.MethodsLined tokens whole methods) (hr : r ∈ methods) :
    Stmt.RoutineLined tokens whole r := by
  induction methods with
  | nil => cases hr
  | cons r' rest ih =>
    rcases List.mem_cons.1 hr with rfl | hr
    · exact h.1
    · exact ih h.2 hr

end Jal
