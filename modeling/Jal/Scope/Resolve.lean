import Jal.Scope.Basic

namespace Jal

mutual

def Expr.resolve (around : Surroundings) (scopes : Scopes) : Expr → Findings
  | .literal _ => .none
  | .grouping inner => inner.resolve around scopes
  | .unary _ _ operand => operand.resolve around scopes
  | .binary _ _ left right => left.resolve around scopes ++ right.resolve around scopes
  | .logical _ left right => left.resolve around scopes ++ right.resolve around scopes
  | .variable ref =>
    let early : Findings :=
      if scopes.initializing ref.name.text then
        .error (.selfReferenceInInitializer ref.name.line ref.name.text)
      else .none
    early ++ .reference scopes ref.id ref.name.text
  | .assign ref value => value.resolve around scopes ++ .reference scopes ref.id ref.name.text
  | .selfRef id line =>
    if around.inClass = .none then .error (.selfOutsideClass line)
    else .reference scopes id "self"
  | .superRef id line _ =>
    match around.inClass with
    | .none => .error (.superOutsideClass line)
    | .base => .error (.superWithoutSuperclass line)
    | .derived => .reference scopes id "super"
  | .get object _ => object.resolve around scopes
  | .set object _ value => value.resolve around scopes ++ object.resolve around scopes
  | .index object _ position => object.resolve around scopes ++ position.resolve around scopes
  | .indexSet object _ position value =>
    object.resolve around scopes ++ position.resolve around scopes ++ value.resolve around scopes
  | .call callee _ arguments =>
    callee.resolve around scopes ++ Expr.resolveAll around scopes arguments
  | .array elements => Expr.resolveAll around scopes elements

def Expr.resolveAll (around : Surroundings) (scopes : Scopes) : List Expr → Findings
  | [] => .none
  | e :: rest => e.resolve around scopes ++ Expr.resolveAll around scopes rest

end

def Expr.resolveOption (around : Surroundings) (scopes : Scopes) : Option Expr → Findings
  | none => .none
  | some e => e.resolve around scopes

def Scopes.enter (scopes : Scopes) (params : List Name) : Scopes :=
  params.foldl (fun scopes p => scopes.bind p.text true) ([] :: scopes)

def misplacedReturn (around : Surroundings) (line : Nat) (hasValue : Bool) : Findings :=
  match around.routine with
  | .none => .error (.returnOutsideFunction line)
  | .constructor => if hasValue then .error (.returnValueFromConstructor line) else .none
  | _ => .none

def resolveSuperclass (scopes : Scopes) (name : Name) : Option Reference → Findings
  | none => .none
  | some ref =>
    if ref.name.text = name.text then .error (.inheritFromSelf ref.name.line name.text)
    else .reference scopes ref.id ref.name.text

/-- The scopes around the methods of a class: `self`, and around it `super` if there is one. -/
def Scopes.enterClass (scopes : Scopes) (superclass : Option Reference) : Scopes :=
  match superclass with
  | none => [("self", true)] :: scopes
  | some _ => [("self", true)] :: [("super", true)] :: scopes

mutual

/-- The scopes after the statement, and what was found in it. -/
def Stmt.resolve (around : Surroundings) (scopes : Scopes) : Stmt → Scopes × Findings
  | .expr e => (scopes, e.resolve around scopes)
  | .letVar name init =>
    (scopes.bind name.text true, Expr.resolveOption around (scopes.bind name.text false) init)
  | .block body => (scopes, (Stmt.resolveAll around ([] :: scopes) body).2)
  | .ifThen test consequence none =>
    let (after, found) := consequence.resolve around scopes
    (after, test.resolve around scopes ++ found)
  | .ifThen test consequence (some alternative) =>
    let (between, found) := consequence.resolve around scopes
    let (after, found') := alternative.resolve around between
    (after, test.resolve around scopes ++ found ++ found')
  | .whileDo test body =>
    let (after, found) := body.resolve around scopes
    (after, test.resolve around scopes ++ found)
  | .times _ count body =>
    let (after, found) := body.resolve around scopes
    (after, count.resolve around scopes ++ found)
  | .breakLoop _ => (scopes, .none)
  | .define routine =>
    let scopes := scopes.bind routine.name.text true
    (scopes, Stmt.resolveRoutine { around with routine := .function } scopes routine)
  | .returnWith line value =>
    (scopes, misplacedReturn around line value.isSome ++ Expr.resolveOption around scopes value)
  | .classDecl name superclass methods =>
    let scopes := scopes.bind name.text true
    let kind : ClassKind := if superclass.isSome then .derived else .base
    (scopes,
      resolveSuperclass scopes name superclass ++
        Stmt.resolveMethods kind (scopes.enterClass superclass) methods)

def Stmt.resolveAll (around : Surroundings) (scopes : Scopes) : List Stmt → Scopes × Findings
  | [] => (scopes, .none)
  | s :: rest =>
    let (between, found) := s.resolve around scopes
    let (after, found') := Stmt.resolveAll around between rest
    (after, found ++ found')

/-- What is found in a routine, where `around` is what surrounds its body. -/
def Stmt.resolveRoutine (around : Surroundings) (scopes : Scopes) : Routine Stmt → Findings
  | ⟨_, params, body⟩ => (Stmt.resolveAll around (scopes.enter params) body).2

def Stmt.resolveMethods (kind : ClassKind) (scopes : Scopes) : List (Routine Stmt) → Findings
  | [] => .none
  | r :: rest =>
    let routineKind : RoutineKind := if r.isConstructor then .constructor else .method
    Stmt.resolveRoutine ⟨routineKind, kind⟩ scopes r ++ Stmt.resolveMethods kind scopes rest

end

/-- The depths of all references to local names, or everything that is misplaced. -/
def resolve (program : Program) : Except (List ScopeError) (List (Nat × Nat)) :=
  let found := (Stmt.resolveAll .topLevel [] program).2
  if found.errors.isEmpty then .ok found.depths else .error found.errors

def sortedById (depths : List (Nat × Nat)) : List (Nat × Nat) :=
  depths.mergeSort fun a b => a.1 ≤ b.1

end Jal
