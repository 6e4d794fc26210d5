import Jal.Program.Stmt

namespace Jal

inductive ScopeError where
  | returnOutsideFunction (line : Nat)
  | returnValueFromConstructor (line : Nat)
  | selfOutsideClass (line : Nat)
  | superOutsideClass (line : Nat)
  | superWithoutSuperclass (line : Nat)
  | selfReferenceInInitializer (line : Nat) (name : String)
  | inheritFromSelf (line : Nat) (name : String)
deriving Repr, DecidableEq, Inhabited

namespace ScopeError

def line : ScopeError → Nat
  | returnOutsideFunction line => line
  | returnValueFromConstructor line => line
  | selfOutsideClass line => line
  | superOutsideClass line => line
  | superWithoutSuperclass line => line
  | selfReferenceInInitializer line _ => line
  | inheritFromSelf line _ => line

def detail : ScopeError → String
  | returnOutsideFunction _ => "can't return from top-level code"
  | returnValueFromConstructor _ => "can't return a value from a constructor"
  | selfOutsideClass _ => "can't use 'self' outside of a class"
  | superOutsideClass _ => "can't use 'super' outside of a class"
  | superWithoutSuperclass _ => "can't use 'super' in a class with no superclass"
  | selfReferenceInInitializer _ name =>
    "can't read local variable '" ++ name ++ "' in its own initializer"
  | inheritFromSelf _ name => "class '" ++ name ++ "' can't inherit from itself"

def message (e : ScopeError) : String := s!"line {e.line}: " ++ e.detail

end ScopeError

/-- The names of one scope, the latest first. A name is not ready while its initializer is being
read. -/
abbrev Scope := List (String × Bool)

/-- The scopes around a place, the innermost first. Top-level code has none. -/
abbrev Scopes := List Scope

namespace Scopes

/-- Adds a name to the innermost scope; globals are not tracked. -/
def bind (scopes : Scopes) (name : String) (ready : Bool) : Scopes :=
  match scopes with
  | [] => []
  | scope :: outer => ((name, ready) :: scope) :: outer

/-- How many scopes lie between a place and the nearest scope that has the name. -/
def depth? (scopes : Scopes) (name : String) : Option Nat :=
  scopes.findIdx? fun scope => (scope.lookup name).isSome

def initializing (scopes : Scopes) (name : String) : Bool :=
  match scopes with
  | [] => false
  | scope :: _ => scope.lookup name == some false

end Scopes

inductive RoutineKind where
  | none | function | method | constructor
deriving Repr, DecidableEq, Inhabited

inductive ClassKind where
  | none | base | derived
deriving Repr, DecidableEq, Inhabited

structure Surroundings where
  routine : RoutineKind
  inClass : ClassKind
deriving Repr, DecidableEq, Inhabited

def Surroundings.topLevel : Surroundings := ⟨.none, .none⟩

/-- What a walk over a program finds: misplaced constructs in order, and the depth of each
reference to a local name by the id of the reference. -/
structure Findings where
  errors : List ScopeError
  depths : List (Nat × Nat)
deriving Repr, Inhabited

namespace Findings

def none : Findings := ⟨[], []⟩

def error (e : ScopeError) : Findings := ⟨[e], []⟩

instance : Append Findings where
  append a b := ⟨a.errors ++ b.errors, a.depths ++ b.depths⟩

/-- The finding for a reference: its depth, unless the name is global. -/
def reference (scopes : Scopes) (id : Nat) (name : String) : Findings :=
  ⟨[], (scopes.depth? name).toList.map (id, ·)⟩

end Findings

end Jal
