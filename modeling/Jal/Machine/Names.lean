import Jal.Machine.Basic

namespace Jal

namespace Run

def frameOf (m : Machine) (id : Nat) : Option FrameId :=
  match m.depths[id]? with
  | some distance => m.heap.ancestor? m.frame distance
  | none => some m.globals

def lookUp (id : Nat) (name : Name) : Run Value := fun m =>
  match (frameOf m id).bind (m.heap.get? · name.text) with
  | some v => .ok v m
  | none => failAt name.line (.undefinedVariable name.text) m

def assign (ref : Reference) (v : Value) : Run Value := fun m =>
  match (frameOf m ref.id).filter (m.heap.has · ref.name.text) with
  | some f => .ok v { m with heap := m.heap.define f ref.name.text v }
  | none => failAt ref.name.line (.undefinedVariable ref.name.text) m

def define (name : String) (v : Value) : Run Unit := fun m =>
  .ok () { m with heap := m.heap.define m.frame name v }

def newFrame (bindings : Bindings) (outer : FrameId) : Run FrameId :=
  onHeap (·.newFrame bindings (some outer))

def newScope : Run FrameId := fun m => newFrame [] m.frame m

def newArray (elements : List Value) : Run Value := do
  let a ← onHeap (·.newArray elements.toArray)
  return .array a

def newFunction (c : Closure) : Run Value := do
  let stamp ← onHeap Heap.newStamp
  return .function c stamp

def declareFunction (routine : Routine Stmt) : Run Unit := do
  let f ← newFunction ⟨routine, (← get).frame, false⟩
  define routine.name.text f

/-- The method with `self` bound to the instance, in a frame around the method's own. -/
def bindSelf (method : Closure) (i : InstanceId) : Run Closure := do
  let frame ← newFrame [("self", .object i)] method.frame
  return { method with frame }

/-- A property of an instance. Fields hide methods, and a method comes bound to the instance. -/
def property (i : InstanceId) (name : Name) : Run Value := do
  let heap := (← get).heap
  let object := heap.instance? i
  match object.bind (·.fields.lookup name.text) with
  | some v => return v
  | none =>
    match object.bind (·.ofClass.method? name.text) with
    | some method => newFunction (← bindSelf method i)
    | none => failAt name.line (.undefinedProperty name.text)

def setProperty (i : InstanceId) (name : Name) (v : Value) : Run Value := fun m =>
  .ok v { m with heap := m.heap.setField i name.text v }

/-- The superclass in whose scope a `super` stands, and the instance that `self` is there: `self`
is bound one frame further in than `super`. -/
def superAndSelf (m : Machine) (id : Nat) : Except Fault (Class × InstanceId) :=
  match m.depths[id]? with
  | none => .error (.undefinedVariable "super")
  | some distance =>
    match m.heap.getAt? m.frame distance "super", distance with
    | some (.classValue c), inner + 1 =>
      match m.heap.getAt? m.frame inner "self" with
      | some (.object i) => .ok (c, i)
      | _ => .error (.undefinedVariable "self")
    | some (.classValue _), 0 => .error (.undefinedVariable "self")
    | _, _ => .error (.undefinedVariable "super")

def superMethod (id line : Nat) (name : Name) : Run Value := do
  let (c, i) ← liftAt line (superAndSelf (← get) id)
  match c.method? name.text with
  | some method => newFunction (← bindSelf method i)
  | none => failAt name.line (.undefinedProperty name.text)

def asInstance (v : Value) (name : Name) : Run InstanceId :=
  match v with
  | .object i => return i
  | v => failAt name.line (.notAnInstance v.type)

def lookUpClass (ref : Reference) : Run Class := do
  match ← lookUp ref.id ref.name with
  | .classValue c => return c
  | v => failAt ref.name.line (.invalidSuperclass v.type)

/-- The frame in which the methods of a class are closed: the current one, or with a superclass one
around them that holds it. -/
def methodFrame (superclass : Option Class) : Run FrameId := fun m =>
  match superclass with
  | none => .ok m.frame m
  | some c => newFrame [("super", .classValue c)] m.frame m

/-- Declares a class. Its name exists before its methods do. -/
def declareClass (name : Name) (superclass : Option Reference) (methods : List (Routine Stmt)) :
    Run Unit := do
  let parent ← superclass.mapM lookUpClass
  define name.text .none
  let frame ← methodFrame parent
  let stamp ← onHeap Heap.newStamp
  let own : Layer := ⟨stamp, name.text, methods.map fun r => ⟨r, frame, r.isConstructor⟩⟩
  define name.text (.classValue ⟨own, (parent.map Class.layers).getD []⟩)

end Run

end Jal
