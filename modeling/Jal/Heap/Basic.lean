import Jal.Value.Basic

namespace Jal

abbrev Bindings := List (String × Value)

/-- Gives `name` a value, in its old place if it has one. -/
def Bindings.set (b : Bindings) (name : String) (v : Value) : Bindings :=
  match b with
  | [] => [(name, v)]
  | (other, w) :: rest =>
    if other = name then (name, v) :: rest else (other, w) :: Bindings.set rest name v

/-- The names declared in one run of a scope. -/
structure Frame where
  bindings : Bindings
  outer : Option FrameId
deriving Inhabited

structure Instance where
  ofClass : Class
  fields : Bindings
deriving Inhabited

structure Heap where
  frames : Array Frame
  arrays : Array (Array Value)
  instances : Array Instance
  nextStamp : Nat
deriving Inhabited

namespace Heap

def empty : Heap := ⟨#[], #[], #[], 0⟩

def newFrame (h : Heap) (bindings : Bindings) (outer : Option FrameId) : FrameId × Heap :=
  (⟨h.frames.size⟩, { h with frames := h.frames.push ⟨bindings, outer⟩ })

def newArray (h : Heap) (elements : Array Value) : ArrayId × Heap :=
  (⟨h.arrays.size⟩, { h with arrays := h.arrays.push elements })

def newInstance (h : Heap) (c : Class) : InstanceId × Heap :=
  (⟨h.instances.size⟩, { h with instances := h.instances.push ⟨c, []⟩ })

def newStamp (h : Heap) : Nat × Heap := (h.nextStamp, { h with nextStamp := h.nextStamp + 1 })

def frame? (h : Heap) (f : FrameId) : Option Frame := h.frames[f.index]?

/-- The frame `distance` links out from `f`. -/
def ancestor? (h : Heap) (f : FrameId) : Nat → Option FrameId
  | 0 => some f
  | distance + 1 => (h.frame? f).bind fun frame => frame.outer.bind (h.ancestor? · distance)

/-- The value of a name in this frame alone. -/
def get? (h : Heap) (f : FrameId) (name : String) : Option Value :=
  (h.frame? f).bind (·.bindings.lookup name)

def getAt? (h : Heap) (f : FrameId) (distance : Nat) (name : String) : Option Value :=
  (h.ancestor? f distance).bind (h.get? · name)

/-- Gives a name in a frame a value, declaring it if need be. -/
def define (h : Heap) (f : FrameId) (name : String) (v : Value) : Heap :=
  { h with
    frames := h.frames.modify f.index fun frame =>
      { frame with bindings := Bindings.set frame.bindings name v } }

def has (h : Heap) (f : FrameId) (name : String) : Bool := (h.get? f name).isSome

def elements (h : Heap) (a : ArrayId) : Array Value := h.arrays[a.index]?.getD #[]

def setElement (h : Heap) (a : ArrayId) (slot : Nat) (v : Value) : Heap :=
  { h with arrays := h.arrays.modify a.index fun elements => elements.setIfInBounds slot v }

def instance? (h : Heap) (i : InstanceId) : Option Instance := h.instances[i.index]?

def setField (h : Heap) (i : InstanceId) (name : String) (v : Value) : Heap :=
  { h with
    instances := h.instances.modify i.index fun o =>
      { o with fields := Bindings.set o.fields name v } }

end Heap

end Jal
