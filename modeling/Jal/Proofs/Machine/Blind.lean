import Jal.Proofs.Machine.Respects

namespace Jal

def Machine.withConsole (m : Machine) (c : Console) : Machine := { m with console := c }

/-- The machine with another console and with so many calls under way. -/
def Machine.moved (m : Machine) (c : Console) (depth : Nat) : Machine :=
  { m with console := c, depth }

namespace Run

variable {α β : Type}

def mapMachine (g : Machine → Machine) :
    EStateM.Result Stop Machine α → EStateM.Result Stop Machine α
  | .ok a m => .ok a (g m)
  | .error e m => .error e (g m)

/-- The action does the same on every console and at every depth, and hands both on unchanged. -/
def Blind (act : Run α) : Prop :=
  ∀ m c d, act (m.moved c d) = mapMachine (·.moved c d) (act m)

theorem blind_pure (a : α) : Blind (pure a) := fun _ _ _ => rfl

theorem blind_throw (e : Stop) : Blind (throw e : Run α) := fun _ _ _ => rfl

theorem blind_bind {act : Run α} {next : α → Run β} (h : Blind act) (h' : ∀ a, Blind (next a)) :
    Blind (act >>= next) := by
  intro m c d
  have hm := h m c d
  cases ha : act m with
  | ok a m₁ =>
    rw [ha] at hm
    simp only [bind, EStateM.bind, ha, hm, mapMachine]
    exact h' a m₁ c d
  | error e m₁ =>
    rw [ha] at hm
    simp only [bind, EStateM.bind, ha, hm, mapMachine]

/-- An action may look at the machine apart from its console and its depth. -/
theorem blind_get {next : Machine → Run α} (h : ∀ m, Blind (next m))
    (hc : ∀ m c d, next (Machine.moved m c d) = next m) : Blind (get >>= next) := by
  intro m c d
  change next (m.moved c d) (m.moved c d) = _
  rw [hc]
  exact h m m c d

theorem blind_onHeap (f : Heap → α × Heap) : Blind (onHeap f) := fun _ _ _ => rfl

theorem blind_liftAt (line : Nat) (r : Except Fault α) : Blind (liftAt line r) := by
  cases r with
  | ok a => exact blind_pure a
  | error fault => exact blind_throw _

theorem Blind.final_eq {act : Run α} (h : Blind act) (m : Machine) :
    act.final m = (act.final m).moved m.console m.depth := by
  have hm : act m = mapMachine (·.moved m.console m.depth) (act m) := h m m.console m.depth
  cases ha : act m with
  | ok a m₁ =>
    rw [ha] at hm
    rw [final_ok ha]
    exact (EStateM.Result.ok.inj hm).2
  | error e m₁ =>
    rw [ha] at hm
    rw [final_error ha]
    exact (EStateM.Result.error.inj hm).2

/-- Whatever `g` makes of the console and the depth that the action has handed on, it could have
made of them before. -/
theorem Blind.eq_map {act : Run α} {g : Machine → Machine} (h : Blind act) (m : Machine)
    (c : Console) (d : Nat) (hg : ∀ m' : Machine, g (m'.moved m.console m.depth) = m'.moved c d) :
    act (m.moved c d) = mapMachine g (act m) := by
  have hm : act m = mapMachine (·.moved m.console m.depth) (act m) := h m m.console m.depth
  calc act (m.moved c d)
      = mapMachine (·.moved c d) (act m) := h m c d
    _ = mapMachine g (mapMachine (·.moved m.console m.depth) (act m)) := by
      cases act m <;> simp only [mapMachine, hg]
    _ = mapMachine g (act m) := by rw [← hm]

theorem blind_lookUp (id : Nat) (name : Name) : Blind (lookUp id name) := by
  intro m c d
  have hf : (frameOf (m.moved c d) id).bind ((m.moved c d).heap.get? · name.text) =
      (frameOf m id).bind (m.heap.get? · name.text) := rfl
  simp only [lookUp, hf]
  split <;> rfl

theorem blind_assign (ref : Reference) (v : Value) : Blind (assign ref v) := by
  intro m c d
  have hf : (frameOf (m.moved c d) ref.id).filter ((m.moved c d).heap.has · ref.name.text) =
      (frameOf m ref.id).filter (m.heap.has · ref.name.text) := rfl
  simp only [assign, hf]
  split <;> rfl

theorem blind_define (name : String) (v : Value) : Blind (define name v) := fun _ _ _ => rfl

theorem blind_newFrame (bindings : Bindings) (outer : FrameId) : Blind (newFrame bindings outer) :=
  blind_onHeap _

theorem blind_newScope : Blind newScope := fun _ _ _ => rfl

theorem blind_newArray (elements : List Value) : Blind (newArray elements) :=
  blind_bind (blind_onHeap _) fun _ => blind_pure _

theorem blind_newFunction (c : Closure) : Blind (newFunction c) :=
  blind_bind (blind_onHeap _) fun _ => blind_pure _

theorem blind_declareFunction (r : Routine Stmt) : Blind (declareFunction r) :=
  blind_get (fun _ => blind_bind (blind_newFunction _) fun f => blind_define _ f) fun _ _ _ => rfl

theorem blind_bindSelf (method : Closure) (i : InstanceId) : Blind (bindSelf method i) :=
  blind_bind (blind_newFrame _ _) fun _ => blind_pure _

theorem blind_boundMethod (method : Closure) (i : InstanceId) :
    Blind (do newFunction (← bindSelf method i)) :=
  blind_bind (blind_bindSelf method i) fun c => blind_newFunction c

theorem blind_property (i : InstanceId) (name : Name) : Blind (property i name) := by
  refine blind_get (fun m => ?_) fun _ _ _ => rfl
  dsimp only
  split
  · exact blind_pure _
  · split
    · exact blind_boundMethod _ i
    · exact blind_throw _

theorem blind_setProperty (i : InstanceId) (name : Name) (v : Value) :
    Blind (setProperty i name v) := fun _ _ _ => rfl

theorem blind_superMethod (id line : Nat) (name : Name) : Blind (superMethod id line name) := by
  refine blind_get (fun m => ?_) fun _ _ _ => rfl
  refine blind_bind (blind_liftAt line _) fun ⟨c, i⟩ => ?_
  dsimp only
  split
  · exact blind_boundMethod _ i
  · exact blind_throw _

theorem blind_asInstance (v : Value) (name : Name) : Blind (asInstance v name) := by
  unfold asInstance
  split
  · exact blind_pure _
  · exact blind_throw _

theorem blind_superclass (superclass : Option Reference) :
    Blind (superclass.mapM lookUpClass) := by
  cases superclass with
  | none => exact blind_pure none
  | some ref =>
    refine blind_bind (blind_bind (blind_lookUp ref.id ref.name) fun v => ?_) fun _ => blind_pure _
    split
    · exact blind_pure _
    · exact blind_throw _

theorem blind_methodFrame (parent : Option Class) : Blind (methodFrame parent) := by
  cases parent with
  | none => exact fun _ _ _ => rfl
  | some c => exact fun _ _ _ => rfl

theorem blind_declareClass (name : Name) (superclass : Option Reference)
    (methods : List (Routine Stmt)) : Blind (declareClass name superclass methods) := by
  refine blind_bind (blind_superclass superclass) fun parent => ?_
  refine blind_bind (blind_define _ _) fun _ => ?_
  refine blind_bind (blind_methodFrame parent) fun frame => ?_
  exact blind_bind (blind_onHeap _) fun stamp => blind_define _ _

theorem blind_result (c : Closure) (flow : Flow) : Blind (result c flow) := by
  unfold result
  split
  · refine blind_get (fun m => ?_) fun _ _ _ => rfl
    split
    · exact blind_pure _
    · exact blind_throw _
  · split
    · exact blind_pure _
    · exact blind_pure _

theorem blind_innermostLoop (line : Nat) : Blind (innermostLoop line) := by
  refine blind_get (fun m => ?_) fun _ _ _ => rfl
  split
  · exact blind_pure _
  · exact blind_throw _

theorem blind_repeatCount (line : Nat) (v : Value) : Blind (repeatCount line v) := by
  unfold repeatCount
  split
  · exact blind_pure _
  · exact blind_throw _

theorem blind_checkCall (line : Nat) (callee : Value) (given : Nat) :
    Blind (checkCall line callee given) := by
  unfold checkCall
  split
  · exact blind_throw _
  · split
    · exact blind_pure _
    · exact blind_throw _

theorem blind_element (line : Nat) (v index : Value) : Blind (element line v index) :=
  blind_get (fun _ => blind_bind (blind_liftAt line _) fun _ => blind_pure _) fun _ _ _ => rfl

theorem blind_setElement (line : Nat) (v index new : Value) :
    Blind (setElement line v index new) := by
  refine blind_get (fun m => ?_) fun _ _ _ => rfl
  refine blind_bind (blind_liftAt line _) fun ⟨a, slot⟩ => ?_
  refine blind_bind ?_ fun _ => blind_pure _
  exact fun _ _ _ => rfl

theorem blind_unary (op : UnaryOp) (line : Nat) (v : Value) : Blind (unary op line v) :=
  blind_get (fun _ => blind_liftAt line _) fun _ _ _ => rfl

theorem blind_binary (op : BinaryOp) (line : Nat) (v w : Value) : Blind (binary op line v w) :=
  blind_get (fun _ => blind_liftAt line _) fun _ _ _ => rfl

end Run

end Jal
