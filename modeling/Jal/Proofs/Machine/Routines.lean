import Jal.Proofs.Machine.Quiet
import Jal.Proofs.Machine.Ready

namespace Jal

inductive Heap.Holds (h : Heap) : Value → Prop where
  | binding {f : FrameId} {frame : Frame} {name : String} {v : Value}
      (hf : h.frame? f = some frame) (hv : frame.bindings.lookup name = some v) : Holds h v
  | element {a : ArrayId} {elements : Array Value} {v : Value}
      (ha : h.arrays[a.index]? = some elements) (hv : v ∈ elements) : Holds h v
  | field {i : InstanceId} {o : Instance} {name : String} {v : Value}
      (ho : h.instance? i = some o) (hv : o.fields.lookup name = some v) : Holds h v
  | ofClass {i : InstanceId} {o : Instance} (ho : h.instance? i = some o) :
      Holds h (.classValue o.ofClass)

namespace Heap

variable {h : Heap} {u : Value}

theorem holds_newFrame {bindings : Bindings} {outer : Option FrameId}
    (hu : (h.newFrame bindings outer).2.Holds u) :
    h.Holds u ∨ ∃ name, bindings.lookup name = some u := by
  cases hu with
  | binding hf hv =>
    rcases frame?_newFrame_cases hf with rfl | hf
    · exact .inr ⟨_, hv⟩
    · exact .inl (.binding hf hv)
  | element ha hv => exact .inl (.element ha hv)
  | field ho hv => exact .inl (.field ho hv)
  | ofClass ho => exact .inl (.ofClass ho)

theorem holds_newArray {elements : Array Value} (hu : (h.newArray elements).2.Holds u) :
    h.Holds u ∨ u ∈ elements := by
  cases hu with
  | binding hf hv => exact .inl (.binding hf hv)
  | element ha hv =>
    rw [Heap.newArray, Array.getElem?_push] at ha
    split at ha
    · obtain rfl := Option.some.inj ha
      exact .inr hv
    · exact .inl (.element ha hv)
  | field ho hv => exact .inl (.field ho hv)
  | ofClass ho => exact .inl (.ofClass ho)

theorem holds_newInstance {c : Class} (hu : (h.newInstance c).2.Holds u) :
    h.Holds u ∨ u = .classValue c := by
  have hnew {i : InstanceId} {o : Instance} (ho : (h.newInstance c).2.instance? i = some o) :
      o = ⟨c, []⟩ ∨ h.instance? i = some o := by
    rw [Heap.newInstance, instance?, Array.getElem?_push] at ho
    split at ho
    · exact .inl (Option.some.inj ho).symm
    · exact .inr ho
  cases hu with
  | binding hf hv => exact .inl (.binding hf hv)
  | element ha hv => exact .inl (.element ha hv)
  | field ho hv =>
    rcases hnew ho with rfl | ho
    · cases hv
    · exact .inl (.field ho hv)
  | ofClass ho =>
    rcases hnew ho with rfl | ho
    · exact .inr rfl
    · exact .inl (.ofClass ho)

theorem holds_newStamp (hu : h.newStamp.2.Holds u) : h.Holds u := by
  cases hu with
  | binding hf hv => exact .binding hf hv
  | element ha hv => exact .element ha hv
  | field ho hv => exact .field ho hv
  | ofClass ho => exact .ofClass ho

theorem holds_define {f : FrameId} {name : String} {v : Value}
    (hu : (h.define f name v).Holds u) : h.Holds u ∨ u = v := by
  cases hu with
  | binding hf hv =>
    rw [frame?_define] at hf
    obtain ⟨frame, hold, rfl⟩ := Option.map_eq_some_iff.1 hf
    split at hv
    · rw [Bindings.lookup_set] at hv
      split at hv
      · exact .inr (Option.some.inj hv).symm
      · exact .inl (.binding hold hv)
    · exact .inl (.binding hold hv)
  | element ha hv => exact .inl (.element ha hv)
  | field ho hv => exact .inl (.field ho hv)
  | ofClass ho => exact .inl (.ofClass ho)

theorem holds_setElement {a : ArrayId} {slot : Nat} {v : Value}
    (hu : (h.setElement a slot v).Holds u) : h.Holds u ∨ u = v := by
  cases hu with
  | binding hf hv => exact .inl (.binding hf hv)
  | element ha hv =>
    rw [Heap.setElement, Array.getElem?_modify] at ha
    split at ha
    · obtain ⟨elements, he, rfl⟩ := Option.map_eq_some_iff.1 ha
      rcases Array.mem_or_eq_of_mem_setIfInBounds hv with hv | hv
      · exact .inl (.element he hv)
      · exact .inr hv
    · exact .inl (.element ha hv)
  | field ho hv => exact .inl (.field ho hv)
  | ofClass ho => exact .inl (.ofClass ho)

theorem holds_setField {i : InstanceId} {name : String} {v : Value}
    (hu : (h.setField i name v).Holds u) : h.Holds u ∨ u = v := by
  cases hu with
  | binding hf hv => exact .inl (.binding hf hv)
  | element ha hv => exact .inl (.element ha hv)
  | field ho hv =>
    rw [instance?_setField] at ho
    obtain ⟨o, hold, rfl⟩ := Option.map_eq_some_iff.1 ho
    split at hv
    · rw [Bindings.lookup_set] at hv
      split at hv
      · exact .inr (Option.some.inj hv).symm
      · exact .inl (.field hold hv)
    · exact .inl (.field hold hv)
  | ofClass ho =>
    rw [instance?_setField] at ho
    obtain ⟨o, hold, rfl⟩ := Option.map_eq_some_iff.1 ho
    have hclass := Holds.ofClass hold
    split <;> exact .inl hclass

end Heap

/-- A machine starts with native functions only. -/
theorem holds_start {console : Console} {v : Value} (h : (Machine.start console).heap.Holds v) :
    ∃ f, v = .native f := by
  have hempty : ¬Heap.empty.Holds v := by
    intro hv
    cases hv with
    | binding hf => simp [Heap.empty, Heap.frame?] at hf
    | element ha => simp [Heap.empty] at ha
    | field ho => simp [Heap.empty, Heap.instance?] at ho
    | ofClass ho => simp [Heap.empty, Heap.instance?] at ho
  obtain ⟨name, hv⟩ := (Heap.holds_newFrame h).resolve_left hempty
  obtain ⟨_, _, hl, -⟩ := List.lookup_eq_some_iff.1 hv
  have hmem : (name, v) ∈ Native.all.map fun f => (f.name, Value.native f) := by
    rw [hl]
    exact List.mem_append_right _ List.mem_cons_self
  obtain ⟨f, -, he⟩ := List.mem_map.1 hmem
  exact ⟨f, (Prod.mk.inj he).2.symm⟩

variable {P : Routine Stmt → Bool → Prop} {h : Heap}

def Closure.Meets (P : Routine Stmt → Bool → Prop) (c : Closure) : Prop :=
  P c.routine c.isConstructor

/-- Among the methods of a class, those named like a constructor run as one. -/
def Class.Meets (P : Routine Stmt → Bool → Prop) (c : Class) : Prop :=
  ∀ layer ∈ c.layers, ∀ method ∈ layer.methods,
    method.isConstructor = method.routine.isConstructor ∧ method.Meets P

def Value.Meets (P : Routine Stmt → Bool → Prop) : Value → Prop
  | .function c _ => c.Meets P
  | .classValue c => c.Meets P
  | _ => True

def Flow.Meets (P : Routine Stmt → Bool → Prop) : Flow → Prop
  | .returned v => v.Meets P
  | _ => True

def Heap.Meets (P : Routine Stmt → Bool → Prop) (h : Heap) : Prop := ∀ v, h.Holds v → v.Meets P

theorem Class.Meets.method {c : Class} (hc : c.Meets P) {name : String} {method : Closure}
    (hm : c.method? name = some method) : method.Meets P := by
  obtain ⟨layer, hl, hm⟩ := List.exists_of_findSome?_eq_some hm
  exact (hc layer hl method (List.mem_reverse.1 (List.mem_of_find?_eq_some hm))).2

namespace Heap.Meets

theorem get? (hh : h.Meets P) {f : FrameId} {name : String} {v : Value}
    (hv : h.get? f name = some v) : v.Meets P := by
  obtain ⟨frame, hf, hv⟩ := Option.bind_eq_some_iff.1 hv
  exact hh v (.binding hf hv)

theorem element (hh : h.Meets P) (a : ArrayId) (slot : Nat) :
    ((h.elements a).getD slot .none).Meets P := by
  unfold Heap.elements
  cases ha : h.arrays[a.index]? with
  | none => trivial
  | some elements =>
    rw [Option.getD_some, Array.getD_eq_getD_getElem?]
    cases hv : elements[slot]? with
    | none => trivial
    | some v => exact hh v (.element ha (Array.mem_of_getElem? hv))

theorem newFrame (hh : h.Meets P) {bindings : Bindings} {outer : Option FrameId}
    (hb : ∀ name v, bindings.lookup name = some v → v.Meets P) :
    (h.newFrame bindings outer).2.Meets P := by
  intro u hu
  rcases holds_newFrame hu with hu | ⟨name, hu⟩
  · exact hh u hu
  · exact hb name u hu

theorem newArray (hh : h.Meets P) {elements : Array Value} (he : ∀ v ∈ elements, v.Meets P) :
    (h.newArray elements).2.Meets P :=
  fun u hu => (holds_newArray hu).elim (hh u) (he u)

theorem newInstance (hh : h.Meets P) {c : Class} (hc : c.Meets P) :
    (h.newInstance c).2.Meets P := by
  intro u hu
  rcases holds_newInstance hu with hu | rfl
  · exact hh u hu
  · exact hc

theorem newStamp (hh : h.Meets P) : h.newStamp.2.Meets P := fun u hu => hh u (holds_newStamp hu)

theorem define (hh : h.Meets P) (f : FrameId) (name : String) {v : Value} (hv : v.Meets P) :
    (h.define f name v).Meets P :=
  fun u hu => (holds_define hu).elim (hh u) fun he => he ▸ hv

theorem setElement (hh : h.Meets P) (a : ArrayId) (slot : Nat) {v : Value} (hv : v.Meets P) :
    (h.setElement a slot v).Meets P :=
  fun u hu => (holds_setElement hu).elim (hh u) fun he => he ▸ hv

theorem setField (hh : h.Meets P) (i : InstanceId) (name : String) {v : Value} (hv : v.Meets P) :
    (h.setField i name v).Meets P :=
  fun u hu => (holds_setField hu).elim (hh u) fun he => he ▸ hv

end Heap.Meets

theorem Value.Simple.meets {v : Value} (hv : v.Simple) : v.Meets P := by
  cases hv <;> trivial

/-- However the action ends, the closures in the heap have the property `P` afterwards; what it
gives back has `Q`, and an error has `E`. -/
abbrev Run.Leaves {α : Type} (P : Routine Stmt → Bool → Prop) (m : Machine) (act : Run α)
    (Q : α → Prop) (E : RuntimeError → Prop) : Prop :=
  Triple (fun m' => m'.heap.Meets P) m act (fun _ => Q) E

namespace Run

variable {m : Machine} {E : RuntimeError → Prop}

theorem leaves_lookUp (hm : m.heap.Meets P) (id : Nat) (name : Name)
    (hE : Allows E name.line) :
    Leaves P m (lookUp id name) (Value.Meets P) E :=
  triple_lookUp hm id name hE fun _ _ _ hv => hm.get? hv

theorem leaves_assign (hm : m.heap.Meets P) (ref : Reference) {v : Value} (hv : v.Meets P)
    (hE : Allows E ref.name.line) :
    Leaves P m (assign ref v) (Value.Meets P) E :=
  triple_assign hm ref v hE fun f => ⟨hm.define f ref.name.text hv, hv⟩

theorem leaves_define (hm : m.heap.Meets P) (name : String) {v : Value} (hv : v.Meets P) :
    Leaves P m (define name v) (fun _ => True) E :=
  triple_of_ok rfl (hm.define m.frame name hv) trivial

theorem leaves_newScope (hm : m.heap.Meets P) : Leaves P m newScope (fun _ => True) E :=
  triple_of_ok rfl (hm.newFrame nofun) trivial

theorem leaves_newArray (hm : m.heap.Meets P) {elements : List Value}
    (he : ∀ v ∈ elements, v.Meets P) : Leaves P m (newArray elements) (Value.Meets P) E :=
  triple_of_ok rfl (hm.newArray fun v hv => he v (List.mem_toArray.1 hv)) trivial

theorem leaves_newInstance (hm : m.heap.Meets P) {c : Class} (hc : c.Meets P) :
    Leaves P m (onHeap (·.newInstance c)) (fun _ => True) E :=
  triple_onHeap (hm.newInstance hc) trivial

theorem leaves_newFunction (hm : m.heap.Meets P) {c : Closure} (hc : c.Meets P) :
    Leaves P m (newFunction c) (Value.Meets P) E := triple_of_ok rfl hm.newStamp hc

theorem leaves_declareFunction (hm : m.heap.Meets P) {r : Routine Stmt} (hr : P r false) :
    Leaves P m (declareFunction r) (fun _ => True) E := by
  have hc : Closure.Meets P ⟨r, m.frame, false⟩ := hr
  refine triple_get ((leaves_newFunction hm hc).bind ?_)
  intro f m' _ hm' hf
  exact leaves_define hm' _ hf

theorem leaves_bindSelf (hm : m.heap.Meets P) {method : Closure} (hc : method.Meets P)
    (i : InstanceId) : Leaves P m (bindSelf method i) (Closure.Meets P) E := by
  refine triple_of_ok rfl (hm.newFrame ?_) hc
  intro name v hv
  obtain ⟨rfl, rfl⟩ := eq_of_lookup_singleton hv
  trivial

theorem leaves_boundMethod (hm : m.heap.Meets P) {method : Closure} (hc : method.Meets P)
    (i : InstanceId) :
    Leaves P m (do newFunction (← bindSelf method i)) (Value.Meets P) E := by
  refine (leaves_bindSelf hm hc i).bind ?_
  intro bound m' _ hm' hb
  exact leaves_newFunction hm' hb

theorem leaves_property (hm : m.heap.Meets P) (i : InstanceId) (name : Name)
    (hE : Allows E name.line) :
    Leaves P m (property i name) (Value.Meets P) E := by
  refine triple_property hm hE (fun o v hi hf => hm v (.field hi hf)) ?_
  intro o method hi _ hmethod
  have hclass : o.ofClass.Meets P := hm _ (.ofClass hi)
  exact leaves_boundMethod hm (hclass.method hmethod) i

theorem leaves_setProperty (hm : m.heap.Meets P) (i : InstanceId) (name : Name) {v : Value}
    (hv : v.Meets P) : Leaves P m (setProperty i name v) (Value.Meets P) E :=
  triple_of_ok rfl (hm.setField i name.text hv) hv

theorem leaves_superMethod (hm : m.heap.Meets P) (id line : Nat) (name : Name)
    (hE : Allows E line)
    (hE' : Allows E name.line) :
    Leaves P m (superMethod id line name) (Value.Meets P) E := by
  refine triple_superMethod hm hE hE' ?_
  intro c i f _ method _ hf _ hmethod
  have hclass : c.Meets P := hm.get? hf
  exact leaves_boundMethod hm (hclass.method hmethod) i

theorem leaves_asInstance (hm : m.heap.Meets P) (v : Value) (name : Name)
    (hE : Allows E name.line) :
    Leaves P m (asInstance v name) (fun _ => True) E :=
  triple_asInstance hm v name hE fun _ _ => trivial

theorem leaves_superclass (hm : m.heap.Meets P) (superclass : Option Reference)
    (hE : ∀ ref ∈ superclass, Allows E ref.name.line) :
    Leaves P m (superclass.mapM lookUpClass) (fun parent => ∀ c ∈ parent, c.Meets P) E := by
  refine triple_superclass hm superclass hE nofun ?_
  rintro f name c hc _ ⟨⟩
  exact hm.get? hc

theorem leaves_methodFrame (hm : m.heap.Meets P) {parent : Option Class}
    (hp : ∀ c ∈ parent, c.Meets P) : Leaves P m (methodFrame parent) (fun _ => True) E := by
  cases parent with
  | none => exact triple_of_ok rfl hm trivial
  | some c =>
    refine triple_of_ok rfl (hm.newFrame ?_) trivial
    intro name v hv
    obtain ⟨rfl, rfl⟩ := eq_of_lookup_singleton hv
    exact hp c rfl

theorem leaves_declareClass (hm : m.heap.Meets P) (name : Name) (superclass : Option Reference)
    {methods : List (Routine Stmt)} (hr : ∀ r ∈ methods, P r r.isConstructor)
    (hE : ∀ ref ∈ superclass, Allows E ref.name.line) :
    Leaves P m (declareClass name superclass methods) (fun _ => True) E := by
  refine (leaves_superclass hm superclass hE).bind ?_
  intro parent m₁ _ hm₁ hparent
  refine (leaves_define (v := .none) hm₁ _ trivial).bind ?_
  intro _ m₂ _ hm₂ _
  refine (leaves_methodFrame hm₂ hparent).bind ?_
  intro f m₃ _ hm₃ _
  refine Triple.bind (Q := fun _ _ => True) (triple_onHeap hm₃.newStamp trivial) ?_
  intro stamp m₄ _ hm₄ _
  refine leaves_define hm₄ _ ?_
  -- the first layer is the class's own, the others are its parent's
  intro layer hl method hmethod
  rcases List.mem_cons.1 hl with rfl | hl
  · obtain ⟨r, hmem, rfl⟩ := List.mem_map.1 hmethod
    exact ⟨rfl, hr r hmem⟩
  · cases parent with
    | none => cases hl
    | some c => exact hparent c rfl layer hl method hmethod

theorem leaves_unary (hm : m.heap.Meets P) (op : UnaryOp) (line : Nat) (v : Value)
    (hE : Allows E line) :
    Leaves P m (unary op line v) (Value.Meets P) E :=
  triple_unary hm op line v hE fun _ => Value.Simple.meets

theorem leaves_binary (hm : m.heap.Meets P) (op : BinaryOp) (line : Nat) (v w : Value)
    (hE : Allows E line) :
    Leaves P m (binary op line v w) (Value.Meets P) E :=
  triple_binary hm op line v w hE fun _ => Value.Simple.meets

theorem leaves_element (hm : m.heap.Meets P) (line : Nat) (v index : Value)
    (hE : Allows E line) :
    Leaves P m (element line v index) (Value.Meets P) E :=
  triple_element hm line v index hE hm.element

theorem leaves_setElement (hm : m.heap.Meets P) (line : Nat) (v index : Value) {new : Value}
    (hn : new.Meets P) (hE : Allows E line) :
    Leaves P m (setElement line v index new) (Value.Meets P) E :=
  triple_setElement hm line v index new hE fun a slot => ⟨hm.setElement a slot hn, hn⟩

theorem leaves_checkCall (hm : m.heap.Meets P) (line : Nat) (callee : Value) (given : Nat)
    (hE : Allows E line) :
    Leaves P m (checkCall line callee given) (fun _ => True) E :=
  triple_checkCall hm line callee given hE fun _ => trivial

theorem leaves_repeatCount (hm : m.heap.Meets P) (line : Nat) (v : Value)
    (hE : Allows E line) :
    Leaves P m (repeatCount line v) (fun _ => True) E :=
  triple_repeatCount hm line v hE fun _ => trivial

theorem leaves_innermostLoop (hm : m.heap.Meets P) (line : Nat)
    (hE : Allows E line) :
    Leaves P m (innermostLoop line) (Flow.Meets P) E :=
  triple_innermostLoop hm line hE fun _ => trivial

theorem leaves_callNative (hm : m.heap.Meets P) (f : Native) (arguments : List Value)
    (hE : ∀ fault : Fault, fault.isBare = true → E ⟨none, fault⟩) :
    Leaves P m (callNative f arguments) (Value.Meets P) E :=
  triple_callNative (fun _ => hm) f arguments hE fun _ => Value.Simple.meets

theorem leaves_argumentFrame (hm : m.heap.Meets P) (params : List Name) (outer : FrameId)
    {arguments : List Value} (ha : ∀ v ∈ arguments, v.Meets P) :
    Leaves P m (newFrame (bindArguments params arguments) outer) (fun _ => True) E := by
  refine triple_onHeap (hm.newFrame ?_) trivial
  exact fun name v hv => ha v (lookup_bindArguments hv).1

theorem leaves_result (hm : m.heap.Meets P) (c : Closure) {flow : Flow} (hf : flow.Meets P)
    (hE : E ⟨none, .undefinedVariable "self"⟩) :
    Leaves P m (result c flow) (Value.Meets P) E := by
  refine triple_result hm c flow hE (fun v hv => hm.get? hv) ?_ trivial
  rintro v rfl
  exact hf

end Run

end Jal
