import Jal.Proofs.Heap.Rooted
import Jal.Proofs.Machine.Closures

namespace Jal

/-- The links in the heap lead back, the machine stands in one of its frames, and the first of them
is the global one. -/
structure Machine.Rooted (m : Machine) : Prop where
  heap : m.heap.Rooted
  frame : m.frame.index < m.heap.frames.size
  globals : m.globals = ⟨0⟩

theorem Machine.Rooted.edit {m : Machine} {h : Heap} {name : Option String} (hm : m.Rooted)
    (e : m.heap.Edit name h) (hh : h.Rooted) : Machine.Rooted { m with heap := h } :=
  ⟨hh, Nat.lt_of_lt_of_le hm.frame e.larger.frames, hm.globals⟩

/-- The frame in which something was begun is still there when the machine goes back to it. -/
theorem Machine.Rooted.goBack {m m₁ m₂ : Machine} (hm : m.Rooted) (hm₁ : m₁.Rooted)
    (hl : m.heap.Larger m₁.heap) (hheap : m₂.heap = m₁.heap) (hframe : m₂.frame = m.frame)
    (hglobals : m₂.globals = m₁.globals) : m₂.Rooted where
  heap := hheap ▸ hm₁.heap
  frame := by
    rw [hheap, hframe]
    exact Nat.lt_of_lt_of_le hm.frame hl.frames
  globals := hglobals.trans hm₁.globals

structure Machine.RootedOver (h : Heap) (m : Machine) : Prop where
  machine : m.Rooted
  larger : h.Larger m.heap

theorem Machine.Rooted.over {m : Machine} (hm : m.Rooted) : m.RootedOver m.heap := ⟨hm, .refl _⟩

theorem Value.Simple.livesIn {h : Heap} {v : Value} (hv : v.Simple) : v.LivesIn h := by
  cases hv <;> trivial

/-- However the action ends, the machine is rooted and has at least as much in its heap, and what
the action gives back has the property `Q` there. -/
abbrev Run.Roots {α : Type} (m : Machine) (act : Run α) (Q : Heap → α → Prop) : Prop :=
  Triple (·.RootedOver m.heap) m act Q fun _ => True

namespace Run

variable {α β : Type} {m m' : Machine} {Q : Heap → α → Prop}

theorem Roots.ok {act : Run α} {a : α} (h : Roots m act Q) (ha : act m = .ok a m') :
    m'.Rooted ∧ m.heap.Larger m'.heap ∧ Q m'.heap a :=
  have hm' := Triple.ok h ha
  ⟨hm'.1.machine, hm'.1.larger, hm'.2⟩

theorem Roots.rooted {act : Run α} (h : Roots m act Q) : (act.final m).Rooted := h.machine.machine

theorem roots_pure (hm : m.Rooted) {a : α} (ha : Q m.heap a) : Roots m (pure a) Q :=
  triple_pure hm.over ha

theorem roots_throw (hm : m.Rooted) (e : Stop) : Roots m (throw e) Q :=
  triple_throw hm.over e fun _ _ => trivial

/-- An action that only makes one change to the heap. -/
theorem roots_edit {act : Run α} {a : α} {h : Heap} {name : Option String} (hm : m.Rooted)
    (e : m.heap.Edit name h) (hh : h.Rooted) (ha : Q h a)
    (hact : act m = .ok a { m with heap := h }) : Roots m act Q :=
  triple_of_ok hact ⟨hm.edit e hh, e.larger⟩ ha

/-- The second action is told how much there was before the first. -/
theorem Roots.bind {act : Run α} {next : α → Run β} {R : Heap → β → Prop} (h : Roots m act Q)
    (h' : ∀ a m', m'.Rooted → m.heap.Larger m'.heap → Q m'.heap a → Roots m' (next a) R) :
    Roots m (act >>= next) R := by
  refine Triple.bind h fun a m' _ hm' ha => ?_
  exact (h' a m' hm'.machine hm'.larger ha).mono fun _ hm'' =>
    ⟨hm''.machine, hm'.larger.trans hm''.larger⟩

theorem Roots.inFrame {f : FrameId} {act : Run α} (hm : m.Rooted)
    (h : Roots { m with frame := f } act Q) : Roots m (inFrame f act) Q :=
  Triple.inFrame h fun _ hm' => ⟨hm.goBack hm'.machine hm'.larger rfl rfl rfl, hm'.larger⟩

theorem Roots.inLoop {act : Nat → Run α} (h : Roots m.enterLoop (act m.nextLoop) Q) :
    Roots m (inLoop act) Q :=
  Triple.inLoop h fun _ hm' =>
    ⟨⟨hm'.machine.heap, hm'.machine.frame, hm'.machine.globals⟩, hm'.larger⟩

theorem Roots.inCall {f : FrameId} {act : Run α} (hm : m.Rooted)
    (h : Roots (m.enterCall f) act Q) : Roots m (inCall f act) Q :=
  Triple.inCall hm.over (fun _ => trivial) (fun _ => h) fun _ hm' =>
    ⟨hm.goBack hm'.machine hm'.larger rfl rfl rfl, hm'.larger⟩

theorem roots_lookUp (hm : m.Rooted) (id : Nat) (name : Name) :
    Roots m (lookUp id name) Value.LivesIn :=
  triple_lookUp hm.over id name allows_any fun _ _ _ hv => hm.heap.get? hv

theorem roots_assign (hm : m.Rooted) (ref : Reference) {v : Value} (hv : v.LivesIn m.heap) :
    Roots m (assign ref v) Value.LivesIn := by
  refine triple_assign hm.over ref v allows_any fun f => ?_
  have e : m.heap.Edit _ (m.heap.define f ref.name.text v) := .define f ref.name.text v
  exact ⟨⟨hm.edit e (hm.heap.define f _ hv), e.larger⟩, hv.later e.larger⟩

theorem roots_define (hm : m.Rooted) (name : String) {v : Value} (hv : v.LivesIn m.heap) :
    Roots m (define name v) fun _ _ => True :=
  roots_edit hm (.define m.frame name v) (hm.heap.define m.frame name hv) trivial rfl

/-- A new frame inside one that exists. -/
theorem roots_newFrame (hm : m.Rooted) {bindings : Bindings} {outer : FrameId}
    (ho : outer.index < m.heap.frames.size)
    (hb : ∀ name v, bindings.lookup name = some v → v.LivesIn m.heap) :
    Roots m (newFrame bindings outer) fun h f => f.index < h.frames.size := by
  refine roots_edit hm (.newFrame bindings (some outer)) (hm.heap.newFrame ho hb) ?_ rfl
  simp [Heap.newFrame]

theorem roots_newScope (hm : m.Rooted) :
    Roots m newScope fun h f => f.index < h.frames.size := by
  have hnew : Roots m (newFrame [] m.frame) fun h f => f.index < h.frames.size :=
    roots_newFrame hm hm.frame nofun
  exact hnew.of_eq rfl

theorem roots_newStamp (hm : m.Rooted) :
    Roots m (onHeap Heap.newStamp) fun h stamp => stamp < h.nextStamp :=
  roots_edit hm .newStamp hm.heap.newStamp (Nat.lt_succ_self m.heap.nextStamp) rfl

theorem roots_newInstance (hm : m.Rooted) {c : Class} (hc : c.LivesIn m.heap) :
    Roots m (onHeap (·.newInstance c)) fun h i => i.index < h.instances.size := by
  refine roots_edit hm (.newInstance c) (hm.heap.newInstance hc) ?_ rfl
  simp [Heap.newInstance]

theorem roots_newArray (hm : m.Rooted) {elements : List Value}
    (he : ∀ v ∈ elements, v.LivesIn m.heap) : Roots m (newArray elements) Value.LivesIn := by
  have hheap := hm.heap.newArray fun v hv => he v (List.mem_toArray.1 hv)
  refine roots_edit (a := .array ⟨m.heap.arrays.size⟩) hm (.newArray elements.toArray) hheap ?_ rfl
  simp [Value.LivesIn, Heap.newArray]

theorem roots_newFunction (hm : m.Rooted) {c : Closure} (hc : c.LivesIn m.heap) :
    Roots m (newFunction c) Value.LivesIn := by
  refine (roots_newStamp hm).bind ?_
  intro stamp m₁ hm₁ hl hs
  exact roots_pure hm₁ ⟨hc.later hl, hs⟩

theorem roots_declareFunction (hm : m.Rooted) (r : Routine Stmt) :
    Roots m (declareFunction r) fun _ _ => True := by
  have hc : Closure.LivesIn m.heap ⟨r, m.frame, false⟩ := hm.frame
  refine triple_get ((roots_newFunction hm hc).bind ?_)
  intro f m₁ hm₁ _ hf
  exact roots_define hm₁ _ hf

theorem roots_bindSelf (hm : m.Rooted) {method : Closure} (hc : method.LivesIn m.heap)
    {i : InstanceId} (hi : i.index < m.heap.instances.size) :
    Roots m (bindSelf method i) fun h c => c.LivesIn h := by
  refine (roots_newFrame hm hc fun name v hv => ?_).bind ?_
  · obtain ⟨rfl, rfl⟩ := eq_of_lookup_singleton hv
    exact hi
  · intro f m₁ hm₁ _ hf
    exact roots_pure hm₁ hf

theorem roots_boundMethod (hm : m.Rooted) {method : Closure} (hc : method.LivesIn m.heap)
    {i : InstanceId} (hi : i.index < m.heap.instances.size) :
    Roots m (do newFunction (← bindSelf method i)) Value.LivesIn := by
  refine (roots_bindSelf hm hc hi).bind ?_
  intro bound m₁ hm₁ _ hb
  exact roots_newFunction hm₁ hb

theorem roots_property (hm : m.Rooted) {i : InstanceId} (hi : i.index < m.heap.instances.size)
    (name : Name) : Roots m (property i name) Value.LivesIn := by
  refine triple_property hm.over allows_any (fun o v ho hf => hm.heap.values v (.field ho hf)) ?_
  intro o method ho _ hmethod
  have hclass : o.ofClass.LivesIn m.heap := hm.heap.values _ (.ofClass ho)
  exact roots_boundMethod hm (hclass.method hmethod) hi

theorem roots_setProperty (hm : m.Rooted) (i : InstanceId) (name : Name) {v : Value}
    (hv : v.LivesIn m.heap) : Roots m (setProperty i name v) Value.LivesIn := by
  have e : m.heap.Edit none (m.heap.setField i name.text v) := .setField i name.text v
  exact roots_edit hm e (hm.heap.setField i name.text hv) (hv.later e.larger) rfl

theorem roots_superMethod (hm : m.Rooted) (id line : Nat) (name : Name) :
    Roots m (superMethod id line name) Value.LivesIn := by
  refine triple_superMethod hm.over allows_any allows_any ?_
  intro c i f g method _ hf hg hmethod
  have hclass : c.LivesIn m.heap := hm.heap.get? hf
  exact roots_boundMethod hm (hclass.method hmethod) (hm.heap.get? hg)

theorem roots_asInstance (hm : m.Rooted) {v : Value} (hv : v.LivesIn m.heap) (name : Name) :
    Roots m (asInstance v name) fun h i => i.index < h.instances.size := by
  refine triple_asInstance hm.over v name allows_any ?_
  rintro i rfl
  exact hv

theorem roots_superclass (hm : m.Rooted) (superclass : Option Reference) :
    Roots m (superclass.mapM lookUpClass) fun h parent => ∀ c ∈ parent, c.LivesIn h := by
  refine triple_superclass hm.over superclass (fun _ _ => allows_any) nofun ?_
  rintro f name c hc _ ⟨⟩
  exact hm.heap.get? hc

theorem roots_methodFrame (hm : m.Rooted) {parent : Option Class}
    (hp : ∀ c ∈ parent, c.LivesIn m.heap) :
    Roots m (methodFrame parent) fun h f => f.index < h.frames.size := by
  cases parent with
  | none => exact triple_of_ok rfl hm.over hm.frame
  | some c =>
    refine Triple.of_eq (roots_newFrame hm hm.frame fun name v hv => ?_) rfl
    obtain ⟨rfl, rfl⟩ := eq_of_lookup_singleton hv
    exact hp c rfl

/-- The stamp of a class is newer than that of its superclass, which was looked up before. -/
theorem roots_classStamp (hm : m.Rooted) {parent : Option Class}
    (hp : ∀ c ∈ parent, c.LivesIn m.heap) :
    Roots m (onHeap Heap.newStamp) fun h stamp =>
      stamp < h.nextStamp ∧ ∀ c ∈ parent, c.LivesIn h ∧ c.own.stamp < stamp := by
  refine roots_edit hm .newStamp hm.heap.newStamp ⟨Nat.lt_succ_self _, fun c hc => ?_⟩ rfl
  exact ⟨(hp c hc).later Heap.Edit.newStamp.larger, (hp c hc).stamp⟩

theorem roots_declareClass (hm : m.Rooted) (name : Name) (superclass : Option Reference)
    (methods : List (Routine Stmt)) :
    Roots m (declareClass name superclass methods) fun _ _ => True := by
  refine (roots_superclass hm superclass).bind ?_
  intro parent m₁ hm₁ _ hparent
  refine (roots_define (v := .none) hm₁ _ trivial).bind ?_
  intro _ m₂ hm₂ hl₂ _
  have hparent₂ : ∀ c ∈ parent, c.LivesIn m₂.heap := fun c hc => (hparent c hc).later hl₂
  refine (roots_methodFrame hm₂ hparent₂).bind ?_
  intro f m₃ hm₃ hl₃ hf
  refine (roots_classStamp hm₃ fun c hc => (hparent₂ c hc).later hl₃).bind ?_
  intro stamp m₄ hm₄ hl₄ ⟨hstamp, hparent₄⟩
  refine roots_define hm₄ _ (Class.livesIn_of_parent hstamp (fun method hmethod => ?_) hparent₄)
  obtain ⟨r, -, rfl⟩ := List.mem_map.1 hmethod
  exact Nat.lt_of_lt_of_le hf hl₄.frames

/-- A superclass that is looked up is in the heap. -/
theorem holds_of_superclass {superclass : Option Reference} {parent : Option Class}
    (h : superclass.mapM lookUpClass m = .ok parent m') :
    ∀ c ∈ parent, m.heap.Holds (.classValue c) := by
  cases superclass with
  | none =>
    cases h
    exact nofun
  | some ref =>
    obtain ⟨c, m₁, hc, h⟩ := bind_eq_ok h
    cases h
    obtain ⟨-, f, -, hv⟩ := lookUp_eq_ok (lookUpClass_eq_ok hc)
    obtain ⟨frame, hf, hb⟩ := Option.bind_eq_some_iff.1 hv
    intro c' hc'
    rw [← Option.mem_some_iff.1 hc']
    exact .binding hf hb

/-- A declaration makes a class with the next stamp, above one that is in the heap already. -/
theorem declareClass_makes (hm : m.Rooted) {name : Name} {superclass : Option Reference}
    {methods : List (Routine Stmt)} (h : declareClass name superclass methods m = .ok () m') :
    ∃ c, m'.heap.get? m.frame name.text = some (.classValue c) ∧
      c.own.stamp = m.heap.nextStamp ∧ m'.heap.nextStamp = m.heap.nextStamp + 1 ∧
      ∀ parent, c.superclass? = some parent → m.heap.Holds (.classValue parent) := by
  obtain ⟨parent, m₁, hparent, h⟩ := bind_eq_ok h
  obtain ⟨_, m₂, hd, h⟩ := bind_eq_ok h
  obtain ⟨f, m₃, hf, h⟩ := bind_eq_ok h
  obtain ⟨stamp, m₄, hs, h⟩ := bind_eq_ok h
  obtain ⟨rfl, -⟩ := superclass_eq_ok hparent
  have hheld := holds_of_superclass hparent
  cases hd
  cases hs
  cases h
  cases parent with
  | none =>
    cases hf
    refine ⟨_, Heap.get?_define ?_ _ _, rfl, rfl, nofun⟩
    simpa [Heap.newStamp, Heap.define] using hm.frame
  | some c =>
    cases hf
    refine ⟨_, Heap.get?_define ?_ _ _, rfl, rfl, ?_⟩
    · simpa [Heap.newStamp, Heap.define, Heap.newFrame] using Nat.lt_succ_of_lt hm.frame
    · intro parent hp
      cases hp
      exact hheld c rfl

theorem roots_unary (hm : m.Rooted) (op : UnaryOp) (line : Nat) (v : Value) :
    Roots m (unary op line v) Value.LivesIn :=
  triple_unary hm.over op line v allows_any fun _ => Value.Simple.livesIn

theorem roots_binary (hm : m.Rooted) (op : BinaryOp) (line : Nat) (v w : Value) :
    Roots m (binary op line v w) Value.LivesIn :=
  triple_binary hm.over op line v w allows_any fun _ => Value.Simple.livesIn

theorem roots_element (hm : m.Rooted) (line : Nat) (v index : Value) :
    Roots m (element line v index) Value.LivesIn :=
  triple_element hm.over line v index allows_any hm.heap.element

theorem roots_setElement (hm : m.Rooted) (line : Nat) (v index : Value) {new : Value}
    (hn : new.LivesIn m.heap) : Roots m (setElement line v index new) Value.LivesIn := by
  refine triple_setElement hm.over line v index new allows_any fun a slot => ?_
  have e : m.heap.Edit none (m.heap.setElement a slot new) := .setElement a slot new
  exact ⟨⟨hm.edit e (hm.heap.setElement a slot hn), e.larger⟩, hn.later e.larger⟩

theorem roots_checkCall (hm : m.Rooted) (line : Nat) (callee : Value) (given : Nat) :
    Roots m (checkCall line callee given) fun _ _ => True :=
  triple_checkCall hm.over line callee given allows_any fun _ => trivial

theorem roots_repeatCount (hm : m.Rooted) (line : Nat) (v : Value) :
    Roots m (repeatCount line v) fun _ _ => True :=
  triple_repeatCount hm.over line v allows_any fun _ => trivial

theorem roots_innermostLoop (hm : m.Rooted) (line : Nat) :
    Roots m (innermostLoop line) Flow.LivesIn :=
  triple_innermostLoop hm.over line allows_any fun _ => trivial

theorem roots_result (hm : m.Rooted) (c : Closure) {flow : Flow} (hf : flow.LivesIn m.heap) :
    Roots m (result c flow) Value.LivesIn := by
  refine triple_result hm.over c flow trivial (fun v hv => hm.heap.get? hv) ?_ trivial
  rintro v rfl
  exact hf

theorem roots_callNative (hm : m.Rooted) (f : Native) (arguments : List Value) :
    Roots m (callNative f arguments) Value.LivesIn :=
  triple_callNative (fun _ => ⟨⟨hm.heap, hm.frame, hm.globals⟩, .refl _⟩) f arguments
    (fun _ _ => trivial)
    fun _ => Value.Simple.livesIn

end Run

end Jal
