import Jal.Proofs.Machine.Construction
import Jal.Proofs.Machine.Routines

namespace Jal

/-- There is at least as much of everything. -/
structure Heap.Larger (h h' : Heap) : Prop where
  frames : h.frames.size ≤ h'.frames.size
  arrays : h.arrays.size ≤ h'.arrays.size
  instances : h.instances.size ≤ h'.instances.size
  stamps : h.nextStamp ≤ h'.nextStamp

def Closure.LivesIn (h : Heap) (c : Closure) : Prop := c.frame.index < h.frames.size

/-- The class has been made, after all the classes above it, and the frames of its methods exist.
A class is as old as its stamp, since stamps are handed out in order. -/
structure Class.LivesIn (h : Heap) (c : Class) : Prop where
  stamp : c.own.stamp < h.nextStamp
  descends : c.layers.Pairwise fun layer above => above.stamp < layer.stamp
  methods : ∀ layer ∈ c.layers, ∀ method ∈ layer.methods, method.LivesIn h

def Value.LivesIn (h : Heap) : Value → Prop
  | .array a => a.index < h.arrays.size
  | .object i => i.index < h.instances.size
  | .function c stamp => c.LivesIn h ∧ stamp < h.nextStamp
  | .classValue c => c.LivesIn h
  | _ => True

def Flow.LivesIn (h : Heap) : Flow → Prop
  | .returned v => v.LivesIn h
  | _ => True

/-- Every frame but the first one is inside a frame that was made before it, and what the values in
the heap refer to exists. -/
structure Heap.Rooted (h : Heap) : Prop where
  links : ∀ f frame g, h.frame? f = some frame → frame.outer = some g → g.index < f.index
  root : ∀ f frame, h.frame? f = some frame → frame.outer = none → f.index = 0
  values : ∀ v, h.Holds v → v.LivesIn h

variable {h h' h'' : Heap}

theorem Heap.Larger.refl (h : Heap) : h.Larger h :=
  ⟨Nat.le_refl _, Nat.le_refl _, Nat.le_refl _, Nat.le_refl _⟩

theorem Heap.Larger.trans (l : h.Larger h') (l' : h'.Larger h'') : h.Larger h'' where
  frames := Nat.le_trans l.frames l'.frames
  arrays := Nat.le_trans l.arrays l'.arrays
  instances := Nat.le_trans l.instances l'.instances
  stamps := Nat.le_trans l.stamps l'.stamps

theorem Heap.Edit.larger {name : Option String} (e : h.Edit name h') : h.Larger h' := by
  cases e with
  | newFrame | newArray | newInstance =>
    constructor <;> simp [Heap.newFrame, Heap.newArray, Heap.newInstance]
  | newStamp => constructor <;> simp [Heap.newStamp]
  | define | setElement | setField =>
    constructor <;> simp [Heap.define, Heap.setElement, Heap.setField]

theorem Closure.LivesIn.later (l : h.Larger h') {c : Closure} (hc : c.LivesIn h) :
    c.LivesIn h' := Nat.lt_of_lt_of_le hc l.frames

theorem Class.LivesIn.later (l : h.Larger h') {c : Class} (hc : c.LivesIn h) : c.LivesIn h' where
  stamp := Nat.lt_of_lt_of_le hc.stamp l.stamps
  descends := hc.descends
  methods layer hl method hm := (hc.methods layer hl method hm).later l

theorem Value.LivesIn.later (l : h.Larger h') {v : Value} (hv : v.LivesIn h) : v.LivesIn h' := by
  cases v with
  | array a => exact Nat.lt_of_lt_of_le hv l.arrays
  | object i => exact Nat.lt_of_lt_of_le hv l.instances
  | function c stamp => exact ⟨Closure.LivesIn.later l hv.1, Nat.lt_of_lt_of_le hv.2 l.stamps⟩
  | classValue c => exact Class.LivesIn.later l hv
  | _ => trivial

theorem Class.LivesIn.method {c : Class} (hc : c.LivesIn h) {name : String} {method : Closure}
    (hm : c.method? name = some method) : method.LivesIn h := by
  obtain ⟨layer, hl, hm⟩ := List.exists_of_findSome?_eq_some hm
  exact hc.methods layer hl method (List.mem_reverse.1 (List.mem_of_find?_eq_some hm))

theorem Class.layers_of_superclass {c parent : Class} (hp : c.superclass? = some parent) :
    c.layers = c.own :: parent.layers := by
  obtain ⟨own, _ | ⟨layer, rest⟩⟩ := c
  · cases hp
  · cases hp
    rfl

/-- The superclass of a class is older. -/
theorem Class.LivesIn.superclass_lt {c parent : Class} (hc : c.LivesIn h)
    (hp : c.superclass? = some parent) : parent.own.stamp < c.own.stamp := by
  have hd := hc.descends
  rw [layers_of_superclass hp] at hd
  exact (List.pairwise_cons.1 hd).1 parent.own List.mem_cons_self

theorem Class.LivesIn.superclass {c parent : Class} (hc : c.LivesIn h)
    (hp : c.superclass? = some parent) : parent.LivesIn h := by
  have hlayers := layers_of_superclass hp
  refine ⟨Nat.lt_trans (hc.superclass_lt hp) hc.stamp, ?_, fun layer hl => hc.methods layer ?_⟩
  · exact (List.pairwise_cons.1 (hlayers ▸ hc.descends)).2
  · rw [hlayers]
    exact List.mem_cons_of_mem _ hl

/-- A class that is made above a parent that exists. -/
theorem Class.livesIn_of_parent {own : Layer} {parent : Option Class}
    (hown : own.stamp < h.nextStamp) (hm : ∀ method ∈ own.methods, method.LivesIn h)
    (hp : ∀ c ∈ parent, c.LivesIn h ∧ c.own.stamp < own.stamp) :
    Class.LivesIn h ⟨own, (parent.map Class.layers).getD []⟩ := by
  cases parent with
  | none =>
    refine ⟨hown, List.pairwise_singleton _ _, fun layer hl => ?_⟩
    rw [List.mem_singleton.1 hl]
    exact hm
  | some c =>
    obtain ⟨hc, hlt⟩ := hp c rfl
    refine ⟨hown, List.pairwise_cons.2 ⟨fun layer hl => ?_, hc.descends⟩, fun layer hl => ?_⟩
    · rcases List.mem_cons.1 hl with rfl | hl
      · exact hlt
      · exact Nat.lt_trans ((List.pairwise_cons.1 hc.descends).1 layer hl) hlt
    · rcases List.mem_cons.1 hl with rfl | hl
      · exact hm
      · exact hc.methods layer hl

/-- The look-up of a method goes from the class over `d` superclasses and ends with the outcome. -/
inductive Class.LooksUp (name : String) : Class → Nat → Option Closure → Prop where
  | found {c : Class} {method : Closure} (h : c.own.method? name = some method) :
      LooksUp name c 0 (some method)
  | missing {c : Class} (h : c.own.method? name = none) (hp : c.superclass? = none) :
      LooksUp name c 0 none
  | above {c parent : Class} {d : Nat} {outcome : Option Closure}
      (h : c.own.method? name = none) (hp : c.superclass? = some parent)
      (hl : LooksUp name parent d outcome) : LooksUp name c (d + 1) outcome

/-- A look-up ends: it cannot pass more classes than were made before the one it starts from. -/
theorem Class.LivesIn.looksUp {c : Class} (hc : c.LivesIn h) (name : String) :
    ∃ d ≤ c.own.stamp, c.LooksUp name d (c.method? name) := by
  induction hs : c.own.stamp using Nat.strongRecOn generalizing c with
  | ind stamp ih =>
    subst hs
    rw [method?_eq]
    cases ho : c.own.method? name with
    | some method => exact ⟨0, Nat.zero_le _, .found ho⟩
    | none =>
      cases hp : c.superclass? with
      | none => exact ⟨0, Nat.zero_le _, .missing ho hp⟩
      | some parent =>
        have hlt := hc.superclass_lt hp
        obtain ⟨d, hd, hl⟩ := ih _ hlt (hc.superclass hp) rfl
        exact ⟨d + 1, Nat.lt_of_le_of_lt hd hlt, .above ho hp hl⟩

/-- The class is held by the heap, is one of the values or is above such a class. -/
inductive Heap.HasClass (h : Heap) (values : List Value) : Class → Prop where
  | held {c : Class} (hc : h.Holds (.classValue c)) : HasClass h values c
  | atHand {c : Class} (hc : .classValue c ∈ values) : HasClass h values c
  | superclass {c parent : Class} (hc : HasClass h values c) (hp : c.superclass? = some parent) :
      HasClass h values parent

namespace Heap

theorem HasClass.livesIn {values : List Value} {c : Class} (hc : h.HasClass values c)
    (hh : h.Rooted) (hv : ∀ v ∈ values, v.LivesIn h) : c.LivesIn h := by
  induction hc with
  | held hc => exact hh.values _ hc
  | atHand hc => exact hv _ hc
  | superclass _ hp ih => exact ih.superclass hp

theorem exists_frame {f : FrameId} (hf : f.index < h.frames.size) :
    ∃ frame, h.frame? f = some frame := ⟨_, Array.getElem?_eq_getElem hf⟩

theorem lt_size_of_frame? {f : FrameId} {frame : Frame} (hf : h.frame? f = some frame) :
    f.index < h.frames.size := (Array.getElem?_eq_some_iff.1 hf).1

/-- What a name stands for right after its definition in a frame that exists. -/
theorem get?_define {f : FrameId} (hf : f.index < h.frames.size) (name : String) (v : Value) :
    (h.define f name v).get? f name = some v := by
  obtain ⟨frame, hframe⟩ := exists_frame hf
  simp only [Heap.get?, frame?_define, hframe, Option.map_some, if_true, Option.bind_some,
    Bindings.lookup_set_self]

namespace Rooted

/-- From every frame the links lead to the first frame, and there they end. -/
theorem chain (hh : h.Rooted) {f : FrameId} (hf : f.index < h.frames.size) :
    ∃ d ≤ f.index, h.ancestor? f d = some ⟨0⟩ ∧ h.ancestor? f (d + 1) = none := by
  induction hi : f.index using Nat.strongRecOn generalizing f with
  | ind i ih =>
    subst hi
    obtain ⟨frame, hframe⟩ := exists_frame hf
    cases ho : frame.outer with
    | none =>
      refine ⟨0, Nat.zero_le _, ?_, ?_⟩
      · exact congrArg (fun i => some (FrameId.mk i)) (hh.root f frame hframe ho)
      · simp only [ancestor?, hframe, ho, Option.bind_some, Option.bind_none]
    | some g =>
      have hlt := hh.links f frame g hframe ho
      obtain ⟨d, hd, hroot, hend⟩ := ih _ hlt (Nat.lt_trans hlt hf) rfl
      have hup (k : Nat) : h.ancestor? f (k + 1) = h.ancestor? g k := by
        rw [ancestor?, hframe, Option.bind_some, ho, Option.bind_some]
      exact ⟨d + 1, Nat.lt_of_le_of_lt hd hlt, (hup d).trans hroot, (hup (d + 1)).trans hend⟩

theorem get? (hh : h.Rooted) {f : FrameId} {name : String} {v : Value}
    (hv : h.get? f name = some v) : v.LivesIn h := by
  obtain ⟨frame, hf, hv⟩ := Option.bind_eq_some_iff.1 hv
  exact hh.values v (.binding hf hv)

theorem element (hh : h.Rooted) (a : ArrayId) (slot : Nat) :
    ((h.elements a).getD slot .none).LivesIn h := by
  unfold Heap.elements
  cases ha : h.arrays[a.index]? with
  | none => trivial
  | some elements =>
    rw [Option.getD_some, Array.getD_eq_getD_getElem?]
    cases hv : elements[slot]? with
    | none => trivial
    | some v => exact hh.values v (.element ha (Array.mem_of_getElem? hv))

/-- A change that makes no frame and stores only what existed before it. -/
theorem after {name : Option String} (hh : h.Rooted) (e : h.Edit name h')
    (hframes : ∀ f frame', h'.frame? f = some frame' →
      ∃ frame, h.frame? f = some frame ∧ frame'.outer = frame.outer)
    (hvalues : ∀ v, h'.Holds v → h.Holds v ∨ v.LivesIn h) : h'.Rooted where
  links f frame' g hf' ho := by
    obtain ⟨frame, hf, he⟩ := hframes f frame' hf'
    exact hh.links f frame g hf (he ▸ ho)
  root f frame' hf' ho := by
    obtain ⟨frame, hf, he⟩ := hframes f frame' hf'
    exact hh.root f frame hf (he ▸ ho)
  values v hv := ((hvalues v hv).elim (hh.values v) id).later e.larger

theorem newFrame (hh : h.Rooted) {bindings : Bindings} {outer : FrameId}
    (ho : outer.index < h.frames.size)
    (hb : ∀ name v, bindings.lookup name = some v → v.LivesIn h) :
    (h.newFrame bindings (some outer)).2.Rooted := by
  have hnew {f : FrameId} {frame : Frame}
      (hf : (h.newFrame bindings (some outer)).2.frame? f = some frame) :
      f.index = h.frames.size ∧ frame.outer = some outer ∨ h.frame? f = some frame := by
    simp only [Heap.newFrame, frame?, Array.getElem?_push] at hf ⊢
    split at hf
    · next hi =>
      obtain rfl := Option.some.inj hf
      exact .inl ⟨hi, rfl⟩
    · exact .inr hf
  refine ⟨fun f frame g hf hg => ?_, fun f frame hf hn => ?_, fun v hv => ?_⟩
  · rcases hnew hf with ⟨hi, he⟩ | hf
    · rwa [hi, ← Option.some.inj (he.symm.trans hg)]
    · exact hh.links f frame g hf hg
  · rcases hnew hf with ⟨-, he⟩ | hf
    · cases he.symm.trans hn
    · exact hh.root f frame hf hn
  · refine Value.LivesIn.later (Edit.newFrame bindings (some outer)).larger ?_
    rcases holds_newFrame hv with hv | ⟨name, hv⟩
    · exact hh.values v hv
    · exact hb name v hv

theorem newArray (hh : h.Rooted) {elements : Array Value} (he : ∀ v ∈ elements, v.LivesIn h) :
    (h.newArray elements).2.Rooted :=
  hh.after (.newArray elements) (fun _ frame hf => ⟨frame, hf, rfl⟩)
    fun v hv => (holds_newArray hv).imp_right (he v)

theorem newInstance (hh : h.Rooted) {c : Class} (hc : c.LivesIn h) :
    (h.newInstance c).2.Rooted := by
  refine hh.after (.newInstance c) (fun _ frame hf => ⟨frame, hf, rfl⟩) fun v hv => ?_
  rcases holds_newInstance hv with hv | rfl
  · exact .inl hv
  · exact .inr hc

theorem newStamp (hh : h.Rooted) : h.newStamp.2.Rooted :=
  hh.after .newStamp (fun _ frame hf => ⟨frame, hf, rfl⟩) fun _ hv => .inl (holds_newStamp hv)

theorem define (hh : h.Rooted) (f : FrameId) (name : String) {v : Value} (hv : v.LivesIn h) :
    (h.define f name v).Rooted := by
  refine hh.after (.define f name v) (fun g frame' hg => ?_) fun u hu => ?_
  · rw [frame?_define] at hg
    obtain ⟨frame, hframe, rfl⟩ := Option.map_eq_some_iff.1 hg
    exact ⟨frame, hframe, by split <;> rfl⟩
  · rcases holds_define hu with hu | rfl
    · exact .inl hu
    · exact .inr hv

theorem setElement (hh : h.Rooted) (a : ArrayId) (slot : Nat) {v : Value} (hv : v.LivesIn h) :
    (h.setElement a slot v).Rooted := by
  refine hh.after (.setElement a slot v) (fun _ frame hf => ⟨frame, hf, rfl⟩) fun u hu => ?_
  rcases holds_setElement hu with hu | rfl
  · exact .inl hu
  · exact .inr hv

theorem setField (hh : h.Rooted) (i : InstanceId) (name : String) {v : Value}
    (hv : v.LivesIn h) : (h.setField i name v).Rooted := by
  refine hh.after (.setField i name v) (fun _ frame hf => ⟨frame, hf, rfl⟩) fun u hu => ?_
  rcases holds_setField hu with hu | rfl
  · exact .inl hu
  · exact .inr hv

end Rooted

end Heap

end Jal
