import Jal.Proofs.Machine.Activity
import Jal.Proofs.Machine.Frames

namespace Jal

variable {w : Setting} {m : Machine} {α β : Type}

theorem Value.Simple.fits {h : Heap} {v : Value} (hv : v.Simple) : v.Fits w h := by
  cases hv <;> trivial

/-- However the action ends, the heap fits afterwards, and what it gives back has the property
`Q`. -/
abbrev Run.Keeps (w : Setting) (m : Machine) (act : Run α) (Q : Heap → α → Prop) : Prop :=
  Triple (fun m' => m'.heap.Fits w) m act Q fun _ => True

namespace Run

variable {Q : Heap → α → Prop}

/-- A look-up that succeeds changes nothing. -/
theorem lookUp_eq_ok {id : Nat} {name : Name} {v : Value} {m' : Machine}
    (h : lookUp id name m = .ok v m') :
    m' = m ∧ ∃ f, frameOf m id = some f ∧ m.heap.get? f name.text = some v := by
  unfold lookUp at h
  split at h
  · rename_i x hx
    cases h
    exact ⟨rfl, Option.bind_eq_some_iff.1 hx⟩
  · cases h

theorem keeps_lookUp (hm : m.heap.Fits w) (id : Nat) (name : Name) :
    Keeps w m (lookUp id name) (Value.Fits w) :=
  triple_lookUp hm id name allows_any fun _ _ _ hv => (hm.get? hv).fits

theorem keeps_assign (hm : m.heap.Fits w) {ref : Reference} {v : Value}
    (hn : IsPlain ref.name.text) (hv : v.Fits w m.heap) :
    Keeps w m (assign ref v) (Value.Fits w) := by
  refine triple_assign hm ref v allows_any fun f => ?_
  have hv' := hv.grow (Heap.Edit.define f ref.name.text v).grows
  exact ⟨hm.define f (hv'.as hn), hv'⟩

theorem keeps_define (hm : m.heap.Fits w) {name : String} {v : Value} (hn : IsPlain name)
    (hv : v.Fits w (m.heap.define m.frame name v)) :
    Keeps w m (define name v) fun _ _ => True :=
  triple_of_ok rfl (hm.define m.frame (hv.as hn)) trivial

theorem keeps_newScope (hm : m.heap.Fits w) : Keeps w m newScope fun _ _ => True :=
  triple_of_ok rfl (hm.newFrame nofun) trivial

theorem keeps_newArray (hm : m.heap.Fits w) {elements : List Value}
    (he : ∀ v ∈ elements, v.Fits w m.heap) : Keeps w m (newArray elements) (Value.Fits w) := by
  refine Triple.bind (Q := fun _ _ => True) (triple_onHeap (hm.newArray ?_) trivial) ?_
  · intro v hv
    exact he v (List.mem_toArray.1 hv)
  · intro a m' _ hm' _
    exact triple_pure hm' trivial

theorem keeps_newInstance (hm : m.heap.Fits w) {c : Class} (hc : c.Fits w m.heap) :
    Keeps w m (onHeap (·.newInstance c)) fun h _ => c.Fits w h :=
  triple_onHeap (hm.newInstance hc) (hc.grow (Heap.Edit.newInstance c).grows)

theorem keeps_newFunction (hm : m.heap.Fits w) {c : Closure} (hc : c.Fits w m.heap) :
    Keeps w m (newFunction c) (Value.Fits w) := by
  refine Triple.bind (Q := fun h _ => c.Fits w h) (triple_onHeap hm.newStamp ?_) ?_
  · exact hc.grow Heap.Edit.newStamp.grows
  · intro stamp m' _ hm' hc'
    exact triple_pure hm' hc'

theorem bindSelf_eq (method : Closure) (i : InstanceId) :
    bindSelf method i m =
      .ok { method with frame := m.nextFrame }
        { m with heap := (m.heap.newFrame [("self", .object i)] (some method.frame)).2 } := rfl

/-- A method with a `self` is closed in frames for all scopes around it. -/
theorem keeps_bindSelf (hm : m.heap.Fits w) {method : Closure} (hc : method.FitsUnbound w m.heap)
    (ho : w.opened m.nextFrame (.selfOf method.routine)) (i : InstanceId) :
    Keeps w m (bindSelf method i) fun h c => c.Fits w h ∧ c.routine = method.routine := by
  obtain ⟨hp, ctx, hchain, hk⟩ := hc
  have hself (name : String) (v : Value)
      (hv : List.lookup name [("self", Value.object i)] = some v) : v.FitsAs w m.heap name := by
    obtain ⟨rfl, rfl⟩ := eq_of_lookup_singleton hv
    exact ⟨trivial, fun _ => ⟨i, rfl⟩, nofun⟩
  refine triple_of_ok (bindSelf_eq method i) (hm.newFrame hself) ?_
  -- the new frame is the innermost one of the chain, and it has the `self`
  refine ⟨⟨hp, ?_, ctx.enterSelf method.routine, ?_, hk⟩, rfl⟩
  · intro _
    exact Heap.has_eq_true.2 ⟨_, Heap.frame?_newFrame_self _ _ _, rfl⟩
  · refine hchain.newFrame ho ?_
    intro name hn
    obtain ⟨rfl, -⟩ := eq_of_lookup_singleton hn
    rfl

theorem keeps_boundMethod (hm : m.heap.Fits w) {method : Closure}
    (hc : method.FitsUnbound w m.heap) (ho : w.opened m.nextFrame (.selfOf method.routine))
    (i : InstanceId) :
    Keeps w m (do newFunction (← bindSelf method i)) (Value.Fits w) := by
  refine (keeps_bindSelf hm hc ho i).bind ?_
  intro c m' _ hm' hc'
  exact keeps_newFunction hm' hc'.1

theorem keeps_property (hm : m.heap.Fits w) (i : InstanceId) (name : Name)
    (ho : ∀ o method, m.heap.instance? i = some o → o.fields.lookup name.text = none →
      o.ofClass.method? name.text = some method →
      w.opened m.nextFrame (.selfOf method.routine)) :
    Keeps w m (property i name) (Value.Fits w) := by
  refine triple_property hm allows_any (fun o v hi hf => hm.fields i o hi name.text v hf) ?_
  intro o method hi hf hmethod
  exact keeps_boundMethod hm ((hm.classes i o hi).method hmethod) (ho o method hi hf hmethod) i

theorem keeps_setProperty (hm : m.heap.Fits w) (i : InstanceId) (name : Name) {v : Value}
    (hv : v.Fits w m.heap) : Keeps w m (setProperty i name v) (Value.Fits w) := by
  refine triple_of_ok rfl (hm.setField i name.text hv) ?_
  exact hv.grow (Heap.Edit.setField i name.text v).grows

theorem keeps_superMethod (hm : m.heap.Fits w) (id line : Nat) (name : Name)
    (ho : ∀ c i method, superAndSelf m id = .ok (c, i) → c.method? name.text = some method →
      w.opened m.nextFrame (.selfOf method.routine)) :
    Keeps w m (superMethod id line name) (Value.Fits w) := by
  refine triple_superMethod hm allows_any allows_any ?_
  intro c i f g method hs hf _ hmethod
  have hc : c.Fits w m.heap := (hm.get? hf).fits
  exact keeps_boundMethod hm (hc.method hmethod) (ho c i method hs hmethod) i

/-- The class that a superclass reference names. -/
theorem lookUpClass_eq_ok {ref : Reference} {c : Class} {m' : Machine}
    (h : lookUpClass ref m = .ok c m') : lookUp ref.id ref.name m = .ok (.classValue c) m' := by
  unfold lookUpClass at h
  cases hl : lookUp ref.id ref.name m with
  | error e m'' =>
    simp only [bind, EStateM.bind, hl] at h
    cases h
  | ok v m'' =>
    simp only [bind, EStateM.bind, hl] at h
    split at h
    · cases h
      rfl
    · cases h

theorem keeps_superclass (hm : m.heap.Fits w) (superclass : Option Reference) :
    Keeps w m (superclass.mapM lookUpClass) fun h parent => ∀ c ∈ parent, c.Fits w h := by
  refine triple_superclass hm superclass (fun _ _ => allows_any) nofun ?_
  rintro f name c hc _ ⟨⟩
  exact (hm.get? hc).fits

/-- The frame in which the methods of a class are closed is that of its `super`, if it has one. -/
theorem keeps_methodFrame (hm : m.heap.Fits w) {ctx : Context} {name : Name}
    {superclass : Option Reference} {methods : List (Routine Stmt)} {parent : Option Class}
    (hc : m.heap.Chain w m.frame ctx) (hp : ∀ c ∈ parent, c.Fits w m.heap)
    (hs : superclass.isSome = parent.isSome)
    (ho : ∀ ref ∈ superclass, w.opened m.nextFrame (.superOf name ref methods)) :
    Keeps w m (methodFrame parent) fun h f =>
      h.Chain w f (ctx.enterSuper name superclass methods) ∧ ∀ c ∈ parent, c.Fits w h := by
  -- there is a parent just if a superclass is named
  cases parent with
  | none =>
    cases superclass with
    | some ref => cases hs
    | none => exact triple_of_ok rfl hm ⟨hc, nofun⟩
  | some c =>
    cases superclass with
    | none => cases hs
    | some ref =>
      refine triple_of_ok rfl (hm.newFrame ?_) ?_
      · intro x v hv
        obtain ⟨rfl, rfl⟩ := eq_of_lookup_singleton hv
        exact ⟨hp c rfl, nofun, fun _ => ⟨c, rfl⟩⟩
      · refine ⟨hc.newFrame (ho ref rfl) ?_, ?_⟩
        · intro x hx
          obtain ⟨rfl, -⟩ := eq_of_lookup_singleton hx
          rfl
        · exact fun c hc => (hp c hc).grow (Heap.Edit.newFrame _ _).grows

theorem keeps_declareFunction (hm : m.heap.Fits w) {ctx : Context} {r : Routine Stmt}
    (hc : m.heap.Chain w m.frame ctx) (hp : Stmt.RoutineProper r)
    (hk : ∀ site ∈ Stmt.sitesOfRoutine (ctx.bind r.name.text true) r, w.known site) :
    Keeps w m (declareFunction r) fun _ _ => True := by
  refine triple_get ?_
  refine Triple.bind (Q := fun h v => h.Chain w m.frame ctx ∧
    ∃ stamp, v = .function ⟨r, m.frame, false⟩ stamp) ?_ ?_
  · refine Triple.bind (Q := fun h _ => h.Chain w m.frame ctx) (triple_onHeap hm.newStamp ?_) ?_
    · exact hc.grow Heap.Edit.newStamp.grows
    · intro stamp m' _ hm' hc'
      exact triple_pure hm' ⟨hc', stamp, rfl⟩
  · rintro v m' h hm' ⟨hc', stamp, rfl⟩
    have hframe : m'.frame = m.frame := by
      cases h
      rfl
    -- the function sees its own name, so it fits only with that in the frame
    refine keeps_define hm' (isPlain_of_routine hp) ?_
    rw [hframe]
    exact ⟨hp, nofun, _, hc'.bind_true (.refl _), hk⟩

theorem proper_of_mem {r : Routine Stmt} {methods : List (Routine Stmt)}
    (hp : Stmt.MethodsProper methods) (hr : r ∈ methods) : Stmt.RoutineProper r := by
  induction methods with
  | nil => cases hr
  | cons r' rest ih =>
    rcases List.mem_cons.1 hr with rfl | hr
    · exact hp.1
    · exact ih hp.2 hr

theorem mem_sitesOfMethods {ctx : Context} {r : Routine Stmt} {methods : List (Routine Stmt)}
    (hr : r ∈ methods) {site : Site} (hs : site ∈ Stmt.sitesOfRoutine (ctx.enterSelf r) r) :
    site ∈ Stmt.sitesOfMethods ctx methods := by
  induction methods with
  | nil => cases hr
  | cons r' rest ih =>
    rcases List.mem_cons.1 hr with rfl | hr
    · exact List.mem_append_left _ hs
    · exact List.mem_append_right _ (ih hr)

theorem superclass_eq_ok {superclass : Option Reference} {parent : Option Class} {m' : Machine}
    (h : superclass.mapM lookUpClass m = .ok parent m') :
    m' = m ∧ superclass.isSome = parent.isSome ∧
      ∀ ref ∈ superclass, ∃ c, lookUpClass ref m = .ok c m := by
  cases superclass with
  | none =>
    cases h
    exact ⟨rfl, rfl, nofun⟩
  | some ref =>
    cases hl : lookUpClass ref m with
    | error e m'' =>
      simp only [Option.mapM_some, Functor.map, EStateM.map, hl] at h
      cases h
    | ok c m'' =>
      obtain ⟨rfl, -⟩ := lookUp_eq_ok (lookUpClass_eq_ok hl)
      simp only [Option.mapM_some, Functor.map, EStateM.map, hl] at h
      cases h
      refine ⟨rfl, rfl, ?_⟩
      intro ref' hr
      rw [← Option.mem_some_iff.1 hr]
      exact ⟨c, hl⟩

/-- The class that a declaration makes fits, with its own methods and those of its parent. -/
theorem fits_class {h : Heap} {ctx : Context} {f : FrameId} {methods : List (Routine Stmt)}
    {parent : Option Class} (hc : h.Chain w f ctx) (hp : Stmt.MethodsProper methods)
    (hk : ∀ site ∈ Stmt.sitesOfMethods ctx methods, w.known site)
    (hparent : ∀ c ∈ parent, c.Fits w h) (stamp : Nat) (name : String) :
    Class.Fits w h
      ⟨⟨stamp, name, methods.map fun r => ⟨r, f, r.isConstructor⟩⟩,
        (parent.map Class.layers).getD []⟩ := by
  -- the first layer is the class's own, the others are its parent's
  intro layer hl
  rcases List.mem_cons.1 hl with rfl | hl
  · intro method hm
    obtain ⟨r, hr, rfl⟩ := List.mem_map.1 hm
    exact ⟨proper_of_mem hp hr, ctx, hc, fun site hs => hk site (mem_sitesOfMethods hr hs)⟩
  · cases parent with
    | none => cases hl
    | some c => exact hparent c rfl layer hl

theorem keeps_declareClass (hm : m.heap.Fits w) {ctx : Context} {name : Name}
    {superclass : Option Reference} {methods : List (Routine Stmt)}
    (hc : m.heap.Chain w m.frame ctx) (hn : IsPlain name.text) (hp : Stmt.MethodsProper methods)
    (hk : ∀ site ∈ Stmt.sitesOfMethods
      ((ctx.bind name.text true).enterSuper name superclass methods) methods, w.known site)
    (ho : ∀ ref ∈ superclass, ∀ c m', lookUpClass ref m = .ok c m' →
      w.opened m.nextFrame (.superOf name ref methods)) :
    Keeps w m (declareClass name superclass methods) fun _ _ => True := by
  refine (keeps_superclass hm superclass).bind ?_
  intro parent m₁ h₁ hm₁ hparent
  obtain ⟨rfl, hsome, hfound⟩ := superclass_eq_ok h₁
  refine (keeps_define (v := .none) hm₁ hn trivial).bind ?_
  intro _ m₂ h₂ hm₂ _
  cases h₂
  -- from here on the name is in the frame, and no frame has been made so far
  have hopened : ∀ ref ∈ superclass, w.opened m₁.nextFrame (.superOf name ref methods) := by
    intro ref hr
    obtain ⟨c, hl⟩ := hfound ref hr
    exact ho ref hr c m₁ hl
  have hnext : Machine.nextFrame { m₁ with heap := m₁.heap.define m₁.frame name.text .none } =
      m₁.nextFrame := by
    simp only [Machine.nextFrame, Heap.define, Array.size_modify]
  have hgrown : ∀ c ∈ parent, c.Fits w (m₁.heap.define m₁.frame name.text .none) :=
    fun c hc => (hparent c hc).grow (Heap.Edit.define _ _ _).grows
  refine (keeps_methodFrame hm₂ (hc.bind_true (.refl _)) hgrown hsome
    (by rwa [hnext])).bind ?_
  intro f m₃ _ hm₃ hf
  refine Triple.bind (Q := fun h _ => h.Chain w f _ ∧ ∀ c ∈ parent, c.Fits w h)
    (triple_onHeap hm₃.newStamp ⟨hf.1.grow Heap.Edit.newStamp.grows, fun c hc =>
      (hf.2 c hc).grow Heap.Edit.newStamp.grows⟩) ?_
  intro stamp m₄ _ hm₄ hf'
  -- the class takes the place of the `none` that kept its name
  refine keeps_define hm₄ hn ?_
  exact (fits_class hf'.1 hp hk hf'.2 stamp name.text).grow (Heap.Edit.define _ _ _).grows

theorem keeps_unary (hm : m.heap.Fits w) (op : UnaryOp) (line : Nat) (v : Value) :
    Keeps w m (unary op line v) (Value.Fits w) :=
  triple_unary hm op line v allows_any fun _ => Value.Simple.fits

theorem keeps_binary (hm : m.heap.Fits w) (op : BinaryOp) (line : Nat) (v v' : Value) :
    Keeps w m (binary op line v v') (Value.Fits w) :=
  triple_binary hm op line v v' allows_any fun _ => Value.Simple.fits

theorem keeps_asInstance (hm : m.heap.Fits w) (v : Value) (name : Name) :
    Keeps w m (asInstance v name) fun _ i => v = .object i :=
  triple_asInstance hm v name allows_any fun _ => id

theorem keeps_element (hm : m.heap.Fits w) (line : Nat) (v index : Value) :
    Keeps w m (element line v index) (Value.Fits w) :=
  triple_element hm line v index allows_any hm.element

theorem keeps_setElement (hm : m.heap.Fits w) (line : Nat) (v index : Value) {new : Value}
    (hn : new.Fits w m.heap) : Keeps w m (setElement line v index new) (Value.Fits w) :=
  triple_setElement hm line v index new allows_any fun a slot =>
    ⟨hm.setElement a slot hn, hn.grow (Heap.Edit.setElement a slot new).grows⟩

theorem keeps_callNative (hm : m.heap.Fits w) (f : Native) (arguments : List Value) :
    Keeps w m (callNative f arguments) (Value.Fits w) :=
  triple_callNative (fun _ => hm) f arguments (fun _ _ => trivial) fun _ => Value.Simple.fits

theorem keeps_checkCall (hm : m.heap.Fits w) (line : Nat) (callee : Value) (given : Nat) :
    Keeps w m (checkCall line callee given) fun _ _ => callee.arity? = some given :=
  triple_checkCall hm line callee given allows_any id

theorem keeps_repeatCount (hm : m.heap.Fits w) (line : Nat) (v : Value) :
    Keeps w m (repeatCount line v) fun _ _ => True :=
  triple_repeatCount hm line v allows_any fun _ => trivial

end Run

def Flow.Fits (w : Setting) (h : Heap) : Flow → Prop
  | .returned v => v.Fits w h
  | _ => True

namespace Run

theorem keeps_innermostLoop (hm : m.heap.Fits w) (line : Nat) :
    Keeps w m (innermostLoop line) (Flow.Fits w) :=
  triple_innermostLoop hm line allows_any fun _ => trivial

theorem keeps_result (hm : m.heap.Fits w) {c : Closure} {flow : Flow} (hf : flow.Fits w m.heap) :
    Keeps w m (result c flow) (Value.Fits w) := by
  refine triple_result hm c flow trivial (fun v hv => (hm.get? hv).fits) ?_ trivial
  rintro v rfl
  exact hf

end Run

end Jal
