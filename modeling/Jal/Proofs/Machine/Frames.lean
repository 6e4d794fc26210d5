import Jal.Proofs.Heap.Growth
import Jal.Proofs.Machine.Standing

namespace Jal

/-- What there is to know of a session from outside: its global frame, for which scope each other
frame was opened, the references in its programs, and those among them that the resolver has
accepted. -/
structure Setting where
  globals : FrameId
  opened : FrameId → ScopeNode → Prop
  known : Site → Prop
  accepted : Site → Prop
  orderly : ∀ site, known site → site.context.Orderly site.initOf
  allowed : ∀ site, accepted site → site.Allowed
  distinct : ∀ site site', known site → known site' → site.id = site'.id → site = site'

/-- The frames from `f` outwards were opened for the scopes of the context, and each has the names
that are ready in its scope. -/
def Heap.Chain (w : Setting) (h : Heap) (f : FrameId) : Context → Prop
  | [] => f = w.globals
  | (node, scope) :: ctx =>
    w.opened f node ∧ (∀ name, scope.lookup name = some true → h.has f name = true) ∧
      ∃ frame g, h.frame? f = some frame ∧ frame.outer = some g ∧ h.Chain w g ctx

/-- The routine is closed in frames for the scopes around it. A constructor needs a `self` to give
back. -/
structure Closure.Fits (w : Setting) (h : Heap) (c : Closure) : Prop where
  proper : Stmt.RoutineProper c.routine
  self : c.isConstructor = true → h.has c.frame "self" = true
  chain : ∃ ctx, h.Chain w c.frame ctx ∧ ∀ site ∈ Stmt.sitesOfRoutine ctx c.routine, w.known site

/-- The method is closed in frames for the scopes around its class, without a `self`. -/
structure Closure.FitsUnbound (w : Setting) (h : Heap) (method : Closure) : Prop where
  proper : Stmt.RoutineProper method.routine
  chain : ∃ ctx, h.Chain w method.frame ctx ∧
    ∀ site ∈ Stmt.sitesOfRoutine (ctx.enterSelf method.routine) method.routine, w.known site

def Class.Fits (w : Setting) (h : Heap) (c : Class) : Prop :=
  ∀ layer ∈ c.layers, ∀ method ∈ layer.methods, method.FitsUnbound w h

def Value.Fits (w : Setting) (h : Heap) : Value → Prop
  | .function c _ => c.Fits w h
  | .classValue c => c.Fits w h
  | _ => True

/-- The value may be what `name` stands for: `self` is always an instance, and `super` a class. -/
structure Value.FitsAs (w : Setting) (h : Heap) (name : String) (v : Value) : Prop where
  fits : v.Fits w h
  self : name = "self" → ∃ i, v = .object i
  super : name = "super" → ∃ c, v = .classValue c

structure Heap.Stores (w : Setting) (h h' : Heap) : Prop where
  bindings : ∀ f frame, h'.frame? f = some frame → ∀ name v, frame.bindings.lookup name = some v →
    v.FitsAs w h name
  elements : ∀ (a : ArrayId) elements, h'.arrays[a.index]? = some elements → ∀ v ∈ elements,
    v.Fits w h
  classes : ∀ i o, h'.instance? i = some o → o.ofClass.Fits w h
  fields : ∀ i o, h'.instance? i = some o → ∀ name v, o.fields.lookup name = some v → v.Fits w h

def Heap.Fits (w : Setting) (h : Heap) : Prop := h.Stores w h

variable {w : Setting} {h h' : Heap}

theorem Heap.has_eq_true {f : FrameId} {name : String} :
    h.has f name = true ↔
      ∃ frame, h.frame? f = some frame ∧ (frame.bindings.lookup name).isSome = true := by
  cases hf : h.frame? f with
  | none => simp [has, get?, hf]
  | some frame => simp [has, get?, hf]

theorem Heap.Grows.has (g : h.Grows h') {f : FrameId} {name : String}
    (hn : h.has f name = true) : h'.has f name = true := by
  obtain ⟨frame, hf, hb⟩ := has_eq_true.1 hn
  obtain ⟨frame', hf', -, hb'⟩ := g.frames f frame hf
  exact has_eq_true.2 ⟨frame', hf', hb' name hb⟩

theorem Heap.Chain.grow (g : h.Grows h') {ctx : Context} {f : FrameId} (hc : h.Chain w f ctx) :
    h'.Chain w f ctx := by
  -- frames keep their names and what is outside them
  induction ctx generalizing f with
  | nil => exact hc
  | cons entry ctx ih =>
    obtain ⟨ho, hn, frame, outer, hf, hl, hc⟩ := hc
    obtain ⟨frame', hf', hl', -⟩ := g.frames f frame hf
    exact ⟨ho, fun name hx => g.has (hn name hx), frame', outer, hf', hl'.trans hl, ih hc⟩

theorem Closure.Fits.grow (g : h.Grows h') {c : Closure} (hc : c.Fits w h) : c.Fits w h' := by
  obtain ⟨hp, hs, ctx, hchain, hk⟩ := hc
  exact ⟨hp, fun hi => g.has (hs hi), ctx, hchain.grow g, hk⟩

theorem Closure.FitsUnbound.grow (g : h.Grows h') {c : Closure} (hc : c.FitsUnbound w h) :
    c.FitsUnbound w h' := by
  obtain ⟨hp, ctx, hchain, hk⟩ := hc
  exact ⟨hp, ctx, hchain.grow g, hk⟩

theorem Class.Fits.grow (g : h.Grows h') {c : Class} (hc : c.Fits w h) : c.Fits w h' :=
  fun layer hl method hm => (hc layer hl method hm).grow g

theorem Value.Fits.grow (g : h.Grows h') {v : Value} (hv : v.Fits w h) : v.Fits w h' := by
  cases v with
  | function c stamp => exact Closure.Fits.grow g hv
  | classValue c => exact Class.Fits.grow g hv
  | _ => trivial

theorem Value.FitsAs.grow (g : h.Grows h') {name : String} {v : Value}
    (hv : v.FitsAs w h name) : v.FitsAs w h' name :=
  ⟨hv.fits.grow g, hv.self, hv.super⟩

theorem Value.Fits.as {v : Value} {name : String} (hv : v.Fits w h) (hn : IsPlain name) :
    v.FitsAs w h name :=
  ⟨hv, fun he => absurd he hn.1, fun he => absurd he hn.2⟩

theorem Class.Fits.method {c : Class} (hc : c.Fits w h) {name : String} {method : Closure}
    (hm : c.method? name = some method) : method.FitsUnbound w h := by
  obtain ⟨layer, hl, hm⟩ := List.exists_of_findSome?_eq_some hm
  exact hc layer hl method (List.mem_reverse.1 (List.mem_of_find?_eq_some hm))

namespace Heap

/-- Values that fit the frames before a change fit those after it. -/
theorem Stores.fits (hs : h.Stores w h') (g : h.Grows h') : h'.Fits w where
  bindings f frame hf name v hv := (hs.bindings f frame hf name v hv).grow g
  elements a elements ha v hv := (hs.elements a elements ha v hv).grow g
  classes i o ho := (hs.classes i o ho).grow g
  fields i o ho name v hv := (hs.fields i o ho name v hv).grow g

theorem Fits.get? (hh : h.Fits w) {f : FrameId} {name : String} {v : Value}
    (hv : h.get? f name = some v) : v.FitsAs w h name := by
  obtain ⟨frame, hf, hv⟩ := Option.bind_eq_some_iff.1 hv
  exact hh.bindings f frame hf name v hv

theorem Fits.element (hh : h.Fits w) (a : ArrayId) (slot : Nat) :
    ((h.elements a).getD slot .none).Fits w h := by
  unfold Heap.elements
  cases ha : h.arrays[a.index]? with
  | none => exact trivial
  | some elements =>
    by_cases hs : slot < elements.size
    · rw [Option.getD_some, Array.getD_eq_getD_getElem?, Array.getElem?_eq_getElem hs]
      exact hh.elements a elements ha _ (Array.getElem_mem hs)
    · -- out of bounds there is `none`, which fits anywhere
      rw [Option.getD_some, Array.getD_eq_getD_getElem?,
        Array.getElem?_eq_none (Nat.le_of_not_lt hs)]
      trivial

theorem Fits.newFrame (hh : h.Fits w) {bindings : Bindings} {outer : Option FrameId}
    (hb : ∀ name v, bindings.lookup name = some v → v.FitsAs w h name) :
    (h.newFrame bindings outer).2.Fits w := by
  refine Stores.fits ⟨?_, hh.elements, hh.classes, hh.fields⟩ (Edit.newFrame bindings outer).grows
  intro f frame hf name v hv
  rcases frame?_newFrame_cases hf with rfl | hf
  · exact hb name v hv
  · exact hh.bindings f frame hf name v hv

theorem Fits.newArray (hh : h.Fits w) {elements : Array Value} (he : ∀ v ∈ elements, v.Fits w h) :
    (h.newArray elements).2.Fits w := by
  refine Stores.fits ⟨hh.bindings, ?_, hh.classes, hh.fields⟩ (Edit.newArray elements).grows
  intro a old ha
  rw [Heap.newArray, Array.getElem?_push] at ha
  split at ha
  · obtain rfl := Option.some.inj ha
    exact he
  · exact hh.elements a old ha

theorem Fits.newInstance (hh : h.Fits w) {c : Class} (hc : c.Fits w h) :
    (h.newInstance c).2.Fits w := by
  have hi : ∀ i o, (h.newInstance c).2.instance? i = some o →
      o = ⟨c, []⟩ ∨ h.instance? i = some o := by
    intro i o ho
    rw [Heap.newInstance, instance?, Array.getElem?_push] at ho
    split at ho
    · exact .inl (Option.some.inj ho).symm
    · exact .inr ho
  refine Stores.fits ⟨hh.bindings, hh.elements, ?_, ?_⟩ (Edit.newInstance c).grows
  · intro i o ho
    rcases hi i o ho with rfl | ho
    · exact hc
    · exact hh.classes i o ho
  · intro i o ho name v hv
    rcases hi i o ho with rfl | ho
    · cases hv
    · exact hh.fields i o ho name v hv

theorem Fits.newStamp (hh : h.Fits w) : h.newStamp.2.Fits w :=
  Stores.fits ⟨hh.bindings, hh.elements, hh.classes, hh.fields⟩ Edit.newStamp.grows

/-- The value has to fit only once the name is there: a function is closed in the very frame in
which it is declared. -/
theorem Fits.define (hh : h.Fits w) (f : FrameId) {name : String} {v : Value}
    (hv : v.FitsAs w (h.define f name v) name) : (h.define f name v).Fits w := by
  have g : h.Grows (h.define f name v) := (Edit.define f name v).grows
  refine ⟨?_, ?_, ?_, ?_⟩
  · intro f' frame' hf' x y hy
    rw [frame?_define] at hf'
    obtain ⟨frame, hf, rfl⟩ := Option.map_eq_some_iff.1 hf'
    -- only the binding of `name` in `f` is new
    split at hy
    · rw [Bindings.lookup_set] at hy
      split at hy
      · rename_i hx
        obtain rfl := Option.some.inj hy
        rwa [hx]
      · exact (hh.bindings f' frame hf x y hy).grow g
    · exact (hh.bindings f' frame hf x y hy).grow g
  · exact fun a elements ha v hv => (hh.elements a elements ha v hv).grow g
  · exact fun i o ho => (hh.classes i o ho).grow g
  · exact fun i o ho name v hv => (hh.fields i o ho name v hv).grow g

theorem Fits.setElement (hh : h.Fits w) (a : ArrayId) (slot : Nat) {v : Value}
    (hv : v.Fits w h) : (h.setElement a slot v).Fits w := by
  refine Stores.fits ⟨hh.bindings, ?_, hh.classes, hh.fields⟩ (Edit.setElement a slot v).grows
  intro b elements' hb x hx
  rw [Heap.setElement, Array.getElem?_modify] at hb
  split at hb
  · obtain ⟨elements, he, rfl⟩ := Option.map_eq_some_iff.1 hb
    rcases Array.mem_or_eq_of_mem_setIfInBounds hx with hx | rfl
    · exact hh.elements b elements he x hx
    · exact hv
  · exact hh.elements b elements' hb x hx

theorem Fits.setField (hh : h.Fits w) (i : InstanceId) (name : String) {v : Value}
    (hv : v.Fits w h) : (h.setField i name v).Fits w := by
  refine Stores.fits ⟨hh.bindings, hh.elements, ?_, ?_⟩ (Edit.setField i name v).grows
  · intro j o' ho
    rw [instance?_setField] at ho
    obtain ⟨o, hj, rfl⟩ := Option.map_eq_some_iff.1 ho
    split <;> exact hh.classes j o hj
  · intro j o' ho x y hy
    rw [instance?_setField] at ho
    obtain ⟨o, hj, rfl⟩ := Option.map_eq_some_iff.1 ho
    split at hy
    · rw [Bindings.lookup_set] at hy
      split at hy
      · obtain rfl := Option.some.inj hy
        exact hv
      · exact hh.fields j o hj x y hy
    · exact hh.fields j o hj x y hy

theorem Chain.ancestor {ctx : Context} {f : FrameId} (hc : h.Chain w f ctx) {d : Nat}
    {node : ScopeNode} {scope : Scope} (hd : ctx[d]? = some (node, scope)) :
    ∃ g, h.ancestor? f d = some g ∧ w.opened g node ∧
      ∀ name, scope.lookup name = some true → h.has g name = true := by
  induction ctx generalizing f d with
  | nil => cases hd
  | cons entry ctx ih =>
    obtain ⟨ho, hn, frame, outer, hf, hl, hc⟩ := hc
    cases d with
    | zero =>
      obtain rfl := Option.some.inj hd
      exact ⟨f, rfl, ho, hn⟩
    | succ d =>
      obtain ⟨g, hg, hg'⟩ := ih hc hd
      refine ⟨g, ?_, hg'⟩
      simp only [ancestor?, hf, hl, Option.bind_some, hg]

theorem has_define {f : FrameId} {frame : Frame} (hf : h.frame? f = some frame) (name : String)
    (v : Value) : (h.define f name v).has f name = true := by
  refine has_eq_true.2 ⟨{ frame with bindings := Bindings.set frame.bindings name v }, ?_, ?_⟩
  · rw [frame?_define, hf, Option.map_some, if_pos rfl]
  · rw [Bindings.lookup_set_self]
    rfl

/-- While the initializer of a variable is being run, nothing is asked of the variable. -/
theorem Chain.bind_false {ctx : Context} {f : FrameId} (hc : h.Chain w f ctx) (name : String) :
    h.Chain w f (ctx.bind name false) := by
  cases ctx with
  | nil => exact hc
  | cons entry ctx =>
    obtain ⟨ho, hn, hc⟩ := hc
    refine ⟨ho, ?_, hc⟩
    intro x hx
    by_cases he : x = name
    · rw [he, List.lookup_cons_self] at hx
      cases hx
    · rw [lookup_cons_of_ne he] at hx
      exact hn x hx

/-- A name is ready once it has been defined in the innermost frame. -/
theorem Chain.bind_true {ctx : Context} {f : FrameId} (hc : h.Chain w f ctx) {name : String}
    {v : Value} (g : (h.define f name v).Grows h') : h'.Chain w f (ctx.bind name true) := by
  have hc' := hc.grow ((Edit.define f name v).grows.trans g)
  cases ctx with
  | nil => exact hc'
  | cons entry ctx =>
    obtain ⟨-, -, frame, -, hf, -⟩ := hc
    obtain ⟨ho, hn, hc'⟩ := hc'
    refine ⟨ho, ?_, hc'⟩
    intro x hx
    by_cases he : x = name
    · rw [he]
      exact g.has (has_define hf name v)
    · rw [lookup_cons_of_ne he] at hx
      exact hn x hx

/-- A new frame inside `outer` is the innermost one of a longer chain. -/
theorem Chain.newFrame {ctx : Context} {outer : FrameId} (hc : h.Chain w outer ctx)
    {bindings : Bindings} {node : ScopeNode} {scope : Scope}
    (ho : w.opened (h.newFrame bindings (some outer)).1 node)
    (hn : ∀ name, scope.lookup name = some true → (bindings.lookup name).isSome = true) :
    (h.newFrame bindings (some outer)).2.Chain w (h.newFrame bindings (some outer)).1
      ((node, scope) :: ctx) := by
  have hf := frame?_newFrame_self h bindings (some outer)
  refine ⟨ho, ?_, _, outer, hf, rfl, hc.grow (Edit.newFrame bindings (some outer)).grows⟩
  intro name hx
  exact has_eq_true.2 ⟨_, hf, hn name hx⟩

end Heap

end Jal
