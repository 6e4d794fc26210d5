import Jal.Machine.Eval

namespace Jal

/-- A value that refers to nothing in the heap and has no routine. -/
inductive Value.Simple : Value → Prop where
  | none : Simple .none
  | bool (b : Bool) : Simple (.bool b)
  | number (x : Float) : Simple (.number x)
  | text (s : String) : Simple (.text s)

def Fault.isBare : Fault → Bool
  | .console _ | .clock | .stackOverflow => true
  | _ => false

/-- All faults that are raised with a line may be raised on this one. -/
def Allows (E : RuntimeError → Prop) (line : Nat) : Prop :=
  ∀ fault : Fault, fault.isBare = false → E ⟨some line, fault⟩

theorem allows_any {line : Nat} : Allows (fun _ => True) line := fun _ _ => trivial

namespace Run

def final {α : Type} (act : Run α) (m : Machine) : Machine :=
  match act m with
  | .ok _ m' => m'
  | .error _ m' => m'

/-- However the action ends, `I` holds of the machine; what it gives back has the property `Q`
there, and an error has `E`. -/
structure Triple {α : Type} (I : Machine → Prop) (m : Machine) (act : Run α)
    (Q : Heap → α → Prop) (E : RuntimeError → Prop) : Prop where
  machine : I (act.final m)
  result : ∀ {a m'}, act m = .ok a m' → Q m'.heap a
  error : ∀ {e m'}, act m = .error (.error e) m' → E e

variable {α β : Type} {act : Run α} {m m' : Machine} {I J : Machine → Prop}
  {Q Q' : Heap → α → Prop} {E E' : RuntimeError → Prop}

theorem final_ok {a : α} (h : act m = .ok a m') : act.final m = m' := by
  rw [final, h]

theorem final_error {e : Stop} (h : act m = .error e m') : act.final m = m' := by
  rw [final, h]

theorem bind_of_ok {next : α → Run β} {a : α} (h : act m = .ok a m') :
    (act >>= next) m = next a m' := by
  simp only [Bind.bind, EStateM.bind, h]

theorem bind_of_error {next : α → Run β} {e : Stop} (h : act m = .error e m') :
    (act >>= next) m = .error e m' := by
  simp only [Bind.bind, EStateM.bind, h]

theorem get_bind (next : Machine → Run β) : (get >>= next) m = next m m := rfl

theorem final_bind_ok {next : α → Run β} {a : α} (h : act m = .ok a m') :
    (act >>= next).final m = (next a).final m' := by
  rw [final, bind_of_ok h, final]

theorem final_bind_error {next : α → Run β} {e : Stop} (h : act m = .error e m') :
    (act >>= next).final m = m' := final_error (bind_of_error h)

theorem Triple.ok (h : Triple I m act Q E) {a : α} (ha : act m = .ok a m') :
    I m' ∧ Q m'.heap a :=
  ⟨final_ok ha ▸ h.machine, h.result ha⟩

theorem Triple.failed (h : Triple I m act Q E) {e : Stop} (he : act m = .error e m') : I m' :=
  final_error he ▸ h.machine

theorem triple_of_ok {a : α} (h : act m = .ok a m') (hm : I m') (ha : Q m'.heap a) :
    Triple I m act Q E := by
  refine ⟨final_ok h ▸ hm, fun hb => ?_, fun he => ?_⟩
  · rw [h] at hb
    cases hb
    exact ha
  · rw [h] at he
    cases he

theorem triple_of_error {e : Stop} (h : act m = .error e m') (hm : I m')
    (hE : ∀ x, e = .error x → E x) : Triple I m act Q E := by
  refine ⟨final_error h ▸ hm, fun ha => ?_, fun he => ?_⟩
  · rw [h] at ha
    cases ha
  · rw [h] at he
    cases he
    exact hE _ rfl

/-- An action begun on one machine that ends like another one begun on another. -/
theorem Triple.of_eq {act' : Run α} {m₀ : Machine} (h : Triple I m act Q E)
    (ha : act' m₀ = act m) : Triple I m₀ act' Q E := by
  rcases hr : act m with ⟨a, m'⟩ | ⟨e, m'⟩ <;> rw [hr] at ha
  · exact triple_of_ok ha (h.ok hr).1 (h.ok hr).2
  · refine triple_of_error ha (h.failed hr) ?_
    rintro x rfl
    exact h.error hr

theorem triple_pure {a : α} (hm : I m) (ha : Q m.heap a) : Triple I m (pure a) Q E :=
  triple_of_ok rfl hm ha

theorem triple_throw (hm : I m) (e : Stop)
    (hE : ∀ x, e = .error x → E x) :
    Triple I m (throw e : Run α) Q E := triple_of_error rfl hm hE

theorem triple_failAt (hm : I m) {line : Nat} {fault : Fault} (hf : fault.isBare = false)
    (hE : Allows E line) :
    Triple I m (failAt line fault : Run α) Q E := by
  refine triple_throw hm _ ?_
  rintro _ ⟨⟩
  exact hE fault hf

theorem triple_get {next : Machine → Run α} (h : Triple I m (next m) Q E) :
    Triple I m (get >>= next) Q E := h.of_eq rfl

theorem Triple.mono (h : Triple I m act Q E) (hI : ∀ m', I m' → J m') : Triple J m act Q E :=
  ⟨hI _ h.machine, h.result, h.error⟩

theorem Triple.mapError (h : Triple I m act Q E)
    (hE : ∀ e m', act m = .error (.error e) m' → E e → E' e) : Triple I m act Q E' :=
  ⟨h.machine, h.result, fun he => hE _ _ he (h.error he)⟩

/-- One action after the other: the second is begun where the first ends. -/
theorem Triple.bind {next : α → Run β} {R : Heap → β → Prop} (h : Triple I m act Q E)
    (h' : ∀ a m', act m = .ok a m' → I m' → Q m'.heap a → Triple I m' (next a) R E) :
    Triple I m (act >>= next) R E := by
  rcases ha : act m with ⟨a, m'⟩ | ⟨e, m'⟩
  · exact (h' a m' ha (h.ok ha).1 (h.ok ha).2).of_eq (bind_of_ok ha)
  · refine triple_of_error (bind_of_error ha) (h.failed ha) ?_
    rintro x rfl
    exact h.error ha

/-- A success has the property, and a fault is one that is raised with a line. -/
inductive Ordinary (P : α → Prop) : Except Fault α → Prop where
  | ok {a : α} (h : P a) : Ordinary P (.ok a)
  | error {fault : Fault} (h : fault.isBare = false) : Ordinary P (.error fault)

theorem triple_liftAt {P : α → Prop} (hm : I m) {line : Nat} {r : Except Fault α}
    (hr : Ordinary P r) (hE : Allows E line) (hP : ∀ a, P a → Q m.heap a) :
    Triple I m (liftAt line r) Q E := by
  cases hr with
  | ok h => exact triple_pure hm (hP _ h)
  | error h => exact triple_failAt hm h hE

theorem Triple.orLine {line : Nat} (h : Triple I m act Q fun e => E (e.orLine line)) :
    Triple I m (orLine line act) Q E := by
  rcases ha : act m with ⟨a, m'⟩ | ⟨e | _, m'⟩
  · refine triple_of_ok ?_ (h.ok ha).1 (h.ok ha).2
    simp only [Run.orLine, ha]
  · have hrun : Run.orLine line act m = .error (.error (e.orLine line)) m' := by
      simp only [Run.orLine, ha]
    refine triple_of_error hrun (h.failed ha) ?_
    rintro _ ⟨⟩
    exact h.error ha
  · have hrun : Run.orLine line act m = .error .outOfFuel m' := by simp only [Run.orLine, ha]
    exact triple_of_error hrun (h.failed ha) nofun

/-- An action that runs another one elsewhere and puts the machine back when that is done. -/
theorem Triple.within {outer : Run α} (leave : Machine → Machine) (h : Triple J m' act Q E)
    (hrun : outer m =
      match act m' with
      | .ok a m => .ok a (leave m)
      | .error e m => .error e (leave m))
    (hheap : ∀ m, (leave m).heap = m.heap) (hI : ∀ m, J m → I (leave m)) :
    Triple I m outer Q E := by
  rcases ha : act m' with ⟨a, m₁⟩ | ⟨e, m₁⟩ <;> rw [ha] at hrun
  · exact triple_of_ok hrun (hI _ (h.ok ha).1) (hheap m₁ ▸ (h.ok ha).2)
  · refine triple_of_error hrun (hI _ (h.failed ha)) ?_
    rintro x rfl
    exact h.error ha

theorem Triple.inFrame {f : FrameId} (h : Triple J { m with frame := f } act Q E)
    (hI : ∀ m', J m' → I { m' with frame := m.frame }) : Triple I m (inFrame f act) Q E :=
  h.within (fun m' => { m' with frame := m.frame }) rfl (fun _ => rfl) hI

theorem Triple.inLoop {act : Nat → Run α} (h : Triple J m.enterLoop (act m.nextLoop) Q E)
    (hI : ∀ m', J m' → I m'.leaveLoop) : Triple I m (inLoop act) Q E :=
  h.within Machine.leaveLoop rfl (fun _ => rfl) hI

theorem Triple.inCall {f : FrameId} (hm : I m)
    (hE : maxDepth ≤ m.depth → E ⟨none, .stackOverflow⟩)
    (h : m.depth < maxDepth → Triple J (m.enterCall f) act Q E)
    (hI : ∀ m', J m' → I (m'.leaveCall m.frame m.loops)) :
    Triple I m (inCall f act) Q E := by
  by_cases hd : maxDepth ≤ m.depth
  · have hrun : Run.inCall f act m = .error (.error ⟨none, .stackOverflow⟩) m := by
      rw [Run.inCall, if_pos hd]
      rfl
    refine triple_of_error hrun hm ?_
    rintro _ ⟨⟩
    exact hE hd
  · refine (h (Nat.lt_of_not_le hd)).within (·.leaveCall m.frame m.loops) ?_ (fun _ => rfl) hI
    exact if_neg hd

theorem triple_onHeap {f : Heap → α × Heap} (hm : I { m with heap := (f m.heap).2 })
    (ha : Q (f m.heap).2 (f m.heap).1) : Triple I m (onHeap f) Q E := triple_of_ok rfl hm ha

theorem triple_lookUp {Q : Heap → Value → Prop} (hm : I m) (id : Nat) (name : Name)
    (hE : Allows E name.line)
    (hv : ∀ f v, frameOf m id = some f → m.heap.get? f name.text = some v → Q m.heap v) :
    Triple I m (lookUp id name) Q E := by
  cases h : (frameOf m id).bind (m.heap.get? · name.text) with
  | some v =>
    have hrun : lookUp id name m = .ok v m := by simp only [lookUp, h]
    obtain ⟨f, hf, hget⟩ := Option.bind_eq_some_iff.1 h
    exact triple_of_ok hrun hm (hv f v hf hget)
  | none =>
    have hrun : lookUp id name m = failAt name.line (.undefinedVariable name.text) m := by
      simp only [lookUp, h]
    exact (triple_failAt hm rfl hE).of_eq hrun

theorem triple_assign {Q : Heap → Value → Prop} (hm : I m) (ref : Reference) (v : Value)
    (hE : Allows E ref.name.line) (hf : ∀ f, I { m with heap := m.heap.define f ref.name.text v } ∧
      Q (m.heap.define f ref.name.text v) v) :
    Triple I m (assign ref v) Q E := by
  cases h : (frameOf m ref.id).filter (m.heap.has · ref.name.text) with
  | some f =>
    have hrun : assign ref v m = .ok v { m with heap := m.heap.define f ref.name.text v } := by
      simp only [assign, h]
    exact triple_of_ok hrun (hf f).1 (hf f).2
  | none =>
    have hrun : assign ref v m = failAt ref.name.line (.undefinedVariable ref.name.text) m := by
      simp only [assign, h]
    exact (triple_failAt hm rfl hE).of_eq hrun

/-- A property is a field, or else a method that has to be bound. -/
theorem triple_property {Q : Heap → Value → Prop} (hm : I m) {i : InstanceId} {name : Name}
    (hE : Allows E name.line)
    (hfield : ∀ o v, m.heap.instance? i = some o → o.fields.lookup name.text = some v →
      Q m.heap v)
    (hmethod : ∀ o method, m.heap.instance? i = some o → o.fields.lookup name.text = none →
      o.ofClass.method? name.text = some method →
      Triple I m (do newFunction (← bindSelf method i)) Q E) :
    Triple I m (property i name) Q E := by
  refine triple_get ?_
  dsimp only
  cases hi : m.heap.instance? i with
  | none => exact triple_failAt hm rfl hE
  | some o =>
    simp only [Option.bind_some]
    cases hf : o.fields.lookup name.text with
    | some v => exact triple_pure hm (hfield o v hi hf)
    | none =>
      dsimp only
      cases hc : o.ofClass.method? name.text with
      | none => exact triple_failAt hm rfl hE
      | some method => exact hmethod o method hi hf hc

/-- Where there is no `super` or no `self`, a variable is missing. -/
theorem superAndSelf_cases (m : Machine) (id : Nat) :
    (∃ c i f g, superAndSelf m id = .ok (c, i) ∧ m.heap.get? f "super" = some (.classValue c) ∧
      m.heap.get? g "self" = some (.object i)) ∨
      ∃ x, superAndSelf m id = .error (.undefinedVariable x) := by
  unfold superAndSelf
  split
  · exact .inr ⟨_, rfl⟩
  · split
    · next hs =>
      split
      · next hself =>
        obtain ⟨f, -, hf⟩ := Option.bind_eq_some_iff.1 hs
        obtain ⟨g, -, hg⟩ := Option.bind_eq_some_iff.1 hself
        exact .inl ⟨_, _, f, g, rfl, hf, hg⟩
      · exact .inr ⟨_, rfl⟩
    · exact .inr ⟨_, rfl⟩
    · exact .inr ⟨_, rfl⟩

theorem triple_superMethod {Q : Heap → Value → Prop} (hm : I m) {id line : Nat} {name : Name}
    (hE : Allows E line) (hE' : Allows E name.line)
    (hmethod : ∀ c i f g method, superAndSelf m id = .ok (c, i) →
      m.heap.get? f "super" = some (.classValue c) → m.heap.get? g "self" = some (.object i) →
      c.method? name.text = some method → Triple I m (do newFunction (← bindSelf method i)) Q E) :
    Triple I m (superMethod id line name) Q E := by
  refine triple_get ?_
  rcases superAndSelf_cases m id with ⟨c, i, f, g, hs, hf, hg⟩ | ⟨x, hs⟩
  · rw [hs]
    refine Triple.bind (Q := fun _ _ => True) (triple_pure hm trivial) ?_
    rintro _ _ ⟨⟩ - -
    dsimp only
    cases hc : c.method? name.text with
    | none => exact triple_failAt hm rfl hE'
    | some method => exact hmethod c i f g method hs hf hg hc
  · rw [hs]
    exact triple_failAt hm rfl hE

theorem triple_asInstance {Q : Heap → InstanceId → Prop} (hm : I m) (v : Value) (name : Name)
    (hE : Allows E name.line) (hi : ∀ i, v = .object i → Q m.heap i) :
    Triple I m (asInstance v name) Q E := by
  unfold asInstance
  split
  · exact triple_pure hm (hi _ rfl)
  · exact triple_failAt hm rfl hE

theorem triple_superclass {Q : Heap → Option Class → Prop} (hm : I m)
    (superclass : Option Reference) (hE : ∀ ref ∈ superclass, Allows E ref.name.line)
    (hnone : Q m.heap none)
    (hsome : ∀ f name c, m.heap.get? f name = some (.classValue c) → Q m.heap (some c)) :
    Triple I m (superclass.mapM lookUpClass) Q E := by
  cases superclass with
  | none => exact triple_pure hm hnone
  | some ref =>
    refine Triple.bind (Q := fun h c => h = m.heap ∧
      ∃ f, m.heap.get? f ref.name.text = some (.classValue c)) (Triple.bind (Q := fun h v =>
        h = m.heap ∧ ∃ f, m.heap.get? f ref.name.text = some v) ?_ ?_) ?_
    · exact triple_lookUp hm ref.id ref.name (hE ref rfl) fun f v _ hv => ⟨rfl, f, hv⟩
    · rintro v m' _ hm' ⟨hheap, f, hv⟩
      split
      · exact triple_pure hm' ⟨hheap, f, hv⟩
      · exact triple_failAt hm' rfl (hE ref rfl)
    · rintro c m' _ hm' ⟨hheap, f, hc⟩
      exact triple_pure hm' (hheap ▸ hsome f _ c hc)

theorem ordinary_applyUnary (h : Heap) (op : UnaryOp) (v : Value) :
    Ordinary Value.Simple (applyUnary h op v) := by
  fun_cases applyUnary h op v <;> constructor <;> first | rfl | constructor

theorem ordinary_applyNumbers (op : BinaryOp) (x y : Float) :
    Ordinary Value.Simple (applyNumbers op x y) := by
  fun_cases applyNumbers op x y <;> constructor <;> first | rfl | constructor

theorem ordinary_applyBinary (h : Heap) (op : BinaryOp) (v w : Value) :
    Ordinary Value.Simple (applyBinary h op v w) := by
  fun_cases applyBinary h op v w with
  | case3 op x y => exact ordinary_applyNumbers op x y
  | _ =>
    constructor
    first | rfl | constructor

theorem ordinary_arraySlot (h : Heap) (v index : Value) :
    Ordinary (fun _ => True) (arraySlot h v index) := by
  fun_cases arraySlot h v index <;> constructor <;> first | rfl | trivial

section Values

variable {Q : Heap → Value → Prop}

theorem triple_unary (hm : I m) (op : UnaryOp) (line : Nat) (v : Value)
    (hE : Allows E line) (hu : ∀ u : Value, u.Simple → Q m.heap u) :
    Triple I m (unary op line v) Q E :=
  triple_get (triple_liftAt hm (ordinary_applyUnary m.heap op v) hE hu)

theorem triple_binary (hm : I m) (op : BinaryOp) (line : Nat) (v w : Value)
    (hE : Allows E line) (hu : ∀ u : Value, u.Simple → Q m.heap u) :
    Triple I m (binary op line v w) Q E :=
  triple_get (triple_liftAt hm (ordinary_applyBinary m.heap op v w) hE hu)

theorem triple_element (hm : I m) (line : Nat) (v index : Value)
    (hE : Allows E line) (hu : ∀ a slot, Q m.heap ((m.heap.elements a).getD slot .none)) :
    Triple I m (element line v index) Q E := by
  have hslot := ordinary_arraySlot m.heap v index
  refine triple_get (Triple.bind (Q := fun h _ => h = m.heap)
    (triple_liftAt hm hslot hE fun _ _ => rfl) ?_)
  rintro ⟨a, slot⟩ m' _ hm' hheap
  exact triple_pure hm' (hheap ▸ hu a slot)

theorem triple_setElement (hm : I m) (line : Nat) (v index new : Value)
    (hE : Allows E line) (hu : ∀ a slot, I { m with heap := m.heap.setElement a slot new } ∧
      Q (m.heap.setElement a slot new) new) :
    Triple I m (setElement line v index new) Q E := by
  refine triple_get ?_
  have hslot := ordinary_arraySlot m.heap v index
  cases hs : arraySlot m.heap v index with
  | error fault =>
    rw [hs] at hslot
    cases hslot with
    | error hbare => exact triple_failAt hm hbare hE
  | ok found =>
    obtain ⟨a, slot⟩ := found
    exact triple_of_ok rfl (hu a slot).1 (hu a slot).2

theorem triple_result (hm : I m) (c : Closure) (flow : Flow)
    (hE : E ⟨none, .undefinedVariable "self"⟩)
    (hself : ∀ v, m.heap.get? c.frame "self" = some v → Q m.heap v)
    (hreturned : ∀ v, flow = .returned v → Q m.heap v) (hnone : Q m.heap .none) :
    Triple I m (result c flow) Q E := by
  unfold result
  split
  · refine triple_get ?_
    split
    · next v hv => exact triple_pure hm (hself v hv)
    · refine triple_throw hm _ ?_
      rintro _ ⟨⟩
      exact hE
  · split
    · exact triple_pure hm (hreturned _ rfl)
    · exact triple_pure hm hnone

theorem write_of_ok {s : String} {c : Console} (h : m.console.write s = (none, c)) :
    write s m = .ok () { m with console := c } := by
  simp only [write, h]

theorem write_of_fault {s message : String} {c : Console}
    (h : m.console.write s = (some message, c)) :
    write s m = .error (.error ⟨none, .console message⟩) { m with console := c } := by
  simp only [write, h]
  rfl

/-- A call of `print` writes the value, and gives its line to an error. -/
theorem eval_print {n id line : Nat} {e : Expr} {v : Value} (hd : m.depths[id]? = none)
    (hf : m.heap.get? m.globals "print" = some (.native .print)) (he : eval (n + 1) e m = .ok v m) :
    eval (n + 3) (.call (.variable ⟨id, ⟨"print", line⟩⟩) line [e]) m =
      orLine line (do write (m.heap.render v); pure .none) m := by
  have hcheck : checkCall line (.native .print) [v].length m = .ok () m := rfl
  simp only [eval, evalAll, lookUp, frameOf, hd, hf, Option.bind_some, bind, EStateM.bind, pure,
    EStateM.pure, hcheck, he]
  rfl

theorem triple_write {Q : Heap → Unit → Prop} (hm : ∀ c, I { m with console := c }) (s : String)
    (hu : Q m.heap ()) (hE : ∀ fault : Fault, fault.isBare = true → E ⟨none, fault⟩) :
    Triple I m (write s) Q E := by
  rcases hc : m.console.write s with ⟨_ | message, c⟩
  · exact triple_of_ok (write_of_ok hc) (hm c) hu
  · refine triple_of_error (write_of_fault hc) (hm c) ?_
    rintro _ ⟨⟩
    exact hE _ rfl

theorem triple_readLine (hm : ∀ c, I { m with console := c })
    (hv : ∀ v : Value, v.Simple → Q m.heap v)
    (hE : ∀ fault : Fault, fault.isBare = true → E ⟨none, fault⟩) :
    Triple I m readLine Q E := by
  rcases hc : m.console.readLine with ⟨s | @message | _, c⟩
  · have hrun : readLine m = .ok (.text s) { m with console := c } := by simp only [readLine, hc]
    exact triple_of_ok hrun (hm c) (hv _ (.text s))
  · have hrun : readLine m = fail (.console message) { m with console := c } := by
      simp only [readLine, hc]
    refine triple_of_error hrun (hm c) ?_
    rintro _ ⟨⟩
    exact hE _ rfl
  · have hrun : readLine m = .ok .none { m with console := c } := by simp only [readLine, hc]
    exact triple_of_ok hrun (hm c) (hv _ .none)

theorem triple_now (hm : ∀ c, I { m with console := c })
    (hv : ∀ v : Value, v.Simple → Q m.heap v)
    (hE : ∀ fault : Fault, fault.isBare = true → E ⟨none, fault⟩) :
    Triple I m now Q E := by
  rcases hc : m.console.now with ⟨_ | seconds, c⟩
  · have hrun : now m = fail .clock { m with console := c } := by simp only [now, hc]
    refine triple_of_error hrun (hm c) ?_
    rintro _ ⟨⟩
    exact hE _ rfl
  · have hrun : now m = .ok (.number seconds) { m with console := c } := by simp only [now, hc]
    exact triple_of_ok hrun (hm c) (hv _ (.number seconds))

/-- A native changes nothing but the console, and its faults have no line. -/
theorem triple_callNative (hm : ∀ c, I { m with console := c }) (f : Native)
    (arguments : List Value) (hE : ∀ fault : Fault, fault.isBare = true → E ⟨none, fault⟩)
    (hv : ∀ v : Value, v.Simple → Q m.heap v) :
    Triple I m (callNative f arguments) Q E := by
  refine triple_get ?_
  let Written (m' : Machine) : Prop := ∃ c, m' = { m with console := c }
  have hwritten (s : String) : Triple Written m (write s) (fun _ _ => True) E :=
    triple_write (fun c => ⟨c, rfl⟩) s trivial hE
  have hnone (m' : Machine) (h : Written m') : Triple Written m' (pure .none) Q E := by
    obtain ⟨c, rfl⟩ := h
    exact triple_pure ⟨c, rfl⟩ (hv _ .none)
  have hfinish {act : Run Value} (h : Triple Written m act Q E) : Triple I m act Q E := by
    refine h.mono ?_
    rintro _ ⟨c, rfl⟩
    exact hm c
  cases f with
  | print | println => exact hfinish ((hwritten _).bind fun _ m' _ h _ => hnone m' h)
  | input =>
    refine hfinish ((hwritten _).bind ?_)
    rintro _ _ - ⟨c, rfl⟩ -
    exact triple_readLine (fun c => ⟨c, rfl⟩) hv hE
  | time => exact triple_now hm hv hE

end Values

theorem triple_checkCall {Q : Heap → Unit → Prop} (hm : I m) (line : Nat) (callee : Value)
    (given : Nat) (hE : Allows E line) (hq : callee.arity? = some given → Q m.heap ()) :
    Triple I m (checkCall line callee given) Q E := by
  unfold checkCall
  cases ha : callee.arity? with
  | none => exact triple_failAt hm rfl hE
  | some expected =>
    dsimp only
    split
    · next he => exact triple_pure hm (hq (by rw [ha, he]))
    · exact triple_failAt hm rfl hE

theorem triple_repeatCount {Q : Heap → Float → Prop} (hm : I m) (line : Nat) (v : Value)
    (hE : Allows E line) (hq : ∀ x, Q m.heap x) :
    Triple I m (repeatCount line v) Q E := by
  unfold repeatCount
  split
  · exact triple_pure hm (hq _)
  · exact triple_failAt hm rfl hE

theorem triple_innermostLoop {Q : Heap → Flow → Prop} (hm : I m) (line : Nat)
    (hE : Allows E line) (hq : ∀ loop, Q m.heap (.broke loop)) :
    Triple I m (innermostLoop line) Q E := by
  refine triple_get ?_
  split
  · exact triple_pure hm (hq _)
  · exact triple_failAt hm rfl hE

end Run

end Jal
