import Jal.Proofs.Machine.Triple

namespace Jal

variable {m m' : Machine} {α β : Type} {x : String}

namespace Run

def Raises (act : Run α) (m : Machine) (x : String) : Prop :=
  ∃ line m', act m = .error (.error ⟨line, .undefinedVariable x⟩) m'

def Quiet (act : Run α) : Prop := ∀ m x, ¬act.Raises m x

theorem raises_bind {act : Run α} {next : α → Run β} (h : (act >>= next).Raises m x) :
    act.Raises m x ∨ ∃ a m', act m = .ok a m' ∧ (next a).Raises m' x := by
  obtain ⟨line, m', h⟩ := h
  cases ha : act m with
  | ok a m₁ =>
    simp only [bind, EStateM.bind, ha] at h
    exact .inr ⟨a, m₁, rfl, line, m', h⟩
  | error e m₁ =>
    simp only [bind, EStateM.bind, ha] at h
    cases h
    exact .inl ⟨line, m', ha⟩

theorem Quiet.raises_bind {act : Run α} {next : α → Run β} (hq : act.Quiet)
    (h : (act >>= next).Raises m x) : ∃ a m', act m = .ok a m' ∧ (next a).Raises m' x :=
  (Run.raises_bind h).resolve_left (hq m x)

theorem quiet_pure (a : α) : Quiet (pure a) := by
  rintro m x ⟨line, m', h⟩
  cases h

theorem quiet_get : Quiet (get : Run Machine) := by
  rintro m x ⟨line, m', h⟩
  cases h

theorem quiet_outOfFuel : Quiet (outOfFuel : Run α) := by
  rintro m x ⟨line, m', h⟩
  cases h

theorem quiet_fail {fault : Fault} (h : ∀ x, fault ≠ .undefinedVariable x) :
    Quiet (fail fault : Run α) := by
  rintro m x ⟨line, m', hf⟩
  cases hf
  exact h x rfl

theorem quiet_failAt (line : Nat) {fault : Fault} (h : ∀ x, fault ≠ .undefinedVariable x) :
    Quiet (failAt line fault : Run α) := by
  rintro m x ⟨line', m', hf⟩
  cases hf
  exact h x rfl

theorem quiet_bind {act : Run α} {next : α → Run β} (h : act.Quiet) (h' : ∀ a, (next a).Quiet) :
    Quiet (act >>= next) := by
  intro m x hr
  obtain ⟨a, m', -, hr⟩ := h.raises_bind hr
  exact h' a m' x hr

theorem quiet_liftAt (line : Nat) {r : Except Fault α}
    (h : ∀ x, r ≠ .error (.undefinedVariable x)) : Quiet (liftAt line r) := by
  cases r with
  | ok a => exact quiet_pure a
  | error fault => exact quiet_failAt line fun x hx => h x (by rw [hx])

theorem raises_orLine {line : Nat} {act : Run α} (h : (orLine line act).Raises m x) :
    act.Raises m x := by
  obtain ⟨line', m', h⟩ := h
  rcases ha : act m with ⟨a, m₁⟩ | ⟨⟨line₁, fault⟩ | _, m₁⟩ <;> simp only [orLine, ha] at h
  · cases h
  · cases h
    exact ⟨line₁, m', ha⟩
  · cases h

theorem raises_inFrame {f : FrameId} {act : Run α} (h : (inFrame f act).Raises m x) :
    act.Raises { m with frame := f } x := by
  obtain ⟨line, m', h⟩ := h
  rcases ha : act { m with frame := f } with ⟨a, m₁⟩ | ⟨e, m₁⟩ <;> simp only [inFrame, ha] at h
  · cases h
  · cases h
    exact ⟨line, m₁, ha⟩

theorem raises_inLoop {act : Nat → Run α} (h : (inLoop act).Raises m x) :
    (act m.nextLoop).Raises m.enterLoop x := by
  obtain ⟨line, m', h⟩ := h
  rcases ha : act m.nextLoop m.enterLoop with ⟨a, m₁⟩ | ⟨e, m₁⟩ <;> simp only [inLoop, ha] at h
  · cases h
  · cases h
    exact ⟨line, m₁, ha⟩

theorem raises_inCall {f : FrameId} {act : Run α} (h : (inCall f act).Raises m x) :
    m.depth < maxDepth ∧ act.Raises (m.enterCall f) x := by
  by_cases hd : maxDepth ≤ m.depth
  · obtain ⟨line, m', h⟩ := h
    rw [inCall, if_pos hd] at h
    cases h
  · refine ⟨Nat.lt_of_not_le hd, ?_⟩
    obtain ⟨line, m', h⟩ := h
    rw [inCall, if_neg hd] at h
    rcases ha : act (m.enterCall f) with ⟨a, m₁⟩ | ⟨e, m₁⟩ <;> simp only [ha] at h
    · cases h
    · cases h
      exact ⟨line, m₁, ha⟩

theorem quiet_onHeap (f : Heap → α × Heap) : Quiet (onHeap f) := by
  rintro m x ⟨line, m', h⟩
  cases h

theorem quiet_define (name : String) (v : Value) : Quiet (define name v) := by
  rintro m x ⟨line, m', h⟩
  cases h

theorem quiet_newScope : Quiet newScope := by
  rintro m x ⟨line, m', h⟩
  cases h

theorem quiet_newArray (elements : List Value) : Quiet (newArray elements) :=
  quiet_bind (quiet_onHeap _) fun _ => quiet_pure _

theorem quiet_newFunction (c : Closure) : Quiet (newFunction c) :=
  quiet_bind (quiet_onHeap _) fun _ => quiet_pure _

theorem quiet_declareFunction (r : Routine Stmt) : Quiet (declareFunction r) :=
  quiet_bind quiet_get fun _ => quiet_bind (quiet_newFunction _) fun _ => quiet_define _ _

theorem quiet_bindSelf (method : Closure) (i : InstanceId) : Quiet (bindSelf method i) :=
  quiet_bind (quiet_onHeap _) fun _ => quiet_pure _

theorem quiet_boundMethod (method : Closure) (i : InstanceId) :
    Quiet (do newFunction (← bindSelf method i)) :=
  quiet_bind (quiet_bindSelf method i) fun c => quiet_newFunction c

theorem quiet_property (i : InstanceId) (name : Name) : Quiet (property i name) := by
  refine quiet_bind quiet_get fun m => ?_
  dsimp only
  split
  · exact quiet_pure _
  · split
    · exact quiet_boundMethod _ i
    · exact quiet_failAt _ nofun

theorem quiet_setProperty (i : InstanceId) (name : Name) (v : Value) :
    Quiet (setProperty i name v) := by
  rintro m x ⟨line, m', h⟩
  cases h

theorem quiet_asInstance (v : Value) (name : Name) : Quiet (asInstance v name) := by
  unfold asInstance
  split
  · exact quiet_pure _
  · exact quiet_failAt _ nofun

theorem asInstance_eq_ok {v : Value} {name : Name} {i : InstanceId}
    (h : asInstance v name m = .ok i m') : v = .object i ∧ m' = m := by
  unfold asInstance at h
  split at h <;> cases h
  exact ⟨rfl, rfl⟩

theorem quiet_methodFrame (parent : Option Class) : Quiet (methodFrame parent) := by
  rintro m x ⟨line, m', h⟩
  cases parent <;> cases h

theorem quiet_unary (op : UnaryOp) (line : Nat) (v : Value) : Quiet (unary op line v) := by
  refine quiet_bind quiet_get fun m => quiet_liftAt line fun x hx => ?_
  unfold applyUnary at hx
  split at hx
  all_goals try cases hx
  split at hx <;> cases hx

theorem quiet_binary (op : BinaryOp) (line : Nat) (v v' : Value) :
    Quiet (binary op line v v') := by
  refine quiet_bind quiet_get fun m => quiet_liftAt line fun x hx => ?_
  unfold applyBinary at hx
  split at hx
  all_goals try cases hx
  unfold applyNumbers at hx
  split at hx
  all_goals try cases hx
  split at hx <;> cases hx

theorem arraySlot_ne (h : Heap) (v index : Value) (x : String) :
    arraySlot h v index ≠ .error (.undefinedVariable x) := by
  intro hx
  unfold arraySlot at hx
  split at hx
  · split at hx
    · cases hx
    · dsimp only at hx
      split at hx <;> cases hx
  · cases hx
  · cases hx

theorem quiet_element (line : Nat) (v index : Value) : Quiet (element line v index) := by
  refine quiet_bind quiet_get fun m => ?_
  exact quiet_bind (quiet_liftAt line (arraySlot_ne m.heap v index)) fun _ => quiet_pure _

theorem quiet_setElement (line : Nat) (v index new : Value) :
    Quiet (setElement line v index new) := by
  refine quiet_bind quiet_get fun m => ?_
  refine quiet_bind (quiet_liftAt line (arraySlot_ne m.heap v index)) fun ⟨a, slot⟩ => ?_
  refine quiet_bind ?_ fun _ => quiet_pure _
  rintro m x ⟨line, m', h⟩
  cases h

/-- What goes wrong in a native is a fault without a line, and that is no missing variable. -/
theorem quiet_callNative (f : Native) (arguments : List Value) :
    Quiet (callNative f arguments) := by
  rintro m x ⟨line, m', h⟩
  have hbare := (triple_callNative (I := fun _ => True) (Q := fun _ _ => True)
    (E := fun e => e.fault.isBare = true) (fun _ => trivial) f arguments (fun _ hf => hf)
    fun _ _ => trivial).error h
  cases hbare

theorem quiet_checkCall (line : Nat) (v : Value) (given : Nat) :
    Quiet (checkCall line v given) := by
  unfold checkCall
  split
  · exact quiet_failAt line nofun
  · split
    · exact quiet_pure ()
    · exact quiet_failAt line nofun

theorem quiet_repeatCount (line : Nat) (v : Value) : Quiet (repeatCount line v) := by
  unfold repeatCount
  split
  · exact quiet_pure _
  · exact quiet_failAt line nofun

theorem quiet_innermostLoop (line : Nat) : Quiet (innermostLoop line) := by
  refine quiet_bind quiet_get fun m => ?_
  split
  · exact quiet_pure _
  · exact quiet_failAt line nofun

end Run

end Jal
