import Jal.Proofs.Machine.Blind

namespace Jal

def Machine.atDepth (m : Machine) (depth : Nat) : Machine := { m with depth }

namespace Run

variable {α β : Type} {act : Run α}

/-- The answer is that of a run which was refused a call. -/
def Overflows (r : EStateM.Result Stop Machine α) : Prop :=
  ∃ line m, r = .error (.error ⟨line, .stackOverflow⟩) m

/-- However many calls are under way when the action is begun, as many are when it is done. Unless
it overflows, it does the same with fewer calls under way: the answer is the same, and the machine
is the same but for their number. -/
structure Overlooks (act : Run α) : Prop where
  depth : ∀ m, (act.final m).depth = m.depth
  same : ∀ m d, d ≤ m.depth → ¬Overflows (act m) →
    act (m.atDepth d) = mapMachine (·.atDepth d) (act m)

theorem Blind.overlooks (h : Blind act) : Overlooks act where
  depth m := by
    rw [h.final_eq m]
    rfl
  same m d _ _ := h.eq_map m m.console d fun _ => rfl

theorem overlooks_pure (a : α) : Overlooks (pure a) := (blind_pure a).overlooks

theorem overlooks_throw (e : Stop) : Overlooks (throw e : Run α) := (blind_throw e).overlooks

namespace Overlooks

/-- The second action is begun at the depth of the first one, since that leaves the depth alone. -/
theorem bind {next : α → Run β} (h : Overlooks act) (h' : ∀ a, Overlooks (next a)) :
    Overlooks (act >>= next) where
  depth m := by
    have hm := h.depth m
    cases ha : act m with
    | ok a m₁ =>
      rw [final_ok ha] at hm
      rw [final_bind_ok ha, (h' a).depth, hm]
    | error e m₁ =>
      rw [final_error ha] at hm
      rw [final_bind_error ha, hm]
  same m d hd hn := by
    have hm := h.depth m
    have ha : ¬Overflows (act m) := by
      rintro ⟨line, m', ho⟩
      exact hn ⟨line, m', by simp only [Bind.bind, EStateM.bind, ho]⟩
    simp only [Bind.bind, EStateM.bind, h.same m d hd ha] at hn ⊢
    cases hr : act m with
    | ok a m₁ =>
      rw [final_ok hr] at hm
      rw [hr] at hn
      exact (h' a).same m₁ d (hm ▸ hd) hn
    | error e m₁ => rfl

theorem ite {c : Prop} [Decidable c] {other : Run α} (h : Overlooks act) (h' : Overlooks other) :
    Overlooks (if c then act else other) := by
  split
  · exact h
  · exact h'

theorem orLine (line : Nat) (h : Overlooks act) : Overlooks (orLine line act) where
  depth m := by rw [final_orLine, h.depth]
  same m d hd hn := by
    have ha : ¬Overflows (act m) := by
      rintro ⟨line', m', ho⟩
      exact hn ⟨line' <|> some line, m', by rw [Run.orLine, ho]; rfl⟩
    rw [Run.orLine, Run.orLine, h.same m d hd ha]
    rcases act m with ⟨a, m₁⟩ | ⟨_ | _, m₁⟩ <;> rfl

/-- An action that runs another one on a machine `m₀`, and puts back what it changed there. -/
theorem same_within {act' : Run α} {m : Machine} {d d₀ : Nat} (h : Overlooks act) (m₀ : Machine)
    (back : Machine → Machine) (hd : d₀ ≤ m₀.depth) (hn : ¬Overflows (act' m))
    (hb : ∀ m', back (m'.atDepth d₀) = (back m').atDepth d)
    (ha : act' m = mapMachine back (act m₀))
    (had : act' (m.atDepth d) = mapMachine back (act (m₀.atDepth d₀))) :
    act' (m.atDepth d) = mapMachine (·.atDepth d) (act' m) := by
  have hn₀ : ¬Overflows (act m₀) := by
    rintro ⟨line, m', ho⟩
    exact hn ⟨line, back m', by rw [ha, ho]; rfl⟩
  rw [had, ha, h.same m₀ d₀ hd hn₀]
  cases act m₀ <;> simp only [mapMachine, hb]

theorem inFrame (f : FrameId) (h : Overlooks act) : Overlooks (inFrame f act) where
  depth m := by
    rw [final_inFrame]
    exact h.depth { m with frame := f }
  same m d hd hn := by
    have ha (m₀ : Machine) : Run.inFrame f act m₀ =
        mapMachine (fun m' => { m' with frame := m₀.frame }) (act { m₀ with frame := f }) := by
      rw [Run.inFrame]
      cases act { m₀ with frame := f } <;> rfl
    exact h.same_within { m with frame := f } _ hd hn (fun _ => rfl) (ha m) (ha (m.atDepth d))

theorem inLoop {act : Nat → Run α} (h : ∀ loop, Overlooks (act loop)) :
    Overlooks (inLoop act) where
  depth m := by
    rw [final_inLoop]
    exact (h m.nextLoop).depth m.enterLoop
  same m d hd hn := by
    have ha (m₀ : Machine) : Run.inLoop act m₀ =
        mapMachine Machine.leaveLoop (act m₀.nextLoop m₀.enterLoop) := by
      rw [Run.inLoop]
      cases act m₀.nextLoop m₀.enterLoop <;> rfl
    exact (h m.nextLoop).same_within m.enterLoop _ hd hn (fun _ => rfl) (ha m) (ha (m.atDepth d))

/-- A call that is not refused is not refused at a smaller depth, and its body is run one deeper in
both cases. -/
theorem inCall (f : FrameId) (h : Overlooks act) : Overlooks (inCall f act) where
  depth m := by
    rcases Nat.lt_or_ge m.depth maxDepth with hlt | hge
    · have hd : (act.final (m.enterCall f)).depth = m.depth + 1 := h.depth _
      rw [final_inCall_of_lt f act hlt, Machine.leaveCall, hd, Nat.add_sub_cancel]
    · rw [final_inCall_of_le f act hge]
  same m d hd hn := by
    rcases Nat.lt_or_ge m.depth maxDepth with hlt | hge
    · have ha (m₀ : Machine) (hm₀ : m₀.depth < maxDepth) : Run.inCall f act m₀ =
          mapMachine (·.leaveCall m₀.frame m₀.loops) (act (m₀.enterCall f)) := by
        rw [Run.inCall, if_neg (Nat.not_le.2 hm₀)]
        cases act (m₀.enterCall f) <;> rfl
      exact h.same_within (m.enterCall f) _ (Nat.succ_le_succ hd) hn (fun _ => rfl) (ha m hlt)
        (ha (m.atDepth d) (Nat.lt_of_le_of_lt hd hlt))
    · exact absurd ⟨none, m, by rw [Run.inCall, if_pos hge]; rfl⟩ hn

end Overlooks

/-- An action that does not even ask for the depth. -/
theorem overlooks_of_same (hd : ∀ m, (act.final m).depth = m.depth)
    (hs : ∀ m d, act (m.atDepth d) = mapMachine (·.atDepth d) (act m)) : Overlooks act :=
  ⟨hd, fun m d _ _ => hs m d⟩

theorem overlooks_write (s : String) : Overlooks (write s) := by
  refine overlooks_of_same (fun m => ?_) fun m d => ?_
  · unfold final write
    rcases m.console.write s with ⟨_ | _, c⟩ <;> rfl
  · have hc : (m.atDepth d).console = m.console := rfl
    simp only [write, hc]
    rcases m.console.write s with ⟨_ | _, c⟩ <;> rfl

theorem overlooks_readLine : Overlooks readLine := by
  refine overlooks_of_same (fun m => ?_) fun m d => ?_
  · unfold final readLine
    rcases m.console.readLine with ⟨_ | _ | _, c⟩ <;> rfl
  · have hc : (m.atDepth d).console = m.console := rfl
    simp only [readLine, hc]
    rcases m.console.readLine with ⟨_ | _ | _, c⟩ <;> rfl

theorem overlooks_now : Overlooks now := by
  refine overlooks_of_same (fun m => ?_) fun m d => ?_
  · unfold final now
    rcases m.console.now with ⟨_ | _, c⟩ <;> rfl
  · have hc : (m.atDepth d).console = m.console := rfl
    simp only [now, hc]
    rcases m.console.now with ⟨_ | _, c⟩ <;> rfl

theorem overlooks_callNative (f : Native) (arguments : List Value) :
    Overlooks (callNative f arguments) := by
  -- the text is made from the heap as it is, so the rest of the action is known at once
  have shown {next : String → Run Value} (h : ∀ s, Overlooks (next s)) :
      Overlooks fun m => next (m.heap.render (arguments.headD .none)) m :=
    ⟨fun m => (h _).depth m, fun m => (h _).same m⟩
  cases f with
  | print => exact shown fun s => (overlooks_write s).bind fun _ => overlooks_pure _
  | println => exact shown fun s => (overlooks_write (s ++ "\n")).bind fun _ => overlooks_pure _
  | input => exact shown fun s => (overlooks_write s).bind fun _ => overlooks_readLine
  | time => exact overlooks_now

structure Overlooking (n : Nat) : Prop where
  eval : ∀ e, Overlooks (eval n e)
  evalAll : ∀ es, Overlooks (evalAll n es)
  call : ∀ callee arguments, Overlooks (call n callee arguments)
  apply : ∀ c arguments, Overlooks (apply n c arguments)
  exec : ∀ s, Overlooks (exec n s)
  execAll : ∀ body, Overlooks (execAll n body)
  repeatWhile : ∀ loop test body, Overlooks (repeatWhile n loop test body)
  repeatTimes : ∀ loop i count body, Overlooks (repeatTimes n loop i count body)

section Induction

variable {n : Nat} (ih : Overlooking n)

include ih

theorem overlooks_eval_succ (e : Expr) : Overlooks (eval (n + 1) e) := by
  cases e with
  | literal value => exact overlooks_pure _
  | grouping inner => exact ih.eval inner
  | unary op line operand =>
    exact (ih.eval operand).bind fun v => (blind_unary op line v).overlooks
  | binary op line left right =>
    refine (ih.eval left).bind fun v => ?_
    exact (ih.eval right).bind fun w => (blind_binary op line v w).overlooks
  | logical op left right =>
    exact (ih.eval left).bind fun v => .ite (overlooks_pure v) (ih.eval right)
  | «variable» ref => exact (blind_lookUp ref.id ref.name).overlooks
  | assign ref value => exact (ih.eval value).bind fun v => (blind_assign ref v).overlooks
  | selfRef id line => exact (blind_lookUp id _).overlooks
  | superRef id line method => exact (blind_superMethod id line method).overlooks
  | get object name =>
    refine (ih.eval object).bind fun v => ?_
    exact (blind_asInstance v name).overlooks.bind fun i => (blind_property i name).overlooks
  | set object name value =>
    refine (ih.eval object).bind fun v => ?_
    refine (blind_asInstance v name).overlooks.bind fun i => ?_
    exact (ih.eval value).bind fun w => (blind_setProperty i name w).overlooks
  | index object line position =>
    refine (ih.eval object).bind fun v => ?_
    exact (ih.eval position).bind fun i => (blind_element line v i).overlooks
  | indexSet object line position value =>
    refine (ih.eval object).bind fun v => ?_
    refine (ih.eval position).bind fun i => ?_
    exact (ih.eval value).bind fun w => (blind_setElement line v i w).overlooks
  | call callee line arguments =>
    refine (ih.eval callee).bind fun f => ?_
    refine (ih.evalAll arguments).bind fun vs => ?_
    refine (blind_checkCall line f vs.length).overlooks.bind fun _ => ?_
    exact (ih.call f vs).orLine line
  | array elements => exact (ih.evalAll elements).bind fun vs => (blind_newArray vs).overlooks

theorem overlooks_evalAll_succ (es : List Expr) : Overlooks (evalAll (n + 1) es) := by
  cases es with
  | nil => exact overlooks_pure _
  | cons e rest =>
    refine (ih.eval e).bind fun v => ?_
    exact (ih.evalAll rest).bind fun vs => overlooks_pure _

theorem overlooks_call_succ (callee : Value) (arguments : List Value) :
    Overlooks (call (n + 1) callee arguments) := by
  cases callee with
  | native f => exact overlooks_callNative f arguments
  | function c stamp => exact ih.apply c arguments
  | classValue c =>
    refine (blind_onHeap _).overlooks.bind fun i => ?_
    split
    · exact overlooks_pure _
    · refine (blind_bindSelf _ i).overlooks.bind fun bound => ?_
      exact (ih.apply bound arguments).bind fun _ => overlooks_pure _
  | _ => exact overlooks_throw _

theorem overlooks_apply_succ (c : Closure) (arguments : List Value) :
    Overlooks (apply (n + 1) c arguments) := by
  refine (blind_newFrame _ _).overlooks.bind fun frame => ?_
  exact ((ih.execAll c.routine.body).inCall frame).bind fun flow => (blind_result c flow).overlooks

theorem overlooks_exec_succ (s : Stmt) : Overlooks (exec (n + 1) s) := by
  cases s with
  | expr e => exact (ih.eval e).bind fun _ => overlooks_pure _
  | letVar name init =>
    cases init with
    | none => exact (blind_define _ _).overlooks.bind fun _ => overlooks_pure _
    | some init =>
      refine (ih.eval init).bind fun v => ?_
      exact (blind_define _ v).overlooks.bind fun _ => overlooks_pure _
  | block body => exact blind_newScope.overlooks.bind fun frame => (ih.execAll body).inFrame frame
  | ifThen test consequence alternative =>
    refine (ih.eval test).bind fun v => .ite (ih.exec consequence) ?_
    cases alternative with
    | some s => exact ih.exec s
    | none => exact overlooks_pure _
  | whileDo test body => exact .inLoop fun loop => ih.repeatWhile loop test body
  | times line count body =>
    refine (ih.eval count).bind fun v => ?_
    refine (blind_repeatCount line v).overlooks.bind fun x => ?_
    exact .inLoop fun loop => ih.repeatTimes loop 0 x body
  | breakLoop line => exact (blind_innermostLoop line).overlooks
  | define routine => exact (blind_declareFunction routine).overlooks.bind fun _ => overlooks_pure _
  | returnWith line value =>
    cases value with
    | none => exact overlooks_pure _
    | some value => exact (ih.eval value).bind fun _ => overlooks_pure _
  | classDecl name superclass methods =>
    exact (blind_declareClass name superclass methods).overlooks.bind fun _ => overlooks_pure _

theorem overlooks_execAll_succ (body : List Stmt) : Overlooks (execAll (n + 1) body) := by
  cases body with
  | nil => exact overlooks_pure _
  | cons s rest =>
    refine (ih.exec s).bind fun flow => ?_
    cases flow with
    | normal => exact ih.execAll rest
    | returned v => exact overlooks_pure _
    | broke target => exact overlooks_pure _

theorem overlooks_repeatWhile_succ (loop : Nat) (test : Expr) (body : Stmt) :
    Overlooks (repeatWhile (n + 1) loop test body) := by
  refine (ih.eval test).bind fun v => .ite ((ih.exec body).bind fun flow => ?_) (overlooks_pure _)
  cases flow with
  | normal => exact ih.repeatWhile loop test body
  | returned v => exact overlooks_pure _
  | broke target => exact .ite (overlooks_pure _) (overlooks_pure _)

theorem overlooks_repeatTimes_succ (loop : Nat) (i count : Float) (body : Stmt) :
    Overlooks (repeatTimes (n + 1) loop i count body) := by
  rw [repeatTimes]
  refine .ite ((ih.exec body).bind fun flow => ?_) (overlooks_pure _)
  cases flow with
  | normal => exact ih.repeatTimes loop (i + 1) count body
  | returned v => exact overlooks_pure _
  | broke target => exact .ite (overlooks_pure _) (overlooks_pure _)

end Induction

/-- Whatever is run overlooks the depth it is begun at. -/
theorem overlooking (n : Nat) : Overlooking n := by
  induction n with
  | zero =>
    constructor
    all_goals intros; exact overlooks_throw _
  | succ n ih =>
    exact
      { eval := overlooks_eval_succ ih
        evalAll := overlooks_evalAll_succ ih
        call := overlooks_call_succ ih
        apply := overlooks_apply_succ ih
        exec := overlooks_exec_succ ih
        execAll := overlooks_execAll_succ ih
        repeatWhile := overlooks_repeatWhile_succ ih
        repeatTimes := overlooks_repeatTimes_succ ih }

theorem overlooks_interpret (fuel : Nat) (program : Program) :
    Overlooks (interpret fuel program) := by
  induction program with
  | nil => exact overlooks_pure ()
  | cons s rest ih =>
    refine ((overlooking fuel).exec s).bind fun flow => ?_
    cases flow with
    | returned v => exact overlooks_pure ()
    | normal => exact ih
    | broke target => exact ih

end Run

end Jal
