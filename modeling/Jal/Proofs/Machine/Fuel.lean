import Jal.Machine.Eval

namespace Jal

namespace Run

variable {α β : Type}

def Ended (r : EStateM.Result Stop Machine α) : Prop := ∀ m, r ≠ .error .outOfFuel m

/-- The second action does what the first one does, or the first one runs out of fuel. -/
def Prolonged (act act' : Run α) : Prop :=
  ∀ m, (∃ m', act m = .error .outOfFuel m') ∨ act m = act' m

namespace Prolonged

variable {act act' act'' : Run α}

theorem refl (act : Run α) : Prolonged act act := fun _ => .inr rfl

theorem trans (h : Prolonged act act') (h' : Prolonged act' act'') : Prolonged act act'' := by
  intro m
  rcases h m with hm | hm
  · exact .inl hm
  · rw [hm]
    exact h' m

theorem of_outOfFuel (act : Run α) : Prolonged outOfFuel act := fun m => .inl ⟨m, rfl⟩

/-- What has ended has ended for good. -/
theorem eq {m : Machine} {r : EStateM.Result Stop Machine α} (h : Prolonged act act')
    (hm : act m = r) (hr : Ended r) : act' m = r := by
  rcases h m with ⟨m', he⟩ | he
  · exact absurd (hm.symm.trans he) (hr m')
  · exact he.symm.trans hm

theorem bind {next next' : α → Run β} (h : Prolonged act act')
    (hn : ∀ a, Prolonged (next a) (next' a)) : Prolonged (act >>= next) (act' >>= next') := by
  intro m
  simp only [Bind.bind, EStateM.bind]
  rcases h m with ⟨m', he⟩ | he
  · left
    exact ⟨m', by rw [he]⟩
  · rw [← he]
    cases act m with
    | ok a m₁ => exact hn a m₁
    | error e m₁ => exact .inr rfl

/-- Only what comes after the action differs. -/
theorem next {next next' : α → Run β} (hn : ∀ a, Prolonged (next a) (next' a)) :
    Prolonged (act >>= next) (act >>= next') := (refl act).bind hn

theorem ite {c : Prop} [Decidable c] {other other' : Run α} (h : Prolonged act act')
    (h' : Prolonged other other') :
    Prolonged (if c then act else other) (if c then act' else other') := by
  split
  · exact h
  · exact h'

theorem orLine (line : Nat) (h : Prolonged act act') :
    Prolonged (orLine line act) (orLine line act') := by
  intro m
  rcases h m with ⟨m', he⟩ | he
  · exact .inl ⟨m', by rw [Run.orLine, he]⟩
  · exact .inr (by rw [Run.orLine, he, Run.orLine])

theorem inFrame (f : FrameId) (h : Prolonged act act') :
    Prolonged (inFrame f act) (inFrame f act') := by
  intro m
  rcases h { m with frame := f } with ⟨m', he⟩ | he
  · exact .inl ⟨_, by simp only [Run.inFrame, he]; rfl⟩
  · exact .inr (by simp only [Run.inFrame, he])

theorem inLoop {act act' : Nat → Run α} (h : ∀ loop, Prolonged (act loop) (act' loop)) :
    Prolonged (inLoop act) (inLoop act') := by
  intro m
  rcases h m.nextLoop m.enterLoop with ⟨m', he⟩ | he
  · exact .inl ⟨_, by simp only [Run.inLoop, he]; rfl⟩
  · exact .inr (by simp only [Run.inLoop, he])

theorem inCall (f : FrameId) (h : Prolonged act act') :
    Prolonged (inCall f act) (inCall f act') := by
  intro m
  by_cases hd : maxDepth ≤ m.depth
  · exact .inr (by rw [Run.inCall, if_pos hd, Run.inCall, if_pos hd])
  · rcases h (m.enterCall f) with ⟨m', he⟩ | he
    · exact .inl ⟨_, by simp only [Run.inCall, if_neg hd, he]; rfl⟩
    · exact .inr (by simp only [Run.inCall, he])

end Prolonged

structure Prolonging (n n' : Nat) : Prop where
  eval : ∀ e, Prolonged (eval n e) (eval n' e)
  evalAll : ∀ es, Prolonged (evalAll n es) (evalAll n' es)
  call : ∀ callee arguments, Prolonged (call n callee arguments) (call n' callee arguments)
  apply : ∀ c arguments, Prolonged (apply n c arguments) (apply n' c arguments)
  exec : ∀ s, Prolonged (exec n s) (exec n' s)
  execAll : ∀ body, Prolonged (execAll n body) (execAll n' body)
  repeatWhile : ∀ loop test body,
    Prolonged (repeatWhile n loop test body) (repeatWhile n' loop test body)
  repeatTimes : ∀ loop i count body,
    Prolonged (repeatTimes n loop i count body) (repeatTimes n' loop i count body)

section Induction

variable {n n' : Nat} (ih : Prolonging n n')

include ih

theorem prolonged_eval_succ (e : Expr) : Prolonged (eval (n + 1) e) (eval (n' + 1) e) := by
  cases e with
  | literal value => exact .refl _
  | grouping inner => exact ih.eval inner
  | unary op line operand => exact (ih.eval operand).bind fun v => .refl _
  | binary op line left right =>
    refine (ih.eval left).bind fun v => ?_
    exact (ih.eval right).bind fun w => .refl _
  | logical op left right =>
    refine (ih.eval left).bind fun v => ?_
    exact .ite (.refl _) (ih.eval right)
  | «variable» ref => exact .refl _
  | assign ref value => exact (ih.eval value).bind fun v => .refl _
  | selfRef id line => exact .refl _
  | superRef id line method => exact .refl _
  | get object name => exact (ih.eval object).bind fun v => .refl _
  | set object name value =>
    refine (ih.eval object).bind fun v => .next fun i => ?_
    exact (ih.eval value).bind fun w => .refl _
  | index object line position =>
    refine (ih.eval object).bind fun v => ?_
    exact (ih.eval position).bind fun i => .refl _
  | indexSet object line position value =>
    refine (ih.eval object).bind fun v => ?_
    refine (ih.eval position).bind fun i => ?_
    exact (ih.eval value).bind fun w => .refl _
  | call callee line arguments =>
    refine (ih.eval callee).bind fun f => ?_
    refine (ih.evalAll arguments).bind fun vs => .next fun _ => ?_
    exact (ih.call f vs).orLine line
  | array elements => exact (ih.evalAll elements).bind fun vs => .refl _

theorem prolonged_evalAll_succ (es : List Expr) :
    Prolonged (evalAll (n + 1) es) (evalAll (n' + 1) es) := by
  cases es with
  | nil => exact .refl _
  | cons e rest =>
    refine (ih.eval e).bind fun v => ?_
    exact (ih.evalAll rest).bind fun vs => .refl _

theorem prolonged_call_succ (callee : Value) (arguments : List Value) :
    Prolonged (call (n + 1) callee arguments) (call (n' + 1) callee arguments) := by
  cases callee with
  | function c stamp => exact ih.apply c arguments
  | classValue c =>
    refine .next fun i => ?_
    split
    · exact .refl _
    · exact .next fun bound => (ih.apply bound arguments).bind fun _ => .refl _
  | _ => exact .refl _

theorem prolonged_apply_succ (c : Closure) (arguments : List Value) :
    Prolonged (apply (n + 1) c arguments) (apply (n' + 1) c arguments) := by
  refine .next fun frame => ?_
  exact ((ih.execAll c.routine.body).inCall frame).bind fun flow => .refl _

theorem prolonged_exec_succ (s : Stmt) : Prolonged (exec (n + 1) s) (exec (n' + 1) s) := by
  cases s with
  | expr e => exact (ih.eval e).bind fun _ => .refl _
  | letVar name init =>
    cases init with
    | none => exact .refl _
    | some init => exact (ih.eval init).bind fun v => .refl _
  | block body => exact .next fun frame => (ih.execAll body).inFrame frame
  | ifThen test consequence alternative =>
    refine (ih.eval test).bind fun v => .ite (ih.exec consequence) ?_
    cases alternative with
    | some s => exact ih.exec s
    | none => exact .refl _
  | whileDo test body => exact .inLoop fun loop => ih.repeatWhile loop test body
  | times line count body =>
    refine (ih.eval count).bind fun v => .next fun x => ?_
    exact .inLoop fun loop => ih.repeatTimes loop 0 x body
  | returnWith line value =>
    cases value with
    | none => exact .refl _
    | some value => exact (ih.eval value).bind fun _ => .refl _
  | breakLoop line => exact .refl _
  | define routine => exact .refl _
  | classDecl name superclass methods => exact .refl _

theorem prolonged_execAll_succ (body : List Stmt) :
    Prolonged (execAll (n + 1) body) (execAll (n' + 1) body) := by
  cases body with
  | nil => exact .refl _
  | cons s rest =>
    refine (ih.exec s).bind fun flow => ?_
    cases flow with
    | normal => exact ih.execAll rest
    | returned v => exact .refl _
    | broke target => exact .refl _

theorem prolonged_repeatWhile_succ (loop : Nat) (test : Expr) (body : Stmt) :
    Prolonged (repeatWhile (n + 1) loop test body) (repeatWhile (n' + 1) loop test body) := by
  refine (ih.eval test).bind fun v => .ite ((ih.exec body).bind fun flow => ?_) (.refl _)
  cases flow with
  | normal => exact ih.repeatWhile loop test body
  | returned v => exact .refl _
  | broke target => exact .refl _

theorem prolonged_repeatTimes_succ (loop : Nat) (i count : Float) (body : Stmt) :
    Prolonged (repeatTimes (n + 1) loop i count body)
      (repeatTimes (n' + 1) loop i count body) := by
  rw [repeatTimes, repeatTimes]
  refine .ite ((ih.exec body).bind fun flow => ?_) (.refl _)
  cases flow with
  | normal => exact ih.repeatTimes loop (i + 1) count body
  | returned v => exact .refl _
  | broke target => exact .refl _

end Induction

/-- More fuel prolongs every run. -/
theorem prolonging {n n' : Nat} (h : n ≤ n') : Prolonging n n' := by
  induction n generalizing n' with
  | zero =>
    constructor
    all_goals intros; exact .of_outOfFuel _
  | succ n ih =>
    obtain ⟨k, rfl⟩ : ∃ k, n' = k + 1 := ⟨n' - 1, by omega⟩
    have ih := ih (Nat.le_of_succ_le_succ h)
    exact
      { eval := prolonged_eval_succ ih
        evalAll := prolonged_evalAll_succ ih
        call := prolonged_call_succ ih
        apply := prolonged_apply_succ ih
        exec := prolonged_exec_succ ih
        execAll := prolonged_execAll_succ ih
        repeatWhile := prolonged_repeatWhile_succ ih
        repeatTimes := prolonged_repeatTimes_succ ih }

end Run

end Jal
