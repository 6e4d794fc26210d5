import Jal.Proofs.Machine.Lasting
import Jal.Proofs.Machine.Rooted

namespace Jal

namespace Run

structure Rooting (n : Nat) : Prop where
  eval : ∀ e m, m.Rooted → Roots m (eval n e) Value.LivesIn
  evalAll : ∀ es m, m.Rooted → Roots m (evalAll n es) fun h vs => ∀ v ∈ vs, v.LivesIn h
  call : ∀ callee arguments m, m.Rooted → callee.LivesIn m.heap →
    (∀ v ∈ arguments, v.LivesIn m.heap) → Roots m (call n callee arguments) Value.LivesIn
  apply : ∀ c arguments m, m.Rooted → c.LivesIn m.heap →
    (∀ v ∈ arguments, v.LivesIn m.heap) → Roots m (apply n c arguments) Value.LivesIn
  exec : ∀ s m, m.Rooted → Roots m (exec n s) Flow.LivesIn
  execAll : ∀ body m, m.Rooted → Roots m (execAll n body) Flow.LivesIn
  repeatWhile : ∀ loop test body m, m.Rooted →
    Roots m (repeatWhile n loop test body) Flow.LivesIn
  repeatTimes : ∀ loop i count body m, m.Rooted →
    Roots m (repeatTimes n loop i count body) Flow.LivesIn

/-- After a turn of a loop comes another one, or the flow of the turn leaves the loop. -/
theorem roots_turn {m : Machine} {loop : Nat} {flow : Flow} {again : Run Flow} (hm : m.Rooted)
    (hflow : flow.LivesIn m.heap) (h : Roots m again Flow.LivesIn) :
    Roots m
      (match flow with
        | .normal => again
        | .broke target => if target = loop then return .normal else return .broke target
        | flow => return flow)
      Flow.LivesIn := by
  cases flow with
  | normal => exact h
  | returned v => exact roots_pure hm hflow
  | broke target =>
    dsimp only
    split <;> exact roots_pure hm trivial

section Induction

variable {m : Machine} {n : Nat} (ih : Rooting n)

include ih

theorem roots_eval_succ (e : Expr) (hm : m.Rooted) :
    Roots m (eval (n + 1) e) Value.LivesIn := by
  cases e with
  | literal value => exact roots_pure hm (by cases value <;> trivial)
  | grouping inner => exact ih.eval inner m hm
  | unary op line operand =>
    refine (ih.eval operand m hm).bind ?_
    intro v m₁ hm₁ _ _
    exact roots_unary hm₁ op line v
  | binary op line left right =>
    refine (ih.eval left m hm).bind ?_
    intro v m₁ hm₁ _ _
    refine (ih.eval right m₁ hm₁).bind ?_
    intro v' m₂ hm₂ _ _
    exact roots_binary hm₂ op line v v'
  | logical op left right =>
    refine (ih.eval left m hm).bind ?_
    intro v m₁ hm₁ _ hv
    split
    · exact roots_pure hm₁ hv
    · exact ih.eval right m₁ hm₁
  | «variable» ref => exact roots_lookUp hm ref.id ref.name
  | assign ref value =>
    refine (ih.eval value m hm).bind ?_
    intro v m₁ hm₁ _ hv
    exact roots_assign hm₁ ref hv
  | selfRef id line => exact roots_lookUp hm id _
  | superRef id line method => exact roots_superMethod hm id line method
  | get object name =>
    refine (ih.eval object m hm).bind ?_
    intro v m₁ hm₁ _ hv
    refine (roots_asInstance hm₁ hv name).bind ?_
    intro i m₂ hm₂ _ hi
    exact roots_property hm₂ hi name
  | set object name value =>
    refine (ih.eval object m hm).bind ?_
    intro v m₁ hm₁ _ hv
    refine (roots_asInstance hm₁ hv name).bind ?_
    intro i m₂ hm₂ _ _
    refine (ih.eval value m₂ hm₂).bind ?_
    intro v' m₃ hm₃ _ hv'
    exact roots_setProperty hm₃ i name hv'
  | index object line position =>
    refine (ih.eval object m hm).bind ?_
    intro v m₁ hm₁ _ _
    refine (ih.eval position m₁ hm₁).bind ?_
    intro i m₂ hm₂ _ _
    exact roots_element hm₂ line v i
  | indexSet object line position value =>
    refine (ih.eval object m hm).bind ?_
    intro v m₁ hm₁ _ _
    refine (ih.eval position m₁ hm₁).bind ?_
    intro i m₂ hm₂ _ _
    refine (ih.eval value m₂ hm₂).bind ?_
    intro v' m₃ hm₃ _ hv'
    exact roots_setElement hm₃ line v i hv'
  | call callee line arguments =>
    refine (ih.eval callee m hm).bind ?_
    intro v m₁ hm₁ _ hv
    refine (ih.evalAll arguments m₁ hm₁).bind ?_
    intro vs m₂ hm₂ hl₂ hvs
    refine (roots_checkCall hm₂ line v vs.length).bind ?_
    intro _ m₃ hm₃ hl₃ _
    have hcall := ih.call v vs m₃ hm₃ ((hv.later hl₂).later hl₃) fun u hu => (hvs u hu).later hl₃
    exact Triple.orLine hcall
  | array elements =>
    refine (ih.evalAll elements m hm).bind ?_
    intro vs m₁ hm₁ _ hvs
    exact roots_newArray hm₁ hvs

theorem roots_evalAll_succ (es : List Expr) (hm : m.Rooted) :
    Roots m (evalAll (n + 1) es) fun h vs => ∀ v ∈ vs, v.LivesIn h := by
  cases es with
  | nil => exact roots_pure hm nofun
  | cons e rest =>
    refine (ih.eval e m hm).bind ?_
    intro v m₁ hm₁ _ hv
    refine (ih.evalAll rest m₁ hm₁).bind ?_
    intro vs m₂ hm₂ hl₂ hvs
    exact roots_pure hm₂ (List.forall_mem_cons.2 ⟨hv.later hl₂, hvs⟩)

theorem roots_call_succ (callee : Value) (arguments : List Value) (hm : m.Rooted)
    (hc : callee.LivesIn m.heap) (ha : ∀ v ∈ arguments, v.LivesIn m.heap) :
    Roots m (call (n + 1) callee arguments) Value.LivesIn := by
  cases callee with
  | native f => exact roots_callNative hm f arguments
  | function c stamp => exact ih.apply c arguments m hm hc.1 ha
  | classValue c =>
    have hc : c.LivesIn m.heap := hc
    refine (roots_newInstance hm hc).bind ?_
    intro i m₁ hm₁ hl₁ hi
    cases hmethod : c.constructor? with
    | none => exact roots_pure hm₁ hi
    | some method =>
      refine (roots_bindSelf hm₁ ((hc.method hmethod).later hl₁) hi).bind ?_
      intro bound m₂ hm₂ hl₂ hb
      have ha₂ : ∀ v ∈ arguments, v.LivesIn m₂.heap :=
        fun v hv => ((ha v hv).later hl₁).later hl₂
      refine (ih.apply bound arguments m₂ hm₂ hb ha₂).bind ?_
      intro _ m₃ hm₃ hl₃ _
      exact roots_pure hm₃ (Nat.lt_of_lt_of_le hi (hl₂.trans hl₃).instances)
  | _ => exact roots_throw hm _

theorem roots_apply_succ (c : Closure) (arguments : List Value) (hm : m.Rooted)
    (hc : c.LivesIn m.heap) (ha : ∀ v ∈ arguments, v.LivesIn m.heap) :
    Roots m (apply (n + 1) c arguments) Value.LivesIn := by
  refine (roots_newFrame hm hc fun name v hv => ha v (lookup_bindArguments hv).1).bind ?_
  intro f m₁ hm₁ _ hf
  have hbody := ih.execAll c.routine.body (m₁.enterCall f) ⟨hm₁.heap, hf, hm₁.globals⟩
  refine (hbody.inCall hm₁).bind ?_
  intro flow m₂ hm₂ _ hflow
  exact roots_result hm₂ c hflow

theorem roots_exec_succ (s : Stmt) (hm : m.Rooted) : Roots m (exec (n + 1) s) Flow.LivesIn := by
  cases s with
  | expr e =>
    refine (ih.eval e m hm).bind ?_
    intro _ m₁ hm₁ _ _
    exact roots_pure hm₁ trivial
  | letVar name init =>
    cases init with
    | none =>
      refine (roots_define (v := .none) hm _ trivial).bind ?_
      intro _ m₁ hm₁ _ _
      exact roots_pure hm₁ trivial
    | some init =>
      refine (ih.eval init m hm).bind ?_
      intro v m₁ hm₁ _ hv
      refine (roots_define hm₁ _ hv).bind ?_
      intro _ m₂ hm₂ _ _
      exact roots_pure hm₂ trivial
  | block body =>
    refine (roots_newScope hm).bind ?_
    intro f m₁ hm₁ _ hf
    have hbody := ih.execAll body { m₁ with frame := f } ⟨hm₁.heap, hf, hm₁.globals⟩
    exact hbody.inFrame hm₁
  | ifThen test consequence alternative =>
    refine (ih.eval test m hm).bind ?_
    intro v m₁ hm₁ _ _
    split
    · exact ih.exec consequence m₁ hm₁
    · cases alternative with
      | none => exact roots_pure hm₁ trivial
      | some alternative => exact ih.exec alternative m₁ hm₁
  | whileDo test body =>
    exact Roots.inLoop (ih.repeatWhile _ test body _ ⟨hm.heap, hm.frame, hm.globals⟩)
  | times line count body =>
    refine (ih.eval count m hm).bind ?_
    intro v m₁ hm₁ _ _
    refine (roots_repeatCount hm₁ line v).bind ?_
    intro x m₂ hm₂ _ _
    exact Roots.inLoop (ih.repeatTimes _ 0 x body _ ⟨hm₂.heap, hm₂.frame, hm₂.globals⟩)
  | breakLoop line => exact roots_innermostLoop hm line
  | define routine =>
    refine (roots_declareFunction hm routine).bind ?_
    intro _ m₁ hm₁ _ _
    exact roots_pure hm₁ trivial
  | returnWith line value =>
    cases value with
    | none => exact roots_pure hm trivial
    | some value =>
      refine (ih.eval value m hm).bind ?_
      intro v m₁ hm₁ _ hv
      exact roots_pure hm₁ hv
  | classDecl name superclass methods =>
    refine (roots_declareClass hm name superclass methods).bind ?_
    intro _ m₁ hm₁ _ _
    exact roots_pure hm₁ trivial

theorem roots_execAll_succ (body : List Stmt) (hm : m.Rooted) :
    Roots m (execAll (n + 1) body) Flow.LivesIn := by
  cases body with
  | nil => exact roots_pure hm trivial
  | cons s rest =>
    refine (ih.exec s m hm).bind ?_
    intro flow m₁ hm₁ _ hflow
    cases flow with
    | normal => exact ih.execAll rest m₁ hm₁
    | returned v => exact roots_pure hm₁ hflow
    | broke target => exact roots_pure hm₁ trivial

theorem roots_repeatWhile_succ (loop : Nat) (test : Expr) (body : Stmt) (hm : m.Rooted) :
    Roots m (repeatWhile (n + 1) loop test body) Flow.LivesIn := by
  refine (ih.eval test m hm).bind ?_
  intro v m₁ hm₁ _ _
  split
  · refine (ih.exec body m₁ hm₁).bind ?_
    intro flow m₂ hm₂ _ hflow
    exact roots_turn hm₂ hflow (ih.repeatWhile loop test body m₂ hm₂)
  · exact roots_pure hm₁ trivial

theorem roots_repeatTimes_succ (loop : Nat) (i count : Float) (body : Stmt) (hm : m.Rooted) :
    Roots m (repeatTimes (n + 1) loop i count body) Flow.LivesIn := by
  simp only [repeatTimes]
  split
  · refine (ih.exec body m hm).bind ?_
    intro flow m₁ hm₁ _ hflow
    exact roots_turn hm₁ hflow (ih.repeatTimes loop (i + 1) count body m₁ hm₁)
  · exact roots_pure hm trivial

end Induction

/-- Whatever is run on a rooted machine leaves it rooted. -/
theorem rooting (n : Nat) : Rooting n := by
  induction n with
  | zero =>
    constructor
    all_goals intros; exact roots_throw ‹_› _
  | succ n ih =>
    exact
      { eval := fun e _ hm => roots_eval_succ ih e hm
        evalAll := fun es _ hm => roots_evalAll_succ ih es hm
        call := fun callee arguments _ => roots_call_succ ih callee arguments
        apply := fun c arguments _ => roots_apply_succ ih c arguments
        exec := fun s _ => roots_exec_succ ih s
        execAll := fun body _ => roots_execAll_succ ih body
        repeatWhile := fun loop test body _ => roots_repeatWhile_succ ih loop test body
        repeatTimes := fun loop i count body _ => roots_repeatTimes_succ ih loop i count body }

theorem roots_interpret {m : Machine} (n : Nat) (program : Program) (hm : m.Rooted) :
    Roots m (interpret n program) fun _ _ => True := by
  induction program generalizing m with
  | nil => exact roots_pure hm trivial
  | cons s rest ih =>
    refine ((rooting n).exec s m hm).bind ?_
    intro flow m₁ hm₁ _ _
    cases flow with
    | normal => exact ih hm₁
    | returned v => exact roots_pure hm₁ trivial
    | broke target => exact ih hm₁

def given {α : Type} (values : α → List Value) (act : Run α) (m : Machine) : List Value :=
  match act m with
  | .ok a _ => values a
  | .error _ _ => []

theorem Roots.given {α : Type} {m : Machine} {act : Run α} {Q : Heap → α → Prop}
    {values : α → List Value} (h : Roots m act Q)
    (hQ : ∀ heap a, Q heap a → ∀ v ∈ values a, v.LivesIn heap) :
    ∀ v ∈ act.given values m, v.LivesIn (act.final m).heap := by
  intro v hv
  cases ha : act m with
  | ok a m' =>
    rw [Run.given, ha] at hv
    rw [final_ok ha]
    exact hQ _ a (h.result ha) v hv
  | error e m' =>
    rw [Run.given, ha] at hv
    cases hv

end Run

def Task.values : Task → List Value
  | .call callee arguments => callee :: arguments
  | .apply _ arguments => arguments
  | _ => []

def Flow.values : Flow → List Value
  | .returned v => [v]
  | _ => []

theorem Flow.LivesIn.values {h : Heap} {flow : Flow} (hf : flow.LivesIn h) :
    ∀ v ∈ flow.values, v.LivesIn h := by
  cases flow with
  | returned v => exact List.forall_mem_singleton.2 hf
  | normal | broke target => exact nofun

namespace Activity

open Run

def results (a : Activity) : List Value :=
  match a.task with
  | .eval e => (Run.eval a.fuel e).given ([·]) a.machine
  | .evalAll es => (Run.evalAll a.fuel es).given id a.machine
  | .call callee arguments => (Run.call a.fuel callee arguments).given ([·]) a.machine
  | .apply c arguments => (Run.apply a.fuel c arguments).given ([·]) a.machine
  | .exec s => (Run.exec a.fuel s).given Flow.values a.machine
  | .execAll body => (Run.execAll a.fuel body).given Flow.values a.machine
  | .repeatWhile loop test body =>
    (Run.repeatWhile a.fuel loop test body).given Flow.values a.machine
  | .repeatTimes loop i count body =>
    (Run.repeatTimes a.fuel loop i count body).given Flow.values a.machine
  | .interpret _ => []

/-- The activity is begun on a rooted machine, in which the values and the closure exist that it is
begun with. -/
structure Rooted (a : Activity) : Prop where
  machine : a.machine.Rooted
  values : ∀ v ∈ a.task.values, v.LivesIn a.machine.heap
  closure : ∀ c arguments, a.task = .apply c arguments → c.LivesIn a.machine.heap

/-- An activity that is begun without any values. -/
theorem rooted_of_machine {n : Nat} {task : Task} {m : Machine} (hm : m.Rooted)
    (hv : task.values = []) (hc : ∀ c arguments, task ≠ .apply c arguments) :
    Rooted ⟨n, task, m⟩ :=
  ⟨hm, by rw [hv]; exact nofun, fun c arguments he => absurd he (hc c arguments)⟩

/-- A rooted activity ends on a rooted machine, in which the values exist that it gives back. -/
theorem Rooted.ends {a : Activity} (ha : a.Rooted) :
    a.final.Rooted ∧ ∀ v ∈ a.results, v.LivesIn a.final.heap := by
  obtain ⟨n, task, m⟩ := a
  obtain ⟨hm, hv, hc⟩ := ha
  have hr := rooting n
  have hone (heap : Heap) (v : Value) (hv : v.LivesIn heap) : ∀ u ∈ [v], u.LivesIn heap :=
    List.forall_mem_singleton.2 hv
  have hflow (heap : Heap) (flow : Flow) (hf : flow.LivesIn heap) := hf.values
  cases task with
  | eval e =>
    have h := hr.eval e m hm
    exact ⟨h.rooted, h.given hone⟩
  | evalAll es =>
    have h := hr.evalAll es m hm
    exact ⟨h.rooted, h.given fun _ _ h => h⟩
  | call callee arguments =>
    obtain ⟨hcallee, hvs⟩ := List.forall_mem_cons.1 hv
    have h := hr.call callee arguments m hm hcallee hvs
    exact ⟨h.rooted, h.given hone⟩
  | apply c arguments =>
    have h := hr.apply c arguments m hm (hc c arguments rfl) hv
    exact ⟨h.rooted, h.given hone⟩
  | exec s =>
    have h := hr.exec s m hm
    exact ⟨h.rooted, h.given hflow⟩
  | execAll body =>
    have h := hr.execAll body m hm
    exact ⟨h.rooted, h.given hflow⟩
  | repeatWhile loop test body =>
    have h := hr.repeatWhile loop test body m hm
    exact ⟨h.rooted, h.given hflow⟩
  | repeatTimes loop i count body =>
    have h := hr.repeatTimes loop i count body m hm
    exact ⟨h.rooted, h.given hflow⟩
  | interpret program => exact ⟨(roots_interpret n program hm).rooted, nofun⟩

variable {a b : Activity}

theorem Part.rooted (h : a.Part b) (ha : a.Rooted) : b.Rooted := by
  have heval {n : Nat} {e : Expr} {m m' : Machine} {v : Value} (hm : m.Rooted)
      (h : eval n e m = .ok v m') := ((rooting n).eval e m hm).ok h
  have hexec {n : Nat} {s : Stmt} {m m' : Machine} {flow : Flow} (hm : m.Rooted)
      (h : exec n s m = .ok flow m') := ((rooting n).exec s m hm).ok h
  obtain ⟨hm, hv, hc⟩ := ha
  cases h with
  | binaryRight h | logicalRight h | setValue h | indexPosition h | indexSetPosition h
  | arguments h | nextValues h | consequence h | alternative h | whileBody h =>
    exact rooted_of_machine (heval hm h).1 rfl nofun
  | indexSetValue h hi => exact rooted_of_machine (heval (heval hm h).1 hi).1 rfl nofun
  | call h hvs hcheck =>
    obtain ⟨hm₁, -, hcallee⟩ := heval hm h
    obtain ⟨hm₂, hl, hvs⟩ := ((rooting _).evalAll _ _ hm₁).ok hvs
    obtain ⟨rfl, -⟩ := checkCall_eq_ok hcheck
    exact ⟨hm₂, List.forall_mem_cons.2 ⟨hcallee.later hl, hvs⟩, nofun⟩
  | applyFunction =>
    obtain ⟨hcallee, hvs⟩ := List.forall_mem_cons.1 hv
    refine ⟨hm, hvs, fun c arguments he => ?_⟩
    cases he
    exact hcallee.1
  | construct hmethod hi hb =>
    obtain ⟨hclass, hvs⟩ := List.forall_mem_cons.1 hv
    obtain ⟨hm₁, hl₁, hi⟩ := (roots_newInstance hm hclass).ok hi
    obtain ⟨hm₂, hl₂, hbound⟩ :=
      (roots_bindSelf hm₁ ((Class.LivesIn.method hclass hmethod).later hl₁) hi).ok hb
    refine ⟨hm₂, fun v hv => ((hvs v hv).later hl₁).later hl₂, fun c arguments he => ?_⟩
    cases he
    exact hbound
  | routineBody hf _ =>
    obtain ⟨hm₁, -, hlt⟩ := (roots_newFrame hm (hc _ _ rfl) fun name v h =>
      hv v (lookup_bindArguments h).1).ok hf
    exact rooted_of_machine ⟨hm₁.heap, hlt, hm₁.globals⟩ rfl nofun
  | block hf =>
    obtain ⟨hm₁, -, hlt⟩ := (roots_newScope hm).ok hf
    exact rooted_of_machine ⟨hm₁.heap, hlt, hm₁.globals⟩ rfl nofun
  | whileDo => exact rooted_of_machine ⟨hm.heap, hm.frame, hm.globals⟩ rfl nofun
  | times h hx =>
    obtain ⟨hm₁, -, -⟩ := heval hm h
    obtain rfl := repeatCount_eq_ok hx
    exact rooted_of_machine ⟨hm₁.heap, hm₁.frame, hm₁.globals⟩ rfl nofun
  | nextStmts h | timesNext _ h | programNext h =>
    exact rooted_of_machine (hexec hm h).1 rfl nofun
  | whileNext h _ hb => exact rooted_of_machine (hexec (heval hm h).1 hb).1 rfl nofun
  | _ => exact rooted_of_machine hm rfl nofun

theorem Includes.rooted (h : a.Includes b) (ha : a.Rooted) : b.Rooted := by
  induction h with
  | refl => exact ha
  | tail _ hp ih => exact hp.rooted ih

end Activity

end Jal
