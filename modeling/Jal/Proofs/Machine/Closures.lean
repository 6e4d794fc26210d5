import Jal.Proofs.Machine.Breaks
import Jal.Proofs.Machine.Routines

namespace Jal

variable {P : Routine Stmt → Bool → Prop}

mutual

/-- The routines that the statement declares, but for those in the bodies of others, have the
property. -/
def Stmt.Declares (P : Routine Stmt → Bool → Prop) : Stmt → Prop
  | .block body => Stmt.AllDeclare P body
  | .ifThen _ consequence none => consequence.Declares P
  | .ifThen _ consequence (some alternative) => consequence.Declares P ∧ alternative.Declares P
  | .whileDo _ body => body.Declares P
  | .times _ _ body => body.Declares P
  | .define routine => P routine false
  | .classDecl _ _ methods => ∀ r ∈ methods, P r r.isConstructor
  | _ => True

def Stmt.AllDeclare (P : Routine Stmt → Bool → Prop) : List Stmt → Prop
  | [] => True
  | s :: rest => s.Declares P ∧ Stmt.AllDeclare P rest

end

namespace Run

variable {m : Machine}

structure Leaving (P : Routine Stmt → Bool → Prop) (n : Nat) : Prop where
  eval : ∀ e m, m.heap.Meets P → Leaves P m (eval n e) (Value.Meets P) fun _ => True
  evalAll : ∀ es m, m.heap.Meets P →
    Leaves P m (evalAll n es) (fun vs => ∀ v ∈ vs, v.Meets P) fun _ => True
  call : ∀ callee arguments m, m.heap.Meets P → callee.Meets P →
    (∀ v ∈ arguments, v.Meets P) →
    Leaves P m (call n callee arguments) (Value.Meets P) fun _ => True
  apply : ∀ c arguments m, m.heap.Meets P → c.Meets P →
    (∀ v ∈ arguments, v.Meets P) →
    Leaves P m (apply n c arguments) (Value.Meets P) fun _ => True
  exec : ∀ s m, m.heap.Meets P → s.Declares P → Leaves P m (exec n s) (Flow.Meets P) fun _ => True
  execAll : ∀ body m, m.heap.Meets P → Stmt.AllDeclare P body →
    Leaves P m (execAll n body) (Flow.Meets P) fun _ => True
  repeatWhile : ∀ loop test body m, m.heap.Meets P → body.Declares P →
    Leaves P m (repeatWhile n loop test body) (Flow.Meets P) fun _ => True
  repeatTimes : ∀ loop i count body m, m.heap.Meets P → body.Declares P →
    Leaves P m (repeatTimes n loop i count body) (Flow.Meets P) fun _ => True

section Induction

variable {n : Nat} (ih : Leaving P n)

include ih

theorem leaves_eval_succ (e : Expr) (hm : m.heap.Meets P) :
    Leaves P m (eval (n + 1) e) (Value.Meets P) fun _ => True := by
  cases e with
  | literal value => exact triple_pure hm (by cases value <;> trivial)
  | grouping inner => exact ih.eval inner m hm
  | unary op line operand =>
    refine (ih.eval operand m hm).bind ?_
    intro v m₁ _ hm₁ _
    exact leaves_unary hm₁ op line v allows_any
  | binary op line left right =>
    refine (ih.eval left m hm).bind ?_
    intro v m₁ _ hm₁ _
    refine (ih.eval right m₁ hm₁).bind ?_
    intro v' m₂ _ hm₂ _
    exact leaves_binary hm₂ op line v v' allows_any
  | logical op left right =>
    refine (ih.eval left m hm).bind ?_
    intro v m₁ _ hm₁ hv
    split
    · exact triple_pure hm₁ hv
    · exact ih.eval right m₁ hm₁
  | «variable» ref => exact leaves_lookUp hm ref.id ref.name allows_any
  | assign ref value =>
    refine (ih.eval value m hm).bind ?_
    intro v m₁ _ hm₁ hv
    exact leaves_assign hm₁ ref hv allows_any
  | selfRef id line => exact leaves_lookUp hm id _ allows_any
  | superRef id line method => exact leaves_superMethod hm id line method allows_any allows_any
  | get object name =>
    refine (ih.eval object m hm).bind ?_
    intro v m₁ _ hm₁ _
    refine (leaves_asInstance hm₁ v name allows_any).bind ?_
    intro i m₂ _ hm₂ _
    exact leaves_property hm₂ i name allows_any
  | set object name value =>
    refine (ih.eval object m hm).bind ?_
    intro v m₁ _ hm₁ _
    refine (leaves_asInstance hm₁ v name allows_any).bind ?_
    intro i m₂ _ hm₂ _
    refine (ih.eval value m₂ hm₂).bind ?_
    intro v' m₃ _ hm₃ hv'
    exact leaves_setProperty hm₃ i name hv'
  | index object line position =>
    refine (ih.eval object m hm).bind ?_
    intro v m₁ _ hm₁ _
    refine (ih.eval position m₁ hm₁).bind ?_
    intro i m₂ _ hm₂ _
    exact leaves_element hm₂ line v i allows_any
  | indexSet object line position value =>
    refine (ih.eval object m hm).bind ?_
    intro v m₁ _ hm₁ _
    refine (ih.eval position m₁ hm₁).bind ?_
    intro i m₂ _ hm₂ _
    refine (ih.eval value m₂ hm₂).bind ?_
    intro v' m₃ _ hm₃ hv'
    exact leaves_setElement hm₃ line v i hv' allows_any
  | call callee line arguments =>
    refine (ih.eval callee m hm).bind ?_
    intro v m₁ _ hm₁ hv
    refine (ih.evalAll arguments m₁ hm₁).bind ?_
    intro vs m₂ _ hm₂ hvs
    refine (leaves_checkCall hm₂ line v vs.length allows_any).bind ?_
    intro _ m₃ _ hm₃ _
    exact Triple.orLine (ih.call v vs m₃ hm₃ hv hvs)
  | array elements =>
    refine (ih.evalAll elements m hm).bind ?_
    intro vs m₁ _ hm₁ hvs
    exact leaves_newArray hm₁ hvs

theorem leaves_evalAll_succ (es : List Expr) (hm : m.heap.Meets P) :
    Leaves P m (evalAll (n + 1) es) (fun vs => ∀ v ∈ vs, v.Meets P) fun _ => True := by
  cases es with
  | nil => exact triple_pure hm nofun
  | cons e rest =>
    refine (ih.eval e m hm).bind ?_
    intro v m₁ _ hm₁ hv
    refine (ih.evalAll rest m₁ hm₁).bind ?_
    intro vs m₂ _ hm₂ hvs
    exact triple_pure hm₂ (List.forall_mem_cons.2 ⟨hv, hvs⟩)

theorem leaves_call_succ (callee : Value) (arguments : List Value) (hm : m.heap.Meets P)
    (hc : callee.Meets P) (ha : ∀ v ∈ arguments, v.Meets P) :
    Leaves P m (call (n + 1) callee arguments) (Value.Meets P) fun _ => True := by
  cases callee with
  | native f => exact leaves_callNative hm f arguments fun _ _ => trivial
  | function c stamp => exact ih.apply c arguments m hm hc ha
  | classValue c =>
    refine (leaves_newInstance hm hc).bind ?_
    intro i m₁ _ hm₁ _
    cases hmethod : c.constructor? with
    | none => exact triple_pure hm₁ trivial
    | some method =>
      refine (leaves_bindSelf hm₁ (Class.Meets.method hc hmethod) i).bind ?_
      intro bound m₂ _ hm₂ hb
      refine (ih.apply bound arguments m₂ hm₂ hb ha).bind ?_
      intro _ m₃ _ hm₃ _
      exact triple_pure hm₃ trivial
  | _ => exact triple_throw hm _ fun _ _ => trivial

theorem leaves_apply_succ (hP : ∀ r b, P r b → Stmt.AllDeclare P r.body) (c : Closure)
    (arguments : List Value) (hm : m.heap.Meets P) (hc : c.Meets P)
    (ha : ∀ v ∈ arguments, v.Meets P) :
    Leaves P m (apply (n + 1) c arguments) (Value.Meets P) fun _ => True := by
  refine (leaves_argumentFrame hm c.routine.params c.frame ha).bind ?_
  intro f m₁ _ hm₁ _
  have hbody := ih.execAll c.routine.body (m₁.enterCall f) hm₁ (hP _ _ hc)
  refine Triple.bind (Triple.inCall hm₁ (fun _ => trivial) (fun _ => hbody) fun _ => id) ?_
  intro flow m₂ _ hm₂ hflow
  exact leaves_result hm₂ c hflow trivial

theorem leaves_exec_succ (s : Stmt) (hm : m.heap.Meets P) (hs : s.Declares P) :
    Leaves P m (exec (n + 1) s) (Flow.Meets P) fun _ => True := by
  cases s with
  | expr e =>
    refine (ih.eval e m hm).bind ?_
    intro _ m₁ _ hm₁ _
    exact triple_pure hm₁ trivial
  | letVar name init =>
    cases init with
    | none =>
      refine (leaves_define (v := .none) hm _ trivial).bind ?_
      intro _ m₁ _ hm₁ _
      exact triple_pure hm₁ trivial
    | some init =>
      refine (ih.eval init m hm).bind ?_
      intro v m₁ _ hm₁ hv
      refine (leaves_define hm₁ _ hv).bind ?_
      intro _ m₂ _ hm₂ _
      exact triple_pure hm₂ trivial
  | block body =>
    refine (leaves_newScope hm).bind ?_
    intro f m₁ _ hm₁ _
    exact Triple.inFrame (ih.execAll body { m₁ with frame := f } hm₁ hs) fun _ => id
  | ifThen test consequence alternative =>
    refine (ih.eval test m hm).bind ?_
    intro v m₁ _ hm₁ _
    cases alternative with
    | none =>
      split
      · exact ih.exec consequence m₁ hm₁ hs
      · exact triple_pure hm₁ trivial
    | some alternative =>
      split
      · exact ih.exec consequence m₁ hm₁ hs.1
      · exact ih.exec alternative m₁ hm₁ hs.2
  | whileDo test body => exact Triple.inLoop (ih.repeatWhile _ test body _ hm hs) fun _ => id
  | times line count body =>
    refine (ih.eval count m hm).bind ?_
    intro v m₁ _ hm₁ _
    refine (leaves_repeatCount hm₁ line v allows_any).bind ?_
    intro x m₂ _ hm₂ _
    exact Triple.inLoop (ih.repeatTimes _ 0 x body _ hm₂ hs) fun _ => id
  | breakLoop line => exact leaves_innermostLoop hm line allows_any
  | define routine =>
    refine (leaves_declareFunction hm hs).bind ?_
    intro _ m₁ _ hm₁ _
    exact triple_pure hm₁ trivial
  | returnWith line value =>
    cases value with
    | none => exact triple_pure hm trivial
    | some value =>
      refine (ih.eval value m hm).bind ?_
      intro v m₁ _ hm₁ hv
      exact triple_pure hm₁ hv
  | classDecl name superclass methods =>
    refine (leaves_declareClass hm name superclass hs fun _ _ => allows_any).bind ?_
    intro _ m₁ _ hm₁ _
    exact triple_pure hm₁ trivial

theorem leaves_execAll_succ (body : List Stmt) (hm : m.heap.Meets P)
    (hb : Stmt.AllDeclare P body) :
    Leaves P m (execAll (n + 1) body) (Flow.Meets P) fun _ => True := by
  cases body with
  | nil => exact triple_pure hm trivial
  | cons s rest =>
    refine (ih.exec s m hm hb.1).bind ?_
    intro flow m₁ _ hm₁ hflow
    cases flow with
    | normal => exact ih.execAll rest m₁ hm₁ hb.2
    | returned v => exact triple_pure hm₁ hflow
    | broke target => exact triple_pure hm₁ trivial

theorem leaves_repeatWhile_succ (loop : Nat) (test : Expr) (body : Stmt) (hm : m.heap.Meets P)
    (hb : body.Declares P) :
    Leaves P m (repeatWhile (n + 1) loop test body) (Flow.Meets P) fun _ => True := by
  refine (ih.eval test m hm).bind ?_
  intro v m₁ _ hm₁ _
  split
  · refine (ih.exec body m₁ hm₁ hb).bind ?_
    intro flow m₂ _ hm₂ hflow
    cases flow with
    | normal => exact ih.repeatWhile loop test body m₂ hm₂ hb
    | returned v => exact triple_pure hm₂ hflow
    | broke target =>
      dsimp only
      split <;> exact triple_pure hm₂ trivial
  · exact triple_pure hm₁ trivial

theorem leaves_repeatTimes_succ (loop : Nat) (i count : Float) (body : Stmt)
    (hm : m.heap.Meets P) (hb : body.Declares P) :
    Leaves P m (repeatTimes (n + 1) loop i count body) (Flow.Meets P) fun _ => True := by
  simp only [repeatTimes]
  split
  · refine (ih.exec body m hm hb).bind ?_
    intro flow m₁ _ hm₁ hflow
    cases flow with
    | normal => exact ih.repeatTimes loop (i + 1) count body m₁ hm₁ hb
    | returned v => exact triple_pure hm₁ hflow
    | broke target =>
      dsimp only
      split <;> exact triple_pure hm₁ trivial
  · exact triple_pure hm trivial

end Induction

theorem leaving (hP : ∀ r b, P r b → Stmt.AllDeclare P r.body) (n : Nat) : Leaving P n := by
  induction n with
  | zero =>
    constructor
    all_goals intros; exact triple_throw ‹_› _ fun _ _ => trivial
  | succ n ih =>
    exact
      { eval := fun e _ hm => leaves_eval_succ ih e hm
        evalAll := fun es _ hm => leaves_evalAll_succ ih es hm
        call := fun callee arguments _ => leaves_call_succ ih callee arguments
        apply := fun c arguments _ => leaves_apply_succ ih hP c arguments
        exec := fun s _ => leaves_exec_succ ih s
        execAll := fun body _ => leaves_execAll_succ ih body
        repeatWhile := fun loop test body _ => leaves_repeatWhile_succ ih loop test body
        repeatTimes := fun loop i count body _ => leaves_repeatTimes_succ ih loop i count body }

theorem leaves_interpret (hP : ∀ r b, P r b → Stmt.AllDeclare P r.body) (n : Nat)
    (program : Program) (hm : m.heap.Meets P) (hp : Stmt.AllDeclare P program) :
    Leaves P m (interpret n program) (fun _ => True) fun _ => True := by
  induction program generalizing m with
  | nil => exact triple_pure hm trivial
  | cons s rest ih =>
    refine ((leaving hP n).exec s m hm hp.1).bind ?_
    intro flow m₁ _ hm₁ _
    cases flow with
    | normal => exact ih hm₁ hp.2
    | returned v => exact triple_pure hm₁ trivial
    | broke target => exact ih hm₁ hp.2

end Run

namespace Activity

open Run

/-- The closures in the heap, those that the task handles and those that it declares have the
property. -/
def Meets (P : Routine Stmt → Bool → Prop) (a : Activity) : Prop :=
  a.machine.heap.Meets P ∧
    match a.task with
    | .call callee arguments => callee.Meets P ∧ ∀ v ∈ arguments, v.Meets P
    | .apply c arguments => c.Meets P ∧ ∀ v ∈ arguments, v.Meets P
    | .exec s => s.Declares P
    | .execAll body => Stmt.AllDeclare P body
    | .repeatWhile _ _ body => body.Declares P
    | .repeatTimes _ _ _ body => body.Declares P
    | .interpret program => Stmt.AllDeclare P program
    | _ => True

variable {a b : Activity}

theorem Part.meets (hP : ∀ r b, P r b → Stmt.AllDeclare P r.body) (h : a.Part b)
    (ha : a.Meets P) : b.Meets P := by
  have heval {n : Nat} {e : Expr} {m m' : Machine} {v : Value} (hm : m.heap.Meets P)
      (h : eval n e m = .ok v m') : m'.heap.Meets P ∧ v.Meets P :=
    ((leaving hP n).eval e m hm).ok h
  have hexec {n : Nat} {s : Stmt} {m m' : Machine} {flow : Flow} (hm : m.heap.Meets P)
      (hs : s.Declares P) (h : exec n s m = .ok flow m') : m'.heap.Meets P :=
    (((leaving hP n).exec s m hm hs).ok h).1
  obtain ⟨hm, ht⟩ := ha
  cases h with
  | binaryRight h | logicalRight h | setValue h | indexPosition h | indexSetPosition h
  | arguments h | nextValues h => exact ⟨(heval hm h).1, trivial⟩
  | indexSetValue h hi => exact ⟨(heval (heval hm h).1 hi).1, trivial⟩
  | call h hvs hc =>
    obtain ⟨hm₁, hv⟩ := heval hm h
    obtain ⟨hm₂, hvs⟩ := ((leaving hP _).evalAll _ _ hm₁).ok hvs
    exact ⟨((leaves_checkCall hm₂ _ _ _ allows_any).ok hc).1, hv, hvs⟩
  | applyFunction => exact ⟨hm, ht⟩
  | construct hc hi hb =>
    have hm₁ := (leaves_newInstance (E := fun _ => True) hm ht.1).ok hi
    obtain ⟨hm₂, hbound⟩ := (leaves_bindSelf (E := fun _ => True) hm₁.1
      (Class.Meets.method ht.1 hc) _).ok hb
    exact ⟨hm₂, hbound, ht.2⟩
  | routineBody hf hd =>
    have hm₁ := (leaves_argumentFrame (E := fun _ => True) hm _ _ ht.2).ok hf
    exact ⟨hm₁.1, hP _ _ ht.1⟩
  | block hf => exact ⟨((leaves_newScope (E := fun _ => True) hm).ok hf).1, ht⟩
  | @consequence _ _ _ _ alternative _ _ h =>
    refine ⟨(heval hm h).1, ?_⟩
    cases alternative with
    | none => exact ht
    | some s => exact ht.1
  | alternative h => exact ⟨(heval hm h).1, ht.2⟩
  | whileDo => exact ⟨hm, ht⟩
  | times h hx => exact ⟨((leaves_repeatCount (heval hm h).1 _ _ allows_any).ok hx).1, ht⟩
  | firstStmt => exact ⟨hm, ht.1⟩
  | nextStmts h => exact ⟨hexec hm ht.1 h, ht.2⟩
  | whileBody h => exact ⟨(heval hm h).1, ht⟩
  | whileNext h _ hb => exact ⟨hexec (heval hm h).1 ht hb, ht⟩
  | timesBody => exact ⟨hm, ht⟩
  | timesNext _ h => exact ⟨hexec hm ht h, ht⟩
  | programFirst => exact ⟨hm, ht.1⟩
  | programNext h => exact ⟨hexec hm ht.1 h, ht.2⟩
  | _ => exact ⟨hm, trivial⟩

theorem Includes.meets (hP : ∀ r b, P r b → Stmt.AllDeclare P r.body) (h : a.Includes b)
    (ha : a.Meets P) : b.Meets P := by
  induction h with
  | refl => exact ha
  | tail _ hp ih => exact hp.meets hP ih

end Activity

end Jal
