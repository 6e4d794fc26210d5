import Jal.Proofs.Machine.Activity
import Jal.Proofs.Machine.Quiet
import Jal.Proofs.Machine.Refusal

namespace Jal

namespace Activity

open Run

/-- The activity is a call of a native function that writes the text, as write number `n`. -/
inductive Writes (n : Nat) : Activity → String → Prop where
  | native {k : Nat} {f : Native} {arguments : List Value} {m : Machine}
      (hs : m.console.written.size = n) (ht : f.text m.heap arguments ≠ "") :
      Writes n ⟨k + 1, .call (.native f) arguments, m⟩ (f.text m.heap arguments)

/-- The refused write is one that is made in the course of `root`, with the line of the call
expression there. -/
def Refuses (n : Nat) (root : Activity) (r : Refusal) : Prop :=
  ∃ a b callee line arguments, root.Includes a ∧ a.task = .eval (.call callee line arguments) ∧
    a.Part b ∧ b.Writes n r.text ∧ r.line = some line ∧ r.console = b.machine.console

/-- The activity itself makes the refused write, and the error still lacks a line. -/
def Pending (n : Nat) (a : Activity) (r : Refusal) : Prop :=
  a.Writes n r.text ∧ r.line = none ∧ r.console = a.machine.console

/-- A run of the task is cut off at write `n` in the course of `root`. Only a call may leave the
line to the expression that it stands in. -/
def CutsIn (n : Nat) (root a : Activity) : Prop :=
  match a.task with
  | .eval e => Cuts n a.machine (eval a.fuel e) (Refuses n root)
  | .evalAll es => Cuts n a.machine (evalAll a.fuel es) (Refuses n root)
  | .call callee arguments =>
    Cuts n a.machine (call a.fuel callee arguments) fun r => Refuses n root r ∨ Pending n a r
  | .apply c arguments => Cuts n a.machine (apply a.fuel c arguments) (Refuses n root)
  | .exec s => Cuts n a.machine (exec a.fuel s) (Refuses n root)
  | .execAll body => Cuts n a.machine (execAll a.fuel body) (Refuses n root)
  | .repeatWhile loop test body =>
    Cuts n a.machine (repeatWhile a.fuel loop test body) (Refuses n root)
  | .repeatTimes loop i count body =>
    Cuts n a.machine (repeatTimes a.fuel loop i count body) (Refuses n root)
  | .interpret program => Cuts n a.machine (interpret a.fuel program) (Refuses n root)

/-- A call expression gives its line to an error without one, and only to such an error. -/
theorem Refuses.orLine {n : Nat} {root a b : Activity} {callee : Expr} {line : Nat}
    {arguments : List Expr} (ha : root.Includes a)
    (ht : a.task = .eval (.call callee line arguments)) (hp : a.Part b) (r : Refusal)
    (h : Refuses n root r ∨ Pending n b r) :
    Refuses n root { r with line := r.line <|> some line } := by
  rcases h with ⟨a', b', callee', line', arguments', ha', ht', hp', hw, hl, hc⟩ | ⟨hw, hl, hc⟩
  · exact ⟨a', b', callee', line', arguments', ha', ht', hp', hw, by rw [hl]; rfl, hc⟩
  · exact ⟨a, b, callee, line, arguments, ha, ht, hp, hw, by rw [hl]; rfl, hc⟩

variable {k n : Nat} {m : Machine} {root : Activity}

theorem cuts_eval {e : Expr} (hi : root.Includes ⟨k, .eval e, m⟩)
    (hd : ∀ b, Part ⟨k, .eval e, m⟩ b → CutsIn n root b) : CutsIn n root ⟨k, .eval e, m⟩ := by
  cases k with
  | zero => exact (blind_throw _).cuts
  | succ k =>
    cases e with
    | literal value => exact (blind_pure _).cuts
    | grouping inner => exact hd ⟨k, .eval inner, m⟩ .grouping
    | unary op line operand =>
      refine Cuts.bind (hd _ .unary) ?_
      intro v m₁ _
      exact (blind_unary op line v).cuts
    | binary op line left right =>
      refine Cuts.bind (hd _ .binaryLeft) ?_
      intro v m₁ h
      refine Cuts.bind (hd _ (.binaryRight h)) ?_
      intro v' m₂ _
      exact (blind_binary op line v v').cuts
    | logical op left right =>
      refine Cuts.bind (hd _ .logicalLeft) ?_
      intro v m₁ h
      cases hv : op.decidedBy v with
      | true => exact (blind_pure v).cuts
      | false => exact hd _ (.logicalRight h hv)
    | «variable» ref => exact (blind_lookUp ref.id ref.name).cuts
    | assign ref value =>
      refine Cuts.bind (hd _ .assign) ?_
      intro v m₁ _
      exact (blind_assign ref v).cuts
    | selfRef id line => exact (blind_lookUp id _).cuts
    | superRef id line method => exact (blind_superMethod id line method).cuts
    | get object name =>
      refine Cuts.bind (hd _ .get) ?_
      intro v m₁ _
      refine Cuts.bind (blind_asInstance v name).cuts ?_
      intro i m₂ _
      exact (blind_property i name).cuts
    | set object name value =>
      refine Cuts.bind (hd _ .setObject) ?_
      intro v m₁ h
      refine Cuts.bind (blind_asInstance v name).cuts ?_
      intro i m₂ hv
      obtain ⟨rfl, rfl⟩ := asInstance_eq_ok hv
      refine Cuts.bind (hd _ (.setValue h)) ?_
      intro v' m₃ _
      exact (blind_setProperty i name v').cuts
    | index object line position =>
      refine Cuts.bind (hd _ .indexObject) ?_
      intro v m₁ h
      refine Cuts.bind (hd _ (.indexPosition h)) ?_
      intro i m₂ _
      exact (blind_element line v i).cuts
    | indexSet object line position value =>
      refine Cuts.bind (hd _ .indexSetObject) ?_
      intro v m₁ h
      refine Cuts.bind (hd _ (.indexSetPosition h)) ?_
      intro i m₂ hi
      refine Cuts.bind (hd _ (.indexSetValue h hi)) ?_
      intro v' m₃ _
      exact (blind_setElement line v i v').cuts
    | call callee line arguments =>
      refine Cuts.bind (hd _ .callee) ?_
      intro v m₁ h
      refine Cuts.bind (hd _ (.arguments h)) ?_
      intro vs m₂ hvs
      refine Cuts.bind (blind_checkCall line v vs.length).cuts ?_
      intro _ m₃ hc
      exact Cuts.orLine (hd _ (.call h hvs hc)) (Refuses.orLine hi rfl (.call h hvs hc))
    | array elements =>
      refine Cuts.bind (hd _ .array) ?_
      intro vs m₁ _
      exact (blind_newArray vs).cuts

theorem cuts_evalAll {es : List Expr} (hd : ∀ b, Part ⟨k, .evalAll es, m⟩ b → CutsIn n root b) :
    CutsIn n root ⟨k, .evalAll es, m⟩ := by
  cases k with
  | zero => exact (blind_throw _).cuts
  | succ k =>
    cases es with
    | nil => exact (blind_pure _).cuts
    | cons e rest =>
      refine Cuts.bind (hd _ .firstValue) ?_
      intro v m₁ h
      refine Cuts.bind (hd _ (.nextValues h)) ?_
      intro vs m₂ _
      exact (blind_pure _).cuts

theorem cuts_call {callee : Value} {arguments : List Value}
    (hd : ∀ b, Part ⟨k, .call callee arguments, m⟩ b → CutsIn n root b) :
    CutsIn n root ⟨k, .call callee arguments, m⟩ := by
  cases k with
  | zero => exact (blind_throw _).cuts
  | succ k =>
    cases callee with
    | native f =>
      refine Cuts.mono (cuts_callNative f arguments) ?_
      rintro _ ⟨rfl, hs, ht⟩
      exact .inr ⟨.native hs ht, rfl, rfl⟩
    | function c stamp => exact Cuts.mono (hd _ .applyFunction) fun _ => .inl
    | classValue c =>
      refine Cuts.bind (blind_onHeap _).cuts ?_
      intro i m₁ hi
      cases hc : c.constructor? with
      | none => exact (blind_pure _).cuts
      | some method =>
        refine Cuts.bind (blind_bindSelf method i).cuts ?_
        intro bound m₂ hb
        refine Cuts.bind (Cuts.mono (hd _ (.construct hc hi hb)) fun _ => .inl) ?_
        intro _ m₃ _
        exact (blind_pure _).cuts
    | none | bool b | number x | text s | array id | object id => exact (blind_throw _).cuts

theorem cuts_apply {c : Closure} {arguments : List Value}
    (hd : ∀ b, Part ⟨k, .apply c arguments, m⟩ b → CutsIn n root b) :
    CutsIn n root ⟨k, .apply c arguments, m⟩ := by
  cases k with
  | zero => exact (blind_throw _).cuts
  | succ k =>
    refine Cuts.bind (blind_newFrame _ _).cuts ?_
    intro f m₁ hf
    refine Cuts.bind (Cuts.inCall fun hlt => hd _ (.routineBody hf hlt)) ?_
    intro flow m₂ _
    exact (blind_result c flow).cuts

theorem cuts_exec {s : Stmt} (hd : ∀ b, Part ⟨k, .exec s, m⟩ b → CutsIn n root b) :
    CutsIn n root ⟨k, .exec s, m⟩ := by
  cases k with
  | zero => exact (blind_throw _).cuts
  | succ k =>
    cases s with
    | expr e =>
      refine Cuts.bind (hd _ .expr) ?_
      intro _ m₁ _
      exact (blind_pure _).cuts
    | letVar name init =>
      cases init with
      | none => exact (blind_bind (blind_define _ _) fun _ => blind_pure _).cuts
      | some init =>
        refine Cuts.bind (hd _ .letVar) ?_
        intro v m₁ _
        exact (blind_bind (blind_define _ v) fun _ => blind_pure _).cuts
    | block body =>
      refine Cuts.bind blind_newScope.cuts ?_
      intro f m₁ hf
      exact Cuts.inFrame (hd _ (.block hf))
    | ifThen test consequence alternative =>
      refine Cuts.bind (hd _ .ifTest) ?_
      intro v m₁ h
      cases hv : v.truthy with
      | true => exact hd _ (.consequence h hv)
      | false =>
        cases alternative with
        | none => exact (blind_pure _).cuts
        | some s => exact hd _ (.alternative h hv)
    | whileDo test body => exact Cuts.inLoop (hd _ .whileDo)
    | times line count body =>
      refine Cuts.bind (hd _ .timesCount) ?_
      intro v m₁ h
      refine Cuts.bind (blind_repeatCount line v).cuts ?_
      intro x m₂ hx
      exact Cuts.inLoop (hd _ (.times h hx))
    | breakLoop line => exact (blind_innermostLoop line).cuts
    | define r => exact (blind_bind (blind_declareFunction r) fun _ => blind_pure _).cuts
    | returnWith line value =>
      cases value with
      | none => exact (blind_pure _).cuts
      | some value =>
        refine Cuts.bind (hd _ .returnWith) ?_
        intro v m₁ _
        exact (blind_pure _).cuts
    | classDecl name superclass methods =>
      exact (blind_bind (blind_declareClass name superclass methods) fun _ => blind_pure _).cuts

theorem cuts_execAll {body : List Stmt} (hd : ∀ b, Part ⟨k, .execAll body, m⟩ b → CutsIn n root b) :
    CutsIn n root ⟨k, .execAll body, m⟩ := by
  cases k with
  | zero => exact (blind_throw _).cuts
  | succ k =>
    cases body with
    | nil => exact (blind_pure _).cuts
    | cons s rest =>
      refine Cuts.bind (hd _ .firstStmt) ?_
      intro flow m₁ h
      cases flow with
      | normal => exact hd _ (.nextStmts h)
      | returned v => exact (blind_pure _).cuts
      | broke target => exact (blind_pure _).cuts

/-- A turn of a loop that does not end normally writes no more. -/
theorem cuts_ofTarget {loop target : Nat} {E : Refusal → Prop} :
    Cuts n m (if target = loop then pure .normal else pure (.broke target) : Run Flow) E := by
  split
  · exact (blind_pure _).cuts
  · exact (blind_pure _).cuts

theorem cuts_repeatWhile {loop : Nat} {test : Expr} {body : Stmt}
    (hd : ∀ b, Part ⟨k, .repeatWhile loop test body, m⟩ b → CutsIn n root b) :
    CutsIn n root ⟨k, .repeatWhile loop test body, m⟩ := by
  cases k with
  | zero => exact (blind_throw _).cuts
  | succ k =>
    refine Cuts.bind (hd _ .whileTest) ?_
    intro v m₁ h
    cases hv : v.truthy with
    | false => exact (blind_pure _).cuts
    | true =>
      refine Cuts.bind (hd _ (.whileBody h hv)) ?_
      intro flow m₂ hb
      cases flow with
      | normal => exact hd _ (.whileNext h hv hb)
      | returned v => exact (blind_pure _).cuts
      | broke target => exact cuts_ofTarget

theorem cuts_repeatTimes {loop : Nat} {i count : Float} {body : Stmt}
    (hd : ∀ b, Part ⟨k, .repeatTimes loop i count body, m⟩ b → CutsIn n root b) :
    CutsIn n root ⟨k, .repeatTimes loop i count body, m⟩ := by
  cases k with
  | zero => exact (blind_throw _).cuts
  | succ k =>
    simp only [CutsIn, repeatTimes]
    split
    · rename_i hi
      refine Cuts.bind (hd _ (.timesBody hi)) ?_
      intro flow m₁ hb
      cases flow with
      | normal => exact hd _ (.timesNext hi hb)
      | returned v => exact (blind_pure _).cuts
      | broke target => exact cuts_ofTarget
    · exact (blind_pure _).cuts

theorem cuts_interpret {program : Program}
    (hd : ∀ b, Part ⟨k, .interpret program, m⟩ b → CutsIn n root b) :
    CutsIn n root ⟨k, .interpret program, m⟩ := by
  cases program with
  | nil => exact (blind_pure _).cuts
  | cons s rest =>
    refine Cuts.bind (hd _ .programFirst) ?_
    intro flow m₁ h
    cases flow with
    | normal => exact hd _ (.programNext h nofun)
    | returned v => exact (blind_pure _).cuts
    | broke target => exact hd _ (.programNext h nofun)

/-- Whatever happens in the course of `root` is cut off at write `n`. -/
theorem cuts {a : Activity} (hi : root.Includes a) : CutsIn n root a := by
  induction a using wellFounded_part.induction with
  | _ a ih =>
    have hd : ∀ b, a.Part b → CutsIn n root b := fun b hp => ih b hp (hi.tail hp)
    obtain ⟨k, task, m⟩ := a
    cases task with
    | eval e => exact cuts_eval hi hd
    | evalAll es => exact cuts_evalAll hd
    | call callee arguments => exact cuts_call hd
    | apply c arguments => exact cuts_apply hd
    | exec s => exact cuts_exec hd
    | execAll body => exact cuts_execAll hd
    | repeatWhile loop test body => exact cuts_repeatWhile hd
    | repeatTimes loop i count body => exact cuts_repeatTimes hd
    | interpret program => exact cuts_interpret hd

end Activity

end Jal
