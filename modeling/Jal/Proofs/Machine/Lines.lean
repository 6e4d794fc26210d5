import Jal.Proofs.Machine.Ready
import Jal.Proofs.Machine.Routines
import Jal.Proofs.Program.Lines

namespace Jal

namespace Activity

open Run

/-- The activity itself raises the fault, without a line. -/
inductive RaisesBare : Activity → Fault → Prop where
  | native {n : Nat} {m m' : Machine} {f : Native} {arguments : List Value} {fault : Fault}
      (h : callNative f arguments m = .error (.error ⟨none, fault⟩) m') :
      RaisesBare ⟨n + 1, .call (.native f) arguments, m⟩ fault
  | overflow {n : Nat} {m : Machine} {c : Closure} {arguments : List Value}
      (hd : maxDepth ≤ m.depth) : RaisesBare ⟨n + 1, .apply c arguments, m⟩ .stackOverflow

def IsCall (a : Activity) : Prop :=
  ∃ callee line arguments, a.task = .eval (.call callee line arguments)

/-- The second activity is begun in the course of the first one, and no call expression is
evaluated around it but for the first. -/
def Encloses : Activity → Activity → Prop :=
  Relation.ReflTransGen fun a b => a.Part b ∧ ¬b.IsCall

/-- The error has the line of a token. If its fault is one that is raised without a line, it was
raised in the course of `root`, and the line is that of the closing parenthesis of the innermost
call expression there. -/
def Explains (tokens : List Token) (whole : Passage) (root : Activity) (e : RuntimeError) : Prop :=
  ∃ line, e.line = some line ∧ HasLine tokens line ∧
    (e.fault.isBare = true → ∃ a b callee arguments, root.Includes a ∧
      a.task = .eval (.call callee line arguments) ∧
      whole.Closes (.call callee line arguments) line ∧ a.Encloses b ∧ b.RaisesBare e.fault)

/-- The error still lacks a line, and was raised in the course of `a` outside of all call
expressions in it. -/
def Pends (a : Activity) (e : RuntimeError) : Prop :=
  e.line = none ∧ (e.fault.isBare = true → ∃ b, a.Encloses b ∧ b.RaisesBare e.fault)

variable {tokens : List Token} {whole : Passage} {root : Activity}

theorem allows_explains {line : Nat} (h : HasLine tokens line) :
    Allows (Explains tokens whole root) line := by
  intro fault hf
  refine ⟨line, rfl, h, fun hb => ?_⟩
  rw [hf] at hb
  cases hb

theorem Pends.of_part {a b : Activity} {e : RuntimeError} (hp : a.Part b) (hb : ¬b.IsCall)
    (h : b.Pends e) : a.Pends e := by
  refine ⟨h.1, fun hf => ?_⟩
  obtain ⟨c, hc, hr⟩ := h.2 hf
  exact ⟨c, .head ⟨hp, hb⟩ hc, hr⟩

/-- A call expression gives its line to an error without one, and only to such an error. -/
theorem Explains.orLine {a b : Activity} {callee : Expr} {line : Nat} {arguments : List Expr}
    {e : RuntimeError} (ha : root.Includes a) (ht : a.task = .eval (.call callee line arguments))
    (hline : HasLine tokens line) (hclose : whole.Closes (.call callee line arguments) line)
    (hp : a.Part b) (hb : ¬b.IsCall) (h : Explains tokens whole root e ∨ b.Pends e) :
    Explains tokens whole root (e.orLine line) := by
  rcases h with ⟨own, hown, h⟩ | h
  · refine ⟨own, ?_, h⟩
    rw [RuntimeError.orLine, hown]
    rfl
  · refine ⟨line, ?_, hline, fun hf => ?_⟩
    · rw [RuntimeError.orLine, h.1]
      rfl
    · obtain ⟨c, hc, hr⟩ := (h.of_part hp hb).2 hf
      exact ⟨a, c, callee, arguments, ha, ht, hclose, hc, hr⟩

/-- The routine keeps lines of the tokens, whether it runs as a constructor or not. -/
abbrev KeepsLines (tokens : List Token) (whole : Passage) (r : Routine Stmt) (_ : Bool) : Prop :=
  Stmt.RoutineLined tokens whole r

variable (tokens whole) in
/-- The program that the task runs, and all routines that it may call, keep lines of the tokens. -/
def Lined (a : Activity) : Prop :=
  a.machine.heap.Meets (KeepsLines tokens whole) ∧
    match a.task with
    | .eval e => e.Lined tokens whole
    | .evalAll es => Expr.AllLined tokens whole es
    | .call callee arguments =>
      callee.Meets (KeepsLines tokens whole) ∧ ∀ v ∈ arguments, v.Meets (KeepsLines tokens whole)
    | .apply c arguments =>
      Stmt.RoutineLined tokens whole c.routine ∧ ∀ v ∈ arguments, v.Meets (KeepsLines tokens whole)
    | .exec s => s.Lined tokens whole
    | .execAll body => Stmt.AllLined tokens whole body
    | .repeatWhile _ test body => test.Lined tokens whole ∧ body.Lined tokens whole
    | .repeatTimes _ _ _ body => body.Lined tokens whole
    | .interpret program => Stmt.AllLined tokens whole program

variable (tokens whole root) in
/-- The run of the task keeps lines of the tokens, and its errors are explained. Only a call may
leave that to the expression that it stands in. -/
def Reports (a : Activity) : Prop :=
  match a.task with
  | .eval e =>
    Leaves (KeepsLines tokens whole) a.machine (eval a.fuel e)
      (Value.Meets (KeepsLines tokens whole)) (Explains tokens whole root)
  | .evalAll es =>
    Leaves (KeepsLines tokens whole) a.machine (evalAll a.fuel es)
      (fun vs => ∀ v ∈ vs, v.Meets (KeepsLines tokens whole)) (Explains tokens whole root)
  | .call callee arguments =>
    Leaves (KeepsLines tokens whole) a.machine (call a.fuel callee arguments)
      (Value.Meets (KeepsLines tokens whole)) fun e => Explains tokens whole root e ∨ a.Pends e
  | .apply c arguments =>
    Leaves (KeepsLines tokens whole) a.machine (apply a.fuel c arguments)
      (Value.Meets (KeepsLines tokens whole)) fun e => Explains tokens whole root e ∨ a.Pends e
  | .exec s =>
    Leaves (KeepsLines tokens whole) a.machine (exec a.fuel s)
      (Flow.Meets (KeepsLines tokens whole)) (Explains tokens whole root)
  | .execAll body =>
    Leaves (KeepsLines tokens whole) a.machine (execAll a.fuel body)
      (Flow.Meets (KeepsLines tokens whole)) (Explains tokens whole root)
  | .repeatWhile loop test body =>
    Leaves (KeepsLines tokens whole) a.machine (repeatWhile a.fuel loop test body)
      (Flow.Meets (KeepsLines tokens whole)) (Explains tokens whole root)
  | .repeatTimes loop i count body =>
    Leaves (KeepsLines tokens whole) a.machine (repeatTimes a.fuel loop i count body)
      (Flow.Meets (KeepsLines tokens whole)) (Explains tokens whole root)
  | .interpret program =>
    Leaves (KeepsLines tokens whole) a.machine (interpret a.fuel program) (fun _ => True)
      (Explains tokens whole root)

variable (tokens whole root) in
def PartsReport (a : Activity) : Prop :=
  ∀ b, a.Part b → b.Lined tokens whole → Reports tokens whole root b

variable {n : Nat} {m : Machine}

theorem reports_eval {e : Expr} (hi : root.Includes ⟨n, .eval e, m⟩)
    (hl : Lined tokens whole ⟨n, .eval e, m⟩)
    (hd : PartsReport tokens whole root ⟨n, .eval e, m⟩) :
    Reports tokens whole root ⟨n, .eval e, m⟩ := by
  obtain ⟨hm, hl⟩ := hl
  cases n with
  | zero => exact triple_throw hm _ nofun
  | succ n =>
    cases e with
    | literal value => exact triple_pure hm (by cases value <;> trivial)
    | grouping inner => exact hd ⟨n, .eval inner, m⟩ .grouping ⟨hm, hl⟩
    | unary op line operand =>
      refine (hd _ .unary ⟨hm, hl.2⟩).bind ?_
      intro v m₁ _ hm₁ _
      exact leaves_unary hm₁ op line v (allows_explains hl.1)
    | binary op line left right =>
      refine (hd _ .binaryLeft ⟨hm, hl.2.1⟩).bind ?_
      intro v m₁ h hm₁ _
      refine (hd _ (.binaryRight h) ⟨hm₁, hl.2.2⟩).bind ?_
      intro v' m₂ _ hm₂ _
      exact leaves_binary hm₂ op line v v' (allows_explains hl.1)
    | logical op left right =>
      refine (hd _ .logicalLeft ⟨hm, hl.1⟩).bind ?_
      intro v m₁ h hm₁ hv
      cases hv' : op.decidedBy v with
      | true =>
        simp only [if_true]
        exact triple_pure hm₁ hv
      | false =>
        simp only [Bool.false_eq_true, if_false]
        exact hd _ (.logicalRight h hv') ⟨hm₁, hl.2⟩
    | «variable» ref => exact leaves_lookUp hm ref.id ref.name (allows_explains hl)
    | assign ref value =>
      refine (hd _ .assign ⟨hm, hl.2⟩).bind ?_
      intro v m₁ _ hm₁ hv
      exact leaves_assign hm₁ ref hv (allows_explains hl.1)
    | selfRef id line => exact leaves_lookUp hm id ⟨"self", line⟩ (allows_explains hl)
    | superRef id line method =>
      exact leaves_superMethod hm id line method (allows_explains hl.1) (allows_explains hl.2)
    | get object name =>
      refine (hd _ .get ⟨hm, hl.2⟩).bind ?_
      intro v m₁ _ hm₁ _
      refine (leaves_asInstance hm₁ v name (allows_explains hl.1)).bind ?_
      intro i m₂ _ hm₂ _
      exact leaves_property hm₂ i name (allows_explains hl.1)
    | set object name value =>
      refine (hd _ .setObject ⟨hm, hl.1.2⟩).bind ?_
      intro v m₁ h hm₁ _
      refine (leaves_asInstance hm₁ v name (allows_explains hl.1.1)).bind ?_
      intro i m₂ hv hm₂ _
      obtain ⟨rfl, rfl⟩ := asInstance_eq_ok hv
      refine (hd _ (.setValue h) ⟨hm₂, hl.2⟩).bind ?_
      intro v' m₃ _ hm₃ hv'
      exact leaves_setProperty hm₃ i name hv'
    | index object line position =>
      refine (hd _ .indexObject ⟨hm, hl.2.1⟩).bind ?_
      intro v m₁ h hm₁ _
      refine (hd _ (.indexPosition h) ⟨hm₁, hl.2.2⟩).bind ?_
      intro i m₂ _ hm₂ _
      exact leaves_element hm₂ line v i (allows_explains hl.1)
    | indexSet object line position value =>
      refine (hd _ .indexSetObject ⟨hm, hl.1.2.1⟩).bind ?_
      intro v m₁ h hm₁ _
      refine (hd _ (.indexSetPosition h) ⟨hm₁, hl.1.2.2⟩).bind ?_
      intro i m₂ hi hm₂ _
      refine (hd _ (.indexSetValue h hi) ⟨hm₂, hl.2⟩).bind ?_
      intro v' m₃ _ hm₃ hv'
      exact leaves_setElement hm₃ line v i hv' (allows_explains hl.1.1)
    | call callee line arguments =>
      obtain ⟨hclose, hcallee, harguments⟩ := hl
      refine (hd _ .callee ⟨hm, hcallee⟩).bind ?_
      intro v m₁ h hm₁ hv
      refine (hd _ (.arguments h) ⟨hm₁, harguments⟩).bind ?_
      intro vs m₂ hvs hm₂ hvs'
      refine (leaves_checkCall hm₂ line v vs.length (allows_explains hclose.1)).bind ?_
      intro _ m₃ hc hm₃ _
      have hcall := hd _ (.call h hvs hc) ⟨hm₃, hv, hvs'⟩
      refine Triple.orLine (Triple.mapError hcall fun e _ _ he => ?_)
      exact Explains.orLine hi rfl hclose.1 hclose.2 (.call h hvs hc) nofun he
    | array elements =>
      refine (hd _ .array ⟨hm, hl⟩).bind ?_
      intro vs m₁ _ hm₁ hvs
      exact leaves_newArray hm₁ hvs

theorem reports_evalAll {es : List Expr} (hl : Lined tokens whole ⟨n, .evalAll es, m⟩)
    (hd : PartsReport tokens whole root ⟨n, .evalAll es, m⟩) :
    Reports tokens whole root ⟨n, .evalAll es, m⟩ := by
  obtain ⟨hm, hl⟩ := hl
  cases n with
  | zero => exact triple_throw hm _ nofun
  | succ n =>
    cases es with
    | nil => exact triple_pure hm nofun
    | cons e rest =>
      refine (hd _ .firstValue ⟨hm, hl.1⟩).bind ?_
      intro v m₁ h hm₁ hv
      refine (hd _ (.nextValues h) ⟨hm₁, hl.2⟩).bind ?_
      intro vs m₂ _ hm₂ hvs
      exact triple_pure hm₂ (List.forall_mem_cons.2 ⟨hv, hvs⟩)

theorem reports_call {callee : Value} {arguments : List Value}
    (hl : Lined tokens whole ⟨n, .call callee arguments, m⟩)
    (hd : PartsReport tokens whole root ⟨n, .call callee arguments, m⟩) :
    Reports tokens whole root ⟨n, .call callee arguments, m⟩ := by
  obtain ⟨hm, hcallee, harguments⟩ := hl
  cases n with
  | zero => exact triple_throw hm _ nofun
  | succ n =>
    -- a body that is called raises its errors in the course of this call
    have outward {b : Activity} (hp : Part ⟨n + 1, .call callee arguments, m⟩ b) (hb : ¬b.IsCall)
        (e : RuntimeError) (he : Explains tokens whole root e ∨ b.Pends e) :
        Explains tokens whole root e ∨ Pends ⟨n + 1, .call callee arguments, m⟩ e :=
      he.imp_right (.of_part hp hb)
    have refused {v : Value} : Leaves (KeepsLines tokens whole) m
        (fail (.notCallable v.type) : Run Value) (Value.Meets (KeepsLines tokens whole)) fun e =>
          Explains tokens whole root e ∨ Pends ⟨n + 1, .call callee arguments, m⟩ e :=
      triple_of_error rfl hm fun _ he => .inr (Stop.error.inj he ▸ ⟨rfl, nofun⟩)
    cases callee with
    | native f =>
      refine (leaves_callNative (E := (·.line = none)) hm f arguments fun _ _ => rfl).mapError ?_
      rintro ⟨_, fault⟩ m' h rfl
      exact .inr ⟨rfl, fun _ => ⟨_, .refl, .native h⟩⟩
    | function c stamp =>
      have happly := hd _ .applyFunction ⟨hm, hcallee, harguments⟩
      exact Triple.mapError happly fun e _ _ => outward .applyFunction nofun e
    | classValue c =>
      refine (leaves_newInstance hm hcallee).bind ?_
      intro i m₁ hi hm₁ _
      cases hc : c.constructor? with
      | none => exact triple_pure hm₁ trivial
      | some method =>
        refine (leaves_bindSelf hm₁ (Class.Meets.method hcallee hc) i).bind ?_
        intro bound m₂ hb hm₂ hbound
        have happly := hd _ (.construct hc hi hb) ⟨hm₂, hbound, harguments⟩
        refine (Triple.mapError happly fun e _ _ =>
          outward (.construct hc hi hb) nofun e).bind ?_
        intro _ m₃ _ hm₃ _
        exact triple_pure hm₃ trivial
    | none | bool b | number x | text s | array id | object id =>
      exact refused

theorem reports_apply {c : Closure} {arguments : List Value}
    (hl : Lined tokens whole ⟨n, .apply c arguments, m⟩)
    (hd : PartsReport tokens whole root ⟨n, .apply c arguments, m⟩) :
    Reports tokens whole root ⟨n, .apply c arguments, m⟩ := by
  obtain ⟨hm, hc, harguments⟩ := hl
  cases n with
  | zero => exact triple_throw hm _ nofun
  | succ n =>
    refine (leaves_argumentFrame hm _ _ harguments).bind ?_
    intro f m₁ hf hm₁ _
    have hdepth : m₁.depth = m.depth := by
      cases hf
      rfl
    refine Triple.bind (Q := fun _ => Flow.Meets (KeepsLines tokens whole))
      (Triple.inCall hm₁ ?_ ?_ fun _ => id) ?_
    · intro hover
      rw [hdepth] at hover
      exact .inr ⟨rfl, fun _ => ⟨_, .refl, .overflow hover⟩⟩
    · intro hlt
      have hbody := hd _ (.routineBody hf hlt) ⟨hm₁, hc.body⟩
      exact Triple.mapError hbody fun _ _ _ => .inl
    · intro flow m₂ _ hm₂ hflow
      exact leaves_result hm₂ c hflow (.inr ⟨rfl, nofun⟩)

theorem reports_exec {s : Stmt} (hl : Lined tokens whole ⟨n, .exec s, m⟩)
    (hd : PartsReport tokens whole root ⟨n, .exec s, m⟩) :
    Reports tokens whole root ⟨n, .exec s, m⟩ := by
  obtain ⟨hm, hl⟩ := hl
  cases n with
  | zero => exact triple_throw hm _ nofun
  | succ n =>
    cases s with
    | expr e =>
      refine (hd _ .expr ⟨hm, hl⟩).bind ?_
      intro _ m₁ _ hm₁ _
      exact triple_pure hm₁ trivial
    | letVar name init =>
      cases init with
      | none =>
        refine (leaves_define (v := .none) hm _ trivial).bind ?_
        intro _ m₁ _ hm₁ _
        exact triple_pure hm₁ trivial
      | some init =>
        refine (hd _ .letVar ⟨hm, hl⟩).bind ?_
        intro v m₁ _ hm₁ hv
        refine (leaves_define hm₁ _ hv).bind ?_
        intro _ m₂ _ hm₂ _
        exact triple_pure hm₂ trivial
    | block body =>
      refine (leaves_newScope hm).bind ?_
      intro f m₁ hf hm₁ _
      exact Triple.inFrame (hd _ (.block hf) ⟨hm₁, hl⟩) fun _ => id
    | ifThen test consequence alternative =>
      have htest : test.Lined tokens whole ∧ consequence.Lined tokens whole := by
        cases alternative with
        | none => exact hl
        | some s => exact ⟨hl.1, hl.2.1⟩
      refine (hd _ .ifTest ⟨hm, htest.1⟩).bind ?_
      intro v m₁ h hm₁ _
      cases hv : v.truthy with
      | true =>
        simp only [if_true]
        exact hd _ (.consequence h hv) ⟨hm₁, htest.2⟩
      | false =>
        simp only [Bool.false_eq_true, if_false]
        cases alternative with
        | none => exact triple_pure hm₁ trivial
        | some s => exact hd _ (.alternative h hv) ⟨hm₁, hl.2.2⟩
    | whileDo test body =>
      refine Triple.inLoop ?_ fun _ => id
      exact hd _ .whileDo ⟨hm, hl⟩
    | times line count body =>
      refine (hd _ .timesCount ⟨hm, hl.2.1⟩).bind ?_
      intro v m₁ h hm₁ _
      refine (leaves_repeatCount hm₁ line v (allows_explains hl.1)).bind ?_
      intro x m₂ hx hm₂ _
      refine Triple.inLoop ?_ fun _ => id
      exact hd _ (.times h hx) ⟨hm₂, hl.2.2⟩
    | breakLoop line => exact leaves_innermostLoop hm line (allows_explains hl)
    | define r =>
      refine (leaves_declareFunction hm hl).bind ?_
      intro _ m₁ _ hm₁ _
      exact triple_pure hm₁ trivial
    | returnWith line value =>
      cases value with
      | none => exact triple_pure hm trivial
      | some value =>
        refine (hd _ .returnWith ⟨hm, hl⟩).bind ?_
        intro v m₁ _ hm₁ hv
        exact triple_pure hm₁ hv
    | classDecl name superclass methods =>
      refine (leaves_declareClass hm name superclass (fun r hr => hl.2.of_mem hr)
        fun ref hr => allows_explains (hl.1 ref hr)).bind ?_
      intro _ m₁ _ hm₁ _
      exact triple_pure hm₁ trivial

theorem reports_execAll {body : List Stmt} (hl : Lined tokens whole ⟨n, .execAll body, m⟩)
    (hd : PartsReport tokens whole root ⟨n, .execAll body, m⟩) :
    Reports tokens whole root ⟨n, .execAll body, m⟩ := by
  obtain ⟨hm, hl⟩ := hl
  cases n with
  | zero => exact triple_throw hm _ nofun
  | succ n =>
    cases body with
    | nil => exact triple_pure hm trivial
    | cons s rest =>
      refine (hd _ .firstStmt ⟨hm, hl.1⟩).bind ?_
      intro flow m₁ h hm₁ hflow
      cases flow with
      | normal => exact hd _ (.nextStmts h) ⟨hm₁, hl.2⟩
      | returned v => exact triple_pure hm₁ hflow
      | broke target => exact triple_pure hm₁ trivial

theorem reports_repeatWhile {loop : Nat} {test : Expr} {body : Stmt}
    (hl : Lined tokens whole ⟨n, .repeatWhile loop test body, m⟩)
    (hd : PartsReport tokens whole root ⟨n, .repeatWhile loop test body, m⟩) :
    Reports tokens whole root ⟨n, .repeatWhile loop test body, m⟩ := by
  obtain ⟨hm, hl⟩ := hl
  cases n with
  | zero => exact triple_throw hm _ nofun
  | succ n =>
    refine (hd _ .whileTest ⟨hm, hl.1⟩).bind ?_
    intro v m₁ h hm₁ _
    cases hv : v.truthy with
    | false => exact triple_pure hm₁ trivial
    | true =>
      refine (hd _ (.whileBody h hv) ⟨hm₁, hl.2⟩).bind ?_
      intro flow m₂ hb hm₂ hflow
      cases flow with
      | normal => exact hd _ (.whileNext h hv hb) ⟨hm₂, hl⟩
      | returned v => exact triple_pure hm₂ hflow
      | broke target =>
        dsimp only
        split <;> exact triple_pure hm₂ trivial

theorem reports_repeatTimes {loop : Nat} {i count : Float} {body : Stmt}
    (hl : Lined tokens whole ⟨n, .repeatTimes loop i count body, m⟩)
    (hd : PartsReport tokens whole root ⟨n, .repeatTimes loop i count body, m⟩) :
    Reports tokens whole root ⟨n, .repeatTimes loop i count body, m⟩ := by
  obtain ⟨hm, hl⟩ := hl
  cases n with
  | zero => exact triple_throw hm _ nofun
  | succ n =>
    simp only [Reports, repeatTimes]
    split
    · rename_i hi
      refine (hd _ (.timesBody hi) ⟨hm, hl⟩).bind ?_
      intro flow m₁ hb hm₁ hflow
      cases flow with
      | normal => exact hd _ (.timesNext hi hb) ⟨hm₁, hl⟩
      | returned v => exact triple_pure hm₁ hflow
      | broke target =>
        dsimp only
        split <;> exact triple_pure hm₁ trivial
    · exact triple_pure hm trivial

theorem reports_interpret {program : Program} (hl : Lined tokens whole ⟨n, .interpret program, m⟩)
    (hd : PartsReport tokens whole root ⟨n, .interpret program, m⟩) :
    Reports tokens whole root ⟨n, .interpret program, m⟩ := by
  obtain ⟨hm, hl⟩ := hl
  cases program with
  | nil => exact triple_pure hm trivial
  | cons s rest =>
    refine (hd _ .programFirst ⟨hm, hl.1⟩).bind ?_
    intro flow m₁ h hm₁ _
    cases flow with
    | normal => exact hd _ (.programNext h nofun) ⟨hm₁, hl.2⟩
    | returned v => exact triple_pure hm₁ trivial
    | broke target => exact hd _ (.programNext h nofun) ⟨hm₁, hl.2⟩

/-- Whatever happens in the course of `root`, its errors are explained. -/
theorem Lined.reports {a : Activity} (hl : a.Lined tokens whole) (hi : root.Includes a) :
    Reports tokens whole root a := by
  induction a using wellFounded_part.induction with
  | _ a ih =>
    have hd : PartsReport tokens whole root a := fun b hp hb => ih b hp hb (hi.tail hp)
    obtain ⟨n, task, m⟩ := a
    cases task with
    | eval e => exact reports_eval hi hl hd
    | evalAll es => exact reports_evalAll hl hd
    | call callee arguments => exact reports_call hl hd
    | apply c arguments => exact reports_apply hl hd
    | exec s => exact reports_exec hl hd
    | execAll body => exact reports_execAll hl hd
    | repeatWhile loop test body => exact reports_repeatWhile hl hd
    | repeatTimes loop i count body => exact reports_repeatTimes hl hd
    | interpret program => exact reports_interpret hl hd

end Activity

end Jal
