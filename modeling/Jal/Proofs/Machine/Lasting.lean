import Jal.Proofs.Machine.Course
import Jal.Proofs.Machine.Fixed
import Jal.Proofs.Machine.Quiet

namespace Jal

def Activity.final (a : Activity) : Machine :=
  match a.task with
  | .eval e => (Run.eval a.fuel e).final a.machine
  | .evalAll es => (Run.evalAll a.fuel es).final a.machine
  | .call callee arguments => (Run.call a.fuel callee arguments).final a.machine
  | .apply c arguments => (Run.apply a.fuel c arguments).final a.machine
  | .exec s => (Run.exec a.fuel s).final a.machine
  | .execAll body => (Run.execAll a.fuel body).final a.machine
  | .repeatWhile loop test body => (Run.repeatWhile a.fuel loop test body).final a.machine
  | .repeatTimes loop i count body => (Run.repeatTimes a.fuel loop i count body).final a.machine
  | .interpret program => (Run.interpret a.fuel program).final a.machine

/-- However the action ends, `self` and `super` are then in every frame what they were before it,
and what they were when one of the activities ended that are `begun` by it. -/
structure Run.Settles {α : Type} (m : Machine) (act : Run α) (begun : Activity → Prop) : Prop where
  start : m.heap.Fixed (act.final m).heap
  parts : ∀ b, begun b → b.final.heap.Fixed (act.final m).heap

namespace Run

variable {α β : Type} {m : Machine} {act : Run α} {begun : Activity → Prop}

theorem Respects.settles (h : Respects (fun m m' => m.heap.Fixed m'.heap) act) :
    Settles m act fun _ => False := ⟨h m, nofun⟩

/-- An action that begins no activity. -/
theorem Respects.alone (h : Respects (fun m m' => m.heap.Fixed m'.heap) act)
    (hb : ∀ b, ¬begun b) : Settles m act begun :=
  ⟨h m, fun b hb' => absurd hb' (hb b)⟩

theorem Settles.mono {begun' : Activity → Prop} (h : Settles m act begun)
    (hb : ∀ b, begun' b → begun b) : Settles m act begun' :=
  ⟨h.start, fun b hb' => h.parts b (hb b hb')⟩

/-- First one action and then, if it succeeds, another. -/
theorem Settles.bind {next : α → Run β} {later : α → Machine → Activity → Prop}
    (h : Settles m act begun)
    (h' : ∀ a m', act m = .ok a m' → Settles m' (next a) (later a m')) :
    Settles m (act >>= next) fun b => begun b ∨ ∃ a m', act m = .ok a m' ∧ later a m' b := by
  obtain ⟨hm, hb⟩ := h
  cases ha : act m with
  | ok a m' =>
    obtain ⟨hm', hb'⟩ := h' a m' ha
    rw [final_ok ha] at hm hb
    refine ⟨by rw [final_bind_ok ha]; exact hm.trans hm', fun b h => ?_⟩
    rw [final_bind_ok ha]
    rcases h with h | ⟨_, _, h, hl⟩
    · exact (hb b h).trans hm'
    · cases h
      exact hb' b hl
  | error e m' =>
    rw [final_error ha] at hm hb
    refine ⟨by rwa [final_bind_error ha], fun b h => ?_⟩
    rw [final_bind_error ha]
    rcases h with h | ⟨_, _, h, -⟩
    · exact hb b h
    · cases h

theorem Settles.ite {c : Prop} [Decidable c] {act' : Run α} {begun' : Activity → Prop}
    (h : c → Settles m act begun) (h' : ¬c → Settles m act' begun') :
    Settles m (if c then act else act') fun b => c ∧ begun b ∨ ¬c ∧ begun' b := by
  by_cases hc : c
  · rw [if_pos hc]
    exact (h hc).mono fun b hb => (hb.resolve_right fun hn => hn.1 hc).2
  · rw [if_neg hc]
    exact (h' hc).mono fun b hb => (hb.resolve_left fun hn => hc hn.1).2

theorem Settles.orLine (h : Settles m act begun) (line : Nat) :
    Settles m (orLine line act) begun :=
  ⟨by rw [final_orLine]; exact h.start, by rw [final_orLine]; exact h.parts⟩

theorem Settles.inFrame {f : FrameId} (h : Settles { m with frame := f } act begun) :
    Settles m (inFrame f act) begun :=
  ⟨by rw [final_inFrame]; exact h.start, by rw [final_inFrame]; exact h.parts⟩

theorem Settles.inLoop {act : Nat → Run α} (h : Settles m.enterLoop (act m.nextLoop) begun) :
    Settles m (inLoop act) begun :=
  ⟨by rw [final_inLoop]; exact h.start, by rw [final_inLoop]; exact h.parts⟩

/-- Beyond the greatest depth of calls nothing is begun. -/
theorem Settles.inCall {f : FrameId} (h : m.depth < maxDepth → Settles (m.enterCall f) act begun) :
    Settles m (inCall f act) fun b => m.depth < maxDepth ∧ begun b := by
  by_cases hd : maxDepth ≤ m.depth
  · refine ⟨by rw [final_inCall_of_le f act hd]; exact .refl _, ?_⟩
    exact fun b hb => absurd hb.1 (Nat.not_lt.2 hd)
  · have hd := Nat.lt_of_not_le hd
    refine ⟨by rw [final_inCall_of_lt f act hd]; exact (h hd).start, fun b hb => ?_⟩
    rw [final_inCall_of_lt f act hd]
    exact (h hd).parts b hb.2

end Run

namespace Activity

/-- The activity leaves `self` and `super` alone, and so does what follows each of its parts. -/
structure Settled (a : Activity) : Prop where
  start : a.machine.heap.Fixed a.final.heap
  parts : ∀ b, a.Part b → b.final.heap.Fixed a.final.heap

open Run

/-- A part of a run, as the action that it is there. -/
theorem Settled.settles {α : Type} {b : Activity} {act : Run α} (h : b.Settled)
    (ha : act.final b.machine = b.final) : Settles b.machine act (· = b) :=
  ⟨by rw [ha]; exact h.start, fun _ hb => by rw [ha, hb]; exact .refl _⟩

theorem settled_of {α : Type} {a : Activity} {act : Run α}
    (ha : act.final a.machine = a.final) (h : Settles a.machine act a.Part) : a.Settled :=
  ⟨by rw [← ha]; exact h.start, by rw [← ha]; exact h.parts⟩

variable {n : Nat} {m : Machine}

theorem Settled.eval {e : Expr} (h : Settled ⟨n, .eval e, m⟩) :
    Settles m (Run.eval n e) (· = ⟨n, .eval e, m⟩) := h.settles rfl

theorem Settled.evalAll {es : List Expr} (h : Settled ⟨n, .evalAll es, m⟩) :
    Settles m (Run.evalAll n es) (· = ⟨n, .evalAll es, m⟩) := h.settles rfl

theorem Settled.exec {s : Stmt} (h : Settled ⟨n, .exec s, m⟩) :
    Settles m (Run.exec n s) (· = ⟨n, .exec s, m⟩) := h.settles rfl

theorem settles_eval {e : Expr} (hp : e.Proper)
    (hd : ∀ b, Part ⟨n, .eval e, m⟩ b → b.Settled) :
    Settles m (eval n e) (Part ⟨n, .eval e, m⟩) := by
  cases n with
  | zero => exact (respects_throw respected_fixed _).alone (by rintro b ⟨⟩)
  | succ n =>
    cases e with
    | literal value => exact (respects_pure respected_fixed _).alone (by rintro b ⟨⟩)
    | grouping inner =>
      refine Settles.mono (hd _ .grouping).eval ?_
      rintro b ⟨⟩
      rfl
    | unary op line operand =>
      refine Settles.mono ((hd _ .unary).eval.bind fun v m₁ _ =>
        (respects_unary respected_fixed op line v).settles) ?_
      rintro b ⟨⟩
      exact .inl rfl
    | binary op line left right =>
      refine Settles.mono ((hd _ .binaryLeft).eval.bind fun v m₁ h =>
        (hd _ (.binaryRight h)).eval.bind fun v' m₂ _ =>
          (respects_binary respected_fixed op line v v').settles) ?_
      intro b hb
      cases hb with
      | binaryLeft => exact .inl rfl
      | binaryRight h => exact .inr ⟨_, _, h, .inl rfl⟩
    | logical op left right =>
      refine Settles.mono ((hd _ .logicalLeft).eval.bind fun v m₁ h =>
        Settles.ite (fun _ => (respects_pure respected_fixed v).settles) fun hv =>
          (hd _ (.logicalRight h (Bool.eq_false_iff.2 hv))).eval) ?_
      intro b hb
      cases hb with
      | logicalLeft => exact .inl rfl
      | logicalRight h hv => exact .inr ⟨_, _, h, .inr ⟨Bool.eq_false_iff.1 hv, rfl⟩⟩
    | «variable» ref =>
      exact (respects_lookUp respected_fixed ref.id ref.name).alone (by rintro b ⟨⟩)
    | assign ref value =>
      refine Settles.mono ((hd _ .assign).eval.bind fun v m₁ _ =>
        (respects_assign respected_fixed hp.1 v).settles) ?_
      rintro b ⟨⟩
      exact .inl rfl
    | selfRef id line => exact (respects_lookUp respected_fixed id _).alone (by rintro b ⟨⟩)
    | superRef id line method =>
      exact (respects_superMethod respected_fixed id line method).alone (by rintro b ⟨⟩)
    | get object name =>
      refine Settles.mono ((hd _ .get).eval.bind fun v m₁ _ =>
        (respects_bind respected_fixed (respects_asInstance respected_fixed v name) fun i =>
          respects_property respected_fixed i name).settles) ?_
      rintro b ⟨⟩
      exact .inl rfl
    | set object name value =>
      have hvalue (v : Value) (m₁ : Machine) (h : Run.eval n object m = .ok v m₁)
          (i : InstanceId) (m₂ : Machine) (hv : asInstance v name m₁ = .ok i m₂) :
          Settles m₂ (Run.eval n value) (· = ⟨n, .eval value, m₂⟩) := by
        obtain ⟨rfl, rfl⟩ := asInstance_eq_ok hv
        exact (hd _ (.setValue h)).eval
      refine Settles.mono ((hd _ .setObject).eval.bind fun v m₁ h =>
        (respects_asInstance respected_fixed v name).settles.bind fun i m₂ hv =>
          (hvalue v m₁ h i m₂ hv).bind fun v' m₃ _ =>
            (respects_setProperty respected_fixed i name v').settles) ?_
      intro b hb
      cases hb with
      | setObject => exact .inl rfl
      | setValue h => exact .inr ⟨_, _, h, .inr ⟨_, _, rfl, .inl rfl⟩⟩
    | index object line position =>
      refine Settles.mono ((hd _ .indexObject).eval.bind fun v m₁ h =>
        (hd _ (.indexPosition h)).eval.bind fun i m₂ _ =>
          (respects_element respected_fixed line v i).settles) ?_
      intro b hb
      cases hb with
      | indexObject => exact .inl rfl
      | indexPosition h => exact .inr ⟨_, _, h, .inl rfl⟩
    | indexSet object line position value =>
      refine Settles.mono ((hd _ .indexSetObject).eval.bind fun v m₁ h =>
        (hd _ (.indexSetPosition h)).eval.bind fun i m₂ hi =>
          (hd _ (.indexSetValue h hi)).eval.bind fun v' m₃ _ =>
            (respects_setElement respected_fixed line v i v').settles) ?_
      intro b hb
      cases hb with
      | indexSetObject => exact .inl rfl
      | indexSetPosition h => exact .inr ⟨_, _, h, .inl rfl⟩
      | indexSetValue h hi => exact .inr ⟨_, _, h, .inr ⟨_, _, hi, .inl rfl⟩⟩
    | call callee line arguments =>
      have hcall (v : Value) (m₁ : Machine) (h : Run.eval n callee m = .ok v m₁)
          (vs : List Value) (m₂ : Machine) (hvs : Run.evalAll n arguments m₁ = .ok vs m₂)
          (m₃ : Machine) (hc : checkCall line v vs.length m₂ = .ok () m₃) :
          Settles m₃ (Run.call n v vs) (· = ⟨n, .call v vs, m₃⟩) :=
        (hd _ (.call h hvs hc)).settles rfl
      refine Settles.mono ((hd _ .callee).eval.bind fun v m₁ h =>
        (hd _ (.arguments h)).evalAll.bind fun vs m₂ hvs =>
          (respects_checkCall respected_fixed line v vs.length).settles.bind fun _ m₃ hc =>
            (hcall v m₁ h vs m₂ hvs m₃ hc).orLine line) ?_
      intro b hb
      cases hb with
      | callee => exact .inl rfl
      | arguments h => exact .inr ⟨_, _, h, .inl rfl⟩
      | call h hvs hc => exact .inr ⟨_, _, h, .inr ⟨_, _, hvs, .inr ⟨_, _, hc, rfl⟩⟩⟩
    | array elements =>
      refine Settles.mono ((hd _ .array).evalAll.bind fun vs m₁ _ =>
        (respects_newArray respected_fixed vs).settles) ?_
      rintro b ⟨⟩
      exact .inl rfl

theorem settles_evalAll {es : List Expr} (hd : ∀ b, Part ⟨n, .evalAll es, m⟩ b → b.Settled) :
    Settles m (evalAll n es) (Part ⟨n, .evalAll es, m⟩) := by
  cases n with
  | zero => exact (respects_throw respected_fixed _).alone (by rintro b ⟨⟩)
  | succ n =>
    cases es with
    | nil => exact (respects_pure respected_fixed _).alone (by rintro b ⟨⟩)
    | cons e rest =>
      refine Settles.mono ((hd _ .firstValue).eval.bind fun v m₁ h =>
        (hd _ (.nextValues h)).evalAll.bind fun vs m₂ _ =>
          (respects_pure respected_fixed _).settles) ?_
      intro b hb
      cases hb with
      | firstValue => exact .inl rfl
      | nextValues h => exact .inr ⟨_, _, h, .inl rfl⟩

theorem settles_call {callee : Value} {arguments : List Value}
    (hd : ∀ b, Part ⟨n, .call callee arguments, m⟩ b → b.Settled) :
    Settles m (call n callee arguments) (Part ⟨n, .call callee arguments, m⟩) := by
  cases n with
  | zero => exact (respects_throw respected_fixed _).alone (by rintro b ⟨⟩)
  | succ n =>
    cases callee with
    | native f => exact (respects_callNative respected_fixed f arguments).alone (by rintro b ⟨⟩)
    | function c stamp =>
      refine Settles.mono ((hd _ .applyFunction).settles rfl) ?_
      rintro b ⟨⟩
      rfl
    | classValue c =>
      cases hc : c.constructor? with
      | none =>
        have hrun : call (n + 1) (.classValue c) arguments =
            onHeap (·.newInstance c) >>= fun i => pure (.object i) := by
          simp only [call, hc]
        rw [hrun]
        refine (respects_bind respected_fixed (respects_newInstance respected_fixed c) fun i =>
          respects_pure respected_fixed _).alone ?_
        intro b hb
        cases hb with
        | construct hc' => cases hc.symm.trans hc'
      | some method =>
        have hrun : call (n + 1) (.classValue c) arguments =
            onHeap (·.newInstance c) >>= fun i => bindSelf method i >>= fun bound =>
              Run.apply n bound arguments >>= fun _ => pure (.object i) := by
          simp only [call, hc]
        have hbody (i : InstanceId) (m₁ : Machine) (hi : onHeap (·.newInstance c) m = .ok i m₁)
            (bound : Closure) (m₂ : Machine) (hb : bindSelf method i m₁ = .ok bound m₂) :
            Settles m₂ (Run.apply n bound arguments) (· = ⟨n, .apply bound arguments, m₂⟩) :=
          (hd _ (.construct hc hi hb)).settles rfl
        rw [hrun]
        refine Settles.mono ((respects_newInstance respected_fixed c).settles.bind fun i m₁ hi =>
          (respects_bindSelf respected_fixed method i).settles.bind fun bound m₂ hb =>
            (hbody i m₁ hi bound m₂ hb).bind fun _ m₃ _ =>
              (respects_pure respected_fixed _).settles) ?_
        intro b hb
        cases hb with
        | construct hc' hi hb =>
          cases hc.symm.trans hc'
          exact .inr ⟨_, _, hi, .inr ⟨_, _, hb, .inl rfl⟩⟩
    | none | bool b | number x | text s | array id | object id =>
      exact (respects_throw respected_fixed _).alone (by rintro b ⟨⟩)

theorem settles_apply {c : Closure} {arguments : List Value}
    (hd : ∀ b, Part ⟨n, .apply c arguments, m⟩ b → b.Settled) :
    Settles m (apply n c arguments) (Part ⟨n, .apply c arguments, m⟩) := by
  cases n with
  | zero => exact (respects_throw respected_fixed _).alone (by rintro b ⟨⟩)
  | succ n =>
    have hbody (f : FrameId) (m₁ : Machine)
        (hf : newFrame (bindArguments c.routine.params arguments) c.frame m = .ok f m₁)
        (hlt : m₁.depth < maxDepth) :
        Settles (m₁.enterCall f) (Run.execAll n c.routine.body)
          (· = ⟨n, .execAll c.routine.body, m₁.enterCall f⟩) :=
      (hd _ (.routineBody hf hlt)).settles rfl
    refine Settles.mono ((respects_newFrame respected_fixed _ _).settles.bind fun f m₁ hf =>
      (Settles.inCall (hbody f m₁ hf)).bind fun flow m₂ _ =>
        (respects_result respected_fixed c flow).settles) ?_
    intro b hb
    cases hb with
    | routineBody hf hlt => exact .inr ⟨_, _, hf, .inl ⟨hlt, rfl⟩⟩

theorem settles_exec {s : Stmt} (hp : s.Proper) (hd : ∀ b, Part ⟨n, .exec s, m⟩ b → b.Settled) :
    Settles m (exec n s) (Part ⟨n, .exec s, m⟩) := by
  cases n with
  | zero => exact (respects_throw respected_fixed _).alone (by rintro b ⟨⟩)
  | succ n =>
    cases s with
    | expr e =>
      refine Settles.mono ((hd _ .expr).eval.bind fun _ m₁ _ =>
        (respects_pure respected_fixed _).settles) ?_
      rintro b ⟨⟩
      exact .inl rfl
    | letVar name init =>
      cases init with
      | none =>
        exact (respects_bind respected_fixed (respects_define respected_fixed hp.1 _) fun _ =>
          respects_pure respected_fixed _).alone (by rintro b ⟨⟩)
      | some init =>
        refine Settles.mono ((hd _ .letVar).eval.bind fun v m₁ _ =>
          (respects_bind respected_fixed (respects_define respected_fixed hp.1 v) fun _ =>
            respects_pure respected_fixed _).settles) ?_
        rintro b ⟨⟩
        exact .inl rfl
    | block body =>
      have hbody (f : FrameId) (m₁ : Machine) (hf : newScope m = .ok f m₁) :
          Settles { m₁ with frame := f } (Run.execAll n body)
            (· = ⟨n, .execAll body, { m₁ with frame := f }⟩) :=
        (hd _ (.block hf)).settles rfl
      refine Settles.mono ((respects_newScope respected_fixed).settles.bind fun f m₁ hf =>
        (hbody f m₁ hf).inFrame) ?_
      intro b hb
      cases hb with
      | block hf => exact .inr ⟨_, _, hf, rfl⟩
    | ifThen test consequence alternative =>
      cases alternative with
      | none =>
        refine Settles.mono ((hd _ .ifTest).eval.bind fun v m₁ h =>
          Settles.ite (fun hv => (hd _ (.consequence h hv)).exec)
            fun _ => (respects_pure respected_fixed _).settles) ?_
        intro b hb
        cases hb with
        | ifTest => exact .inl rfl
        | consequence h hv => exact .inr ⟨_, _, h, .inl ⟨hv, rfl⟩⟩
      | some alternative =>
        refine Settles.mono ((hd _ .ifTest).eval.bind fun v m₁ h =>
          Settles.ite (fun hv => (hd _ (.consequence h hv)).exec)
            fun hv => (hd _ (.alternative h (Bool.eq_false_iff.2 hv))).exec) ?_
        intro b hb
        cases hb with
        | ifTest => exact .inl rfl
        | consequence h hv => exact .inr ⟨_, _, h, .inl ⟨hv, rfl⟩⟩
        | alternative h hv => exact .inr ⟨_, _, h, .inr ⟨Bool.eq_false_iff.1 hv, rfl⟩⟩
    | whileDo test body =>
      have hloop : Settles m.enterLoop (Run.repeatWhile n m.nextLoop test body)
          (· = ⟨n, .repeatWhile m.nextLoop test body, m.enterLoop⟩) := (hd _ .whileDo).settles rfl
      refine Settles.mono hloop.inLoop ?_
      rintro b ⟨⟩
      rfl
    | times line count body =>
      have hloop (v : Value) (m₁ : Machine) (h : Run.eval n count m = .ok v m₁) (x : Float)
          (m₂ : Machine) (hx : repeatCount line v m₁ = .ok x m₂) :
          Settles m₂.enterLoop (Run.repeatTimes n m₂.nextLoop 0 x body)
            (· = ⟨n, .repeatTimes m₂.nextLoop 0 x body, m₂.enterLoop⟩) :=
        (hd _ (.times h hx)).settles rfl
      refine Settles.mono ((hd _ .timesCount).eval.bind fun v m₁ h =>
        (respects_repeatCount respected_fixed line v).settles.bind fun x m₂ hx =>
          (hloop v m₁ h x m₂ hx).inLoop) ?_
      intro b hb
      cases hb with
      | timesCount => exact .inl rfl
      | times h hx => exact .inr ⟨_, _, h, .inr ⟨_, _, hx, rfl⟩⟩
    | breakLoop line => exact (respects_innermostLoop respected_fixed line).alone (by rintro b ⟨⟩)
    | define r =>
      have hr := respects_declareFunction respected_fixed (isPlain_of_routine hp)
      exact (respects_bind respected_fixed hr fun _ => respects_pure respected_fixed _).alone
        (by rintro b ⟨⟩)
    | returnWith line value =>
      cases value with
      | none => exact (respects_pure respected_fixed _).alone (by rintro b ⟨⟩)
      | some value =>
        refine Settles.mono ((hd _ .returnWith).eval.bind fun v m₁ _ =>
          (respects_pure respected_fixed _).settles) ?_
        rintro b ⟨⟩
        exact .inl rfl
    | classDecl name superclass methods =>
      have hc := respects_declareClass respected_fixed hp.1 superclass methods
      exact (respects_bind respected_fixed hc fun _ => respects_pure respected_fixed _).alone
        (by rintro b ⟨⟩)

/-- After a statement come the next ones only if it has ended normally. -/
theorem settles_next {flow : Flow} {others : Run Flow} {next : Activity}
    (h : flow = .normal → Settles m others (· = next)) :
    Settles m (match flow with | .normal => others | flow => return flow)
      fun b => flow = .normal ∧ b = next := by
  cases flow with
  | normal => exact (h rfl).mono fun b hb => hb.2
  | returned v => exact (respects_pure respected_fixed _).alone (by rintro b ⟨⟨⟩, -⟩)
  | broke target => exact (respects_pure respected_fixed _).alone (by rintro b ⟨⟨⟩, -⟩)

theorem settles_execAll {body : List Stmt} (hd : ∀ b, Part ⟨n, .execAll body, m⟩ b → b.Settled) :
    Settles m (execAll n body) (Part ⟨n, .execAll body, m⟩) := by
  cases n with
  | zero => exact (respects_throw respected_fixed _).alone (by rintro b ⟨⟩)
  | succ n =>
    cases body with
    | nil => exact (respects_pure respected_fixed _).alone (by rintro b ⟨⟩)
    | cons s rest =>
      have hrest (flow : Flow) (m₁ : Machine) (h : Run.exec n s m = .ok flow m₁)
          (hf : flow = .normal) :
          Settles m₁ (Run.execAll n rest) (· = ⟨n, .execAll rest, m₁⟩) := by
        rw [hf] at h
        exact (hd _ (.nextStmts h)).settles rfl
      refine Settles.mono ((hd _ .firstStmt).exec.bind fun flow m₁ h =>
        settles_next (hrest flow m₁ h)) ?_
      intro b hb
      cases hb with
      | firstStmt => exact .inl rfl
      | nextStmts h => exact .inr ⟨_, _, h, rfl, rfl⟩

/-- After a turn of a loop there is another one only if the turn has ended normally. -/
theorem settles_turn {loop : Nat} {flow : Flow} {again : Run Flow} {next : Activity}
    (h : flow = .normal → Settles m again (· = next)) :
    Settles m
      (match flow with
        | .normal => again
        | .broke target => if target = loop then return .normal else return .broke target
        | flow => return flow)
      fun b => flow = .normal ∧ b = next := by
  cases flow with
  | normal => exact (h rfl).mono fun b hb => hb.2
  | returned v => exact (respects_pure respected_fixed _).alone (by rintro b ⟨⟨⟩, -⟩)
  | broke target =>
    dsimp only
    split
    · exact (respects_pure respected_fixed _).alone (by rintro b ⟨⟨⟩, -⟩)
    · exact (respects_pure respected_fixed _).alone (by rintro b ⟨⟨⟩, -⟩)

theorem settles_repeatWhile {loop : Nat} {test : Expr} {body : Stmt}
    (hd : ∀ b, Part ⟨n, .repeatWhile loop test body, m⟩ b → b.Settled) :
    Settles m (repeatWhile n loop test body) (Part ⟨n, .repeatWhile loop test body, m⟩) := by
  cases n with
  | zero => exact (respects_throw respected_fixed _).alone (by rintro b ⟨⟩)
  | succ n =>
    have hagain (v : Value) (m₁ : Machine) (h : Run.eval n test m = .ok v m₁)
        (hv : v.truthy = true) (flow : Flow) (m₂ : Machine) (hb : Run.exec n body m₁ = .ok flow m₂)
        (hf : flow = .normal) :
        Settles m₂ (Run.repeatWhile n loop test body)
          (· = ⟨n, .repeatWhile loop test body, m₂⟩) := by
      rw [hf] at hb
      exact (hd _ (.whileNext h hv hb)).settles rfl
    refine Settles.mono ((hd _ .whileTest).eval.bind fun v m₁ h =>
      Settles.ite (fun hv => (hd _ (.whileBody h hv)).exec.bind fun flow m₂ hb =>
        settles_turn (hagain v m₁ h hv flow m₂ hb)) fun _ =>
          (respects_pure respected_fixed _).settles) ?_
    intro b hb
    cases hb with
    | whileTest => exact .inl rfl
    | whileBody h hv => exact .inr ⟨_, _, h, .inl ⟨hv, .inl rfl⟩⟩
    | whileNext h hv hb => exact .inr ⟨_, _, h, .inl ⟨hv, .inr ⟨_, _, hb, rfl, rfl⟩⟩⟩

theorem settles_repeatTimes {loop : Nat} {i count : Float} {body : Stmt}
    (hd : ∀ b, Part ⟨n, .repeatTimes loop i count body, m⟩ b → b.Settled) :
    Settles m (repeatTimes n loop i count body) (Part ⟨n, .repeatTimes loop i count body, m⟩) := by
  cases n with
  | zero => exact (respects_throw respected_fixed _).alone (by rintro b ⟨⟩)
  | succ n =>
    have hagain (hi : i < count) (flow : Flow) (m₁ : Machine)
        (hb : Run.exec n body m = .ok flow m₁) (hf : flow = .normal) :
        Settles m₁ (Run.repeatTimes n loop (i + 1) count body)
          (· = ⟨n, .repeatTimes loop (i + 1) count body, m₁⟩) := by
      rw [hf] at hb
      exact (hd _ (.timesNext hi hb)).settles rfl
    refine Settles.mono (Settles.ite (fun hi => (hd _ (.timesBody hi)).exec.bind fun flow m₁ hb =>
      settles_turn (hagain hi flow m₁ hb)) fun _ => (respects_pure respected_fixed _).settles) ?_
    intro b hb
    cases hb with
    | timesBody hi => exact .inl ⟨hi, .inl rfl⟩
    | timesNext hi h => exact .inl ⟨hi, .inr ⟨_, _, h, rfl, rfl⟩⟩

/-- A program goes on after a statement unless that returns. -/
theorem settles_onward {flow : Flow} {others : Run Unit} {next : Activity}
    (h : (∀ v, flow ≠ .returned v) → Settles m others (· = next)) :
    Settles m (match flow with | .returned _ => return () | _ => others)
      fun b => (∀ v, flow ≠ .returned v) ∧ b = next := by
  cases flow with
  | normal => exact (h (by rintro v ⟨⟩)).mono fun b hb => hb.2
  | returned v => exact (respects_pure respected_fixed _).alone fun b hb => hb.1 v rfl
  | broke target => exact (h (by rintro v ⟨⟩)).mono fun b hb => hb.2

theorem settles_interpret {program : Program}
    (hd : ∀ b, Part ⟨n, .interpret program, m⟩ b → b.Settled) :
    Settles m (interpret n program) (Part ⟨n, .interpret program, m⟩) := by
  cases program with
  | nil => exact (respects_pure respected_fixed _).alone (by rintro b ⟨⟩)
  | cons s rest =>
    have hrest (flow : Flow) (m₁ : Machine) (h : Run.exec n s m = .ok flow m₁)
        (hf : ∀ v, flow ≠ .returned v) :
        Settles m₁ (Run.interpret n rest) (· = ⟨n, .interpret rest, m₁⟩) :=
      (hd _ (.programNext h hf)).settles rfl
    refine Settles.mono ((hd _ .programFirst).exec.bind fun flow m₁ h =>
      settles_onward (hrest flow m₁ h)) ?_
    intro b hb
    cases hb with
    | programFirst => exact .inl rfl
    | programNext h hf => exact .inr ⟨_, _, h, hf, rfl⟩

variable {w : Setting}

/-- A run that is ready is settled, if its parts are. -/
theorem settled_of_parts {a : Activity} (hr : a.Ready w) (hd : ∀ b, a.Part b → b.Settled) :
    a.Settled := by
  obtain ⟨n, task, m⟩ := a
  cases task with
  | eval e => exact settled_of rfl (settles_eval hr.1 hd)
  | evalAll es => exact settled_of rfl (settles_evalAll hd)
  | call callee arguments => exact settled_of rfl (settles_call hd)
  | apply c arguments => exact settled_of rfl (settles_apply hd)
  | exec s => exact settled_of rfl (settles_exec hr.1 hd)
  | execAll body => exact settled_of rfl (settles_execAll hd)
  | repeatWhile loop test body => exact settled_of rfl (settles_repeatWhile hd)
  | repeatTimes loop i count body => exact settled_of rfl (settles_repeatTimes hd)
  | interpret program => exact settled_of rfl (settles_interpret hd)

theorem Ready.settled {a : Activity} (hr : a.Ready w) (ho : a.OpensIn w) : a.Settled := by
  induction a using wellFounded_part.induction with
  | _ a ih =>
    exact settled_of_parts hr fun b hp => ih b hp (hr.includes ho (.single hp)) (ho.part hp)

/-- From the end of whatever happens in the course of a run to its own end, `self` and `super` stay
what they are. -/
theorem Includes.fixed {a b : Activity} (hi : a.Includes b) (hr : a.Ready w) (ho : a.OpensIn w) :
    b.final.heap.Fixed a.final.heap := by
  induction hi with
  | refl => exact .refl _
  | tail hi hp ih =>
    have hs := (hr.includes ho hi).settled fun c hc => ho c (hi.trans hc)
    exact (hs.parts _ hp).trans ih

end Activity

end Jal
