import Jal.Proofs.Session.References

namespace Jal

variable {m m' : Machine} {n loop : Nat}

namespace Run

/-- A break that leaves the action is for the loop that was innermost when the action began. -/
def BreaksInnermost (act : Run Flow) : Prop :=
  ∀ m id m', act m = .ok (.broke id) m' → ∃ outer, m.loops = id :: outer

def LetsNoBreakOut (act : Run Flow) : Prop := ∀ m id m', act m ≠ .ok (.broke id) m'

/-- Begun as a turn of the loop, the action does not finish with a break. -/
def AbsorbsBreaks (loop : Nat) (act : Run Flow) : Prop :=
  ∀ m id m', m.loops.head? = some loop → act m ≠ .ok (.broke id) m'

theorem inFrame_eq_ok {α : Type} {f : FrameId} {act : Run α} {a : α}
    (h : inFrame f act m = .ok a m') : ∃ m₁, act { m with frame := f } = .ok a m₁ := by
  rcases ha : act { m with frame := f } with ⟨b, m₁⟩ | ⟨e, m₁⟩ <;> simp only [inFrame, ha] at h
  · cases h
    exact ⟨m₁, rfl⟩
  · cases h

theorem inLoop_eq_ok {α : Type} {act : Nat → Run α} {a : α} (h : inLoop act m = .ok a m') :
    ∃ m₁, act m.nextLoop m.enterLoop = .ok a m₁ := by
  rcases ha : act m.nextLoop m.enterLoop with ⟨b, m₁⟩ | ⟨e, m₁⟩ <;> simp only [inLoop, ha] at h
  · cases h
    exact ⟨m₁, rfl⟩
  · cases h

theorem inCall_eq_ok {α : Type} {f : FrameId} {act : Run α} {a : α}
    (h : inCall f act m = .ok a m') : ∃ m₁, act (m.enterCall f) = .ok a m₁ := by
  by_cases hd : maxDepth ≤ m.depth
  · rw [inCall, if_pos hd] at h
    cases h
  · rw [inCall, if_neg hd] at h
    rcases ha : act (m.enterCall f) with ⟨b, m₁⟩ | ⟨e, m₁⟩ <;> simp only [ha] at h
    · cases h
      exact ⟨m₁, rfl⟩
    · cases h

theorem innermostLoop_of_cons {line : Nat} {outer : List Nat} (h : m.loops = loop :: outer) :
    innermostLoop line m = .ok (.broke loop) m := by
  rw [innermostLoop, get_bind, h]
  rfl

theorem innermostLoop_of_nil {line : Nat} (h : m.loops = []) :
    innermostLoop line m = .error (.error ⟨some line, .unexpectedBreak⟩) m := by
  rw [innermostLoop, get_bind, h]
  rfl

theorem breaksInnermost_innermostLoop (line : Nat) : BreaksInnermost (innermostLoop line) := by
  intro m id m' h
  cases hl : m.loops with
  | nil =>
    rw [innermostLoop_of_nil hl] at h
    cases h
  | cons loop outer =>
    rw [innermostLoop_of_cons hl] at h
    cases h
    exact ⟨outer, rfl⟩

theorem loops_eval {e : Expr} {v : Value} (h : eval n e m = .ok v m') : m'.loops = m.loops :=
  (kept_eval h).2.loops

theorem loops_exec {s : Stmt} {flow : Flow} (h : exec n s m = .ok flow m') :
    m'.loops = m.loops := (kept_exec h).2.loops

/-- A loop lets no break out: it is the innermost one when its turns begin. -/
theorem AbsorbsBreaks.inLoop {act : Nat → Run Flow} (h : ∀ loop, AbsorbsBreaks loop (act loop)) :
    LetsNoBreakOut (inLoop act) := by
  intro m id m' hok
  obtain ⟨m₁, hok⟩ := inLoop_eq_ok hok
  exact h m.nextLoop m.enterLoop id m₁ rfl hok

/-- The callee has none of its caller's loops to break. -/
theorem BreaksInnermost.inCall {act : Run Flow} (h : BreaksInnermost act) (f : FrameId) :
    LetsNoBreakOut (inCall f act) := by
  intro m id m' hok
  obtain ⟨m₁, hok⟩ := inCall_eq_ok hok
  obtain ⟨outer, hl⟩ := h (m.enterCall f) id m₁ hok
  cases hl

structure Breaking (n : Nat) : Prop where
  exec : ∀ s, BreaksInnermost (exec n s)
  execAll : ∀ body, BreaksInnermost (execAll n body)
  repeatWhile : ∀ loop test body, AbsorbsBreaks loop (repeatWhile n loop test body)
  repeatTimes : ∀ loop i count body, AbsorbsBreaks loop (repeatTimes n loop i count body)

section Induction

variable (ih : Breaking n)

include ih

theorem letsNoBreakOut_whileDo (test : Expr) (body : Stmt) :
    LetsNoBreakOut (exec (n + 1) (.whileDo test body)) :=
  AbsorbsBreaks.inLoop fun loop => ih.repeatWhile loop test body

theorem letsNoBreakOut_times (line : Nat) (count : Expr) (body : Stmt) :
    LetsNoBreakOut (exec (n + 1) (.times line count body)) := by
  intro m id m' h
  obtain ⟨v, m₁, -, h⟩ := bind_eq_ok h
  obtain ⟨x, m₂, -, h⟩ := bind_eq_ok h
  exact AbsorbsBreaks.inLoop (fun loop => ih.repeatTimes loop 0 x body) m₂ id m' h

theorem breaksInnermost_exec_succ (s : Stmt) : BreaksInnermost (exec (n + 1) s) := by
  intro m id m' h
  cases s with
  | expr e =>
    obtain ⟨v, m₁, -, h⟩ := bind_eq_ok h
    cases h
  | letVar name init =>
    cases init with
    | none => cases h
    | some init =>
      obtain ⟨v, m₁, -, h⟩ := bind_eq_ok h
      cases h
  | block body =>
    obtain ⟨f, m₁, hf, h⟩ := bind_eq_ok h
    cases hf
    obtain ⟨m₂, h⟩ := inFrame_eq_ok h
    obtain ⟨outer, hl⟩ := ih.execAll body _ id m₂ h
    exact ⟨outer, hl⟩
  | ifThen test consequence alternative =>
    obtain ⟨v, m₁, hv, h⟩ := bind_eq_ok h
    rw [← loops_eval hv]
    cases ht : v.truthy with
    | true =>
      simp only [ht, if_true] at h
      exact ih.exec consequence m₁ id m' h
    | false =>
      simp only [ht, Bool.false_eq_true, if_false] at h
      cases alternative with
      | some s => exact ih.exec s m₁ id m' h
      | none => cases h
  | whileDo test body => exact absurd h (letsNoBreakOut_whileDo ih test body m id m')
  | times line count body => exact absurd h (letsNoBreakOut_times ih line count body m id m')
  | breakLoop line => exact breaksInnermost_innermostLoop line m id m' h
  | define routine => cases h
  | returnWith line value =>
    cases value with
    | none => cases h
    | some value =>
      obtain ⟨v, m₁, -, h⟩ := bind_eq_ok h
      cases h
  | classDecl name superclass methods =>
    obtain ⟨_, m₁, -, h⟩ := bind_eq_ok h
    cases h

theorem breaksInnermost_execAll_succ (body : List Stmt) :
    BreaksInnermost (execAll (n + 1) body) := by
  intro m id m' h
  cases body with
  | nil => cases h
  | cons s rest =>
    obtain ⟨flow, m₁, hs, h⟩ := bind_eq_ok h
    cases flow with
    | normal =>
      rw [← loops_exec hs]
      exact ih.execAll rest m₁ id m' h
    | returned v => cases h
    | broke target =>
      cases h
      exact ih.exec s m id m' hs

/-- A break that leaves the body of a loop is for that loop. -/
theorem target_of_broke {s : Stmt} {target : Nat} (hl : m.loops.head? = some loop)
    (h : exec n s m = .ok (.broke target) m') : target = loop := by
  obtain ⟨outer, ho⟩ := ih.exec s m target m' h
  rw [ho] at hl
  exact Option.some.inj hl

theorem absorbsBreaks_repeatWhile_succ (loop : Nat) (test : Expr) (body : Stmt) :
    AbsorbsBreaks loop (repeatWhile (n + 1) loop test body) := by
  intro m id m' hl h
  obtain ⟨v, m₁, hv, h⟩ := bind_eq_ok h
  rw [← loops_eval hv] at hl
  cases ht : v.truthy with
  | false =>
    simp only [ht, Bool.false_eq_true, if_false] at h
    cases h
  | true =>
    simp only [ht, if_true] at h
    obtain ⟨flow, m₂, hb, h⟩ := bind_eq_ok h
    cases flow with
    | normal =>
      rw [← loops_exec hb] at hl
      exact ih.repeatWhile loop test body m₂ id m' hl h
    | returned v => cases h
    | broke target =>
      -- the arm that would pass a break on is not taken: the break is for this loop
      simp only [target_of_broke ih hl hb, if_true] at h
      cases h

theorem absorbsBreaks_repeatTimes_succ (loop : Nat) (i count : Float) (body : Stmt) :
    AbsorbsBreaks loop (repeatTimes (n + 1) loop i count body) := by
  intro m id m' hl h
  rw [repeatTimes] at h
  split at h
  · obtain ⟨flow, m₁, hb, h⟩ := bind_eq_ok h
    cases flow with
    | normal =>
      rw [← loops_exec hb] at hl
      exact ih.repeatTimes loop (i + 1) count body m₁ id m' hl h
    | returned v => cases h
    | broke target =>
      simp only [target_of_broke ih hl hb, if_true] at h
      cases h
  · cases h

end Induction

theorem breaking (n : Nat) : Breaking n := by
  induction n with
  | zero =>
    constructor
    all_goals intros; nofun
  | succ n ih =>
    exact
      { exec := breaksInnermost_exec_succ ih
        execAll := breaksInnermost_execAll_succ ih
        repeatWhile := absorbsBreaks_repeatWhile_succ ih
        repeatTimes := absorbsBreaks_repeatTimes_succ ih }

end Run

namespace Activity

open Run

def loop? (a : Activity) : Option Nat :=
  match a.task with
  | .repeatWhile loop _ _ => some loop
  | .repeatTimes loop _ _ _ => some loop
  | _ => none

def isApply (a : Activity) : Bool :=
  match a.task with
  | .apply _ _ => true
  | _ => false

/-- The second activity is begun by the first one, in the same call and the same turn of a loop. -/
structure Directly (a b : Activity) : Prop where
  part : a.Part b
  sameTurn : b.loop? = none
  sameCall : a.isApply = false

/-- The second activity is begun in the course of the first one, or is that, without a call or a
loop in between. -/
def DirectlyIncludes : Activity → Activity → Prop := Relation.ReflTransGen Directly

def InOwnLoop (a : Activity) : Prop := ∀ loop ∈ a.loop?, a.machine.loops.head? = some loop

/-- A break out of the body in this turn is for the loop of the turn and ends it normally. -/
def TakesBreaks (a : Activity) : Prop :=
  match a.task with
  | .repeatWhile loop test body => ∀ n v m₁ target m₂, a.fuel = n + 1 →
      eval n test a.machine = .ok v m₁ → v.truthy = true →
      exec n body m₁ = .ok (.broke target) m₂ →
      target = loop ∧ repeatWhile (n + 1) loop test body a.machine = .ok .normal m₂
  | .repeatTimes loop i count body => ∀ n target m₂, a.fuel = n + 1 → i < count →
      exec n body a.machine = .ok (.broke target) m₂ →
      target = loop ∧ repeatTimes (n + 1) loop i count body a.machine = .ok .normal m₂
  | _ => True

theorem Part.inOwnLoop {a b : Activity} (h : a.Part b) (ha : a.InOwnLoop) : b.InOwnLoop := by
  cases h with
  | whileDo | times =>
    rintro loop ⟨⟩
    rfl
  | whileNext hv ht hb =>
    rintro loop ⟨⟩
    rw [loops_exec hb, loops_eval hv]
    exact ha _ rfl
  | timesNext hi hb =>
    rintro loop ⟨⟩
    rw [loops_exec hb]
    exact ha _ rfl
  | _ => nofun

theorem Includes.inOwnLoop {a b : Activity} (h : a.Includes b) (ha : a.InOwnLoop) :
    b.InOwnLoop := by
  induction h with
  | refl => exact ha
  | tail _ hp ih => exact hp.inOwnLoop ih

theorem InOwnLoop.takesBreaks {a : Activity} (ha : a.InOwnLoop) : a.TakesBreaks := by
  obtain ⟨n, task, m⟩ := a
  cases task with
  | repeatWhile loop test body =>
    rintro n v m₁ target m₂ rfl hv ht hb
    have hl := ha loop rfl
    rw [← loops_eval hv] at hl
    obtain rfl := target_of_broke (breaking n) hl hb
    refine ⟨rfl, ?_⟩
    simp only [repeatWhile, bind, EStateM.bind, hv, ht, if_true, hb]
    rfl
  | repeatTimes loop i count body =>
    rintro n target m₂ rfl hi hb
    obtain rfl := target_of_broke (breaking n) (ha loop rfl) hb
    refine ⟨rfl, ?_⟩
    simp only [repeatTimes, hi, if_true, bind, EStateM.bind, hb]
    rfl
  | _ => trivial

theorem Directly.loops_eq {a b : Activity} (h : a.Directly b) :
    b.machine.loops = a.machine.loops := by
  obtain ⟨hp, hturn, hcall⟩ := h
  cases hp with
  | whileDo | times | whileNext | timesNext => cases hturn
  | routineBody => cases hcall
  | binaryRight h | logicalRight h | setValue h | indexPosition h | indexSetPosition h
  | arguments h | nextValues h | consequence h | alternative h | whileBody h => exact loops_eval h
  | indexSetValue h hi => rw [loops_eval hi, loops_eval h]
  | call h hvs hc =>
    obtain ⟨rfl, -⟩ := checkCall_eq_ok hc
    rw [(kept_evalAll hvs).2.loops, loops_eval h]
  | construct hc hi hb =>
    cases hi
    cases hb
    rfl
  | block hf =>
    cases hf
    rfl
  | nextStmts h | programNext h => exact loops_exec h
  | _ => rfl

theorem DirectlyIncludes.loops_eq {a b : Activity} (h : a.DirectlyIncludes b) :
    b.machine.loops = a.machine.loops := by
  induction h with
  | refl => rfl
  | tail _ hp ih => rw [hp.loops_eq, ih]

/-- The body of a routine begins outside all loops. -/
theorem loops_of_isApply {a b : Activity} (ha : a.isApply = true) (h : a.Part b) :
    b.machine.loops = [] := by
  cases h with
  | routineBody => rfl
  | _ => cases ha

def AtTop (a : Activity) : Prop := ∀ program, a.task = .interpret program → a.machine.loops = []

theorem Includes.atTop {a b : Activity} (h : a.Includes b) (ha : a.AtTop) : b.AtTop := by
  induction h with
  | refl => exact ha
  | tail _ hp ih =>
    cases hp with
    | programNext hs =>
      intro program _
      exact (loops_exec hs).trans (ih _ rfl)
    | _ => nofun

end Activity

namespace Session

/-- What a step begins, it begins on a machine at rest. -/
theorem AtRest.of_begins {globals : FrameId} {s : Session} {step : Step} {root : Activity}
    (hs : AtRest globals s) (h : root ∈ s.begins step) :
    AtRest globals ⟨root.machine, s.nextId⟩ := by
  cases step with
  | source fuel text =>
    obtain ⟨checked, -, rfl⟩ := Option.map_eq_some_iff.1 h
    exact ⟨hs.frame, hs.globals, hs.loops, hs.depth⟩
  | unresolved fuel text =>
    obtain rfl := Option.some.inj h
    exact ⟨hs.frame, hs.globals, hs.loops, hs.depth⟩
  | _ => cases h

theorem AtRest.of_gather {globals : FrameId} {s : Session} {steps : List Step} {root : Activity}
    (hs : AtRest globals s) (h : root ∈ s.gather begins steps) :
    ∃ nextId, AtRest globals ⟨root.machine, nextId⟩ := by
  induction steps generalizing s with
  | nil => cases h
  | cons step rest ih =>
    rcases List.mem_append.1 h with h | h
    · exact ⟨s.nextId, hs.of_begins (Option.mem_toList.1 h)⟩
    · exact ih (hs.step step) h

theorem AtRest.atTop_of_begins {globals : FrameId} {s : Session} {step : Step} {root : Activity}
    (hs : AtRest globals s) (h : root ∈ s.begins step) : root.AtTop :=
  fun _ _ => (hs.of_begins h).loops

theorem AtRest.atTop_of_gather {globals : FrameId} {s : Session} {steps : List Step}
    {root : Activity} (hs : AtRest globals s) (h : root ∈ s.gather begins steps) :
    root.AtTop := by
  intro _ _
  obtain ⟨_, hroot⟩ := hs.of_gather h
  exact hroot.loops

end Session

open Run Session in
/-- A break is for the innermost loop of the call that it is executed in. That loop takes it, so
neither a loop nor a call nor a program of a session ever passes one on, and in the body of a
routine, outside its loops, a break is an error whatever loops the callers are in. -/
theorem breaks_taken :
    (∀ n s, BreaksInnermost (exec n s)) ∧
    (∀ n test body, LetsNoBreakOut (exec n (.whileDo test body))) ∧
    (∀ n line count body, LetsNoBreakOut (exec n (.times line count body))) ∧
    (∀ n frame body, LetsNoBreakOut (inCall frame (execAll n body))) ∧
    (∀ console steps, ∀ root ∈ (start console).gather begins steps, ∀ a program n s m id m',
      root.Includes a → a.task = .interpret program → a.Part ⟨n, .exec s, m⟩ →
      exec n s m ≠ .ok (.broke id) m') ∧
    (∀ root turn : Activity, root.loop? = none → root.Includes turn → turn.TakesBreaks ∧
      ∀ loop n line m, turn.loop? = some loop →
        turn.DirectlyIncludes ⟨n + 1, .exec (.breakLoop line), m⟩ →
        exec (n + 1) (.breakLoop line) m = .ok (.broke loop) m) ∧
    ∀ (a body : Activity) n line m, a.isApply = true → a.Part body →
      body.DirectlyIncludes ⟨n + 1, .exec (.breakLoop line), m⟩ →
      exec (n + 1) (.breakLoop line) m = .error (.error ⟨some line, .unexpectedBreak⟩) m := by
  refine ⟨fun n => (breaking n).exec, ?_, ?_, ?_, ?_, ?_, ?_⟩
  · intro n test body
    cases n with
    | zero => nofun
    | succ n => exact letsNoBreakOut_whileDo (breaking n) test body
  · intro n line count body
    cases n with
    | zero => nofun
    | succ n => exact letsNoBreakOut_times (breaking n) line count body
  · exact fun n frame body => ((breaking n).execAll body).inCall frame
  · intro console steps root hroot a program n s m id m' ha htask hp h
    have htop := ha.atTop ((atRest_start console).atTop_of_gather hroot) program htask
    obtain ⟨fuel, task, top⟩ := a
    obtain rfl : task = .interpret program := htask
    cases hp with
    | programFirst =>
      obtain ⟨outer, hl⟩ := (breaking _).exec s _ id m' h
      rw [htop] at hl
      cases hl
  · intro root turn hroot hi
    have hown : turn.InOwnLoop := hi.inOwnLoop (by simp [Activity.InOwnLoop, hroot])
    refine ⟨hown.takesBreaks, ?_⟩
    intro loop n line m hloop hd
    have hl := hown loop hloop
    rw [← hd.loops_eq] at hl
    obtain ⟨outer, hl⟩ := List.head?_eq_some_iff.1 hl
    exact innermostLoop_of_cons hl
  · intro a body n line m ha hp hd
    exact innermostLoop_of_nil (hd.loops_eq.trans (Activity.loops_of_isApply ha hp))

open Run Session in
/-- A loop that is broken out of at the top of a session, and a routine that is called inside a loop
and breaks. -/
theorem breaks_taken_in_loop_and_call :
    (start default).begins (.unresolved 3 "while true do break;") =
        some ⟨3, .interpret [.whileDo (.literal (.bool true)) (.breakLoop 1)],
          Machine.start default⟩ ∧
      (∀ id m', exec 3 (.whileDo (.literal (.bool true)) (.breakLoop 1)) (Machine.start default) ≠
        .ok (.broke id) m') ∧
      exec 1 (.breakLoop 1) (Machine.start default).enterLoop =
        .ok (.broke 0) (Machine.start default).enterLoop ∧
      (∃ outer, (Machine.start default).enterLoop.loops = 0 :: outer) ∧
      repeatWhile 2 0 (.literal (.bool true)) (.breakLoop 1) (Machine.start default).enterLoop =
        .ok .normal (Machine.start default).enterLoop ∧
      ∃ inner : Machine,
        Activity.Part ⟨3, .apply ⟨⟨⟨"f", 1⟩, [], [.breakLoop 2]⟩, ⟨0⟩, false⟩ [],
          (Machine.start default).enterLoop⟩ ⟨2, .execAll [.breakLoop 2], inner⟩ ∧
        exec 1 (.breakLoop 2) inner = .error (.error ⟨some 2, .unexpectedBreak⟩) inner := by
  obtain ⟨hinner, -, -, -, hprogram, htakes, hraises⟩ := breaks_taken
  let top := Machine.start default
  have hp : (parse 0 (scan "while true do break;").tokens).survivors =
      [.whileDo (.literal (.bool true)) (.breakLoop 1)] := by with_unfolding_all rfl
  have hroot : (start default).begins (.unresolved 3 "while true do break;") =
      some ⟨3, .interpret [.whileDo (.literal (.bool true)) (.breakLoop 1)], top⟩ := by
    rw [← hp]
    rfl
  have hgather : (⟨3, .interpret [.whileDo (.literal (.bool true)) (.breakLoop 1)], top⟩ :
      Activity) ∈ (start default).gather begins [.unresolved 3 "while true do break;"] :=
    List.mem_append_left _ (Option.mem_toList.2 hroot)
  have hbreak : exec 1 (.breakLoop 1) top.enterLoop = .ok (.broke 0) top.enterLoop := rfl
  have hturn : Activity.Includes ⟨3, .exec (.whileDo (.literal (.bool true)) (.breakLoop 1)), top⟩
      ⟨2, .repeatWhile 0 (.literal (.bool true)) (.breakLoop 1), top.enterLoop⟩ := .single .whileDo
  have hcall : Activity.Part ⟨3, .apply ⟨⟨⟨"f", 1⟩, [], [.breakLoop 2]⟩, ⟨0⟩, false⟩ [],
      top.enterLoop⟩ ⟨2, .execAll [.breakLoop 2],
        Machine.enterCall { top.enterLoop with heap := (top.heap.newFrame [] (some ⟨0⟩)).2 }
          top.nextFrame⟩ := .routineBody rfl (by decide)
  refine ⟨hroot, ?_, hbreak, hinner 1 _ _ 0 _ hbreak, ?_, _, hcall, ?_⟩
  · intro id m'
    exact hprogram default _ _ hgather _ _ 3 _ top id m' .refl rfl .programFirst
  · exact ((htakes _ _ rfl hturn).1 1 (.bool true) top.enterLoop 0 top.enterLoop rfl rfl rfl
      hbreak).2
  · exact hraises _ _ 0 2 _ rfl hcall (.single ⟨.firstStmt, rfl, rfl⟩)

end Jal
