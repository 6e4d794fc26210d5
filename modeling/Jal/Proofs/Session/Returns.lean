import Jal.Proofs.Machine.Closures
import Jal.Proofs.Scope.Misplaced

namespace Jal

def Placed (os : List Occurrence) : Prop := ∀ o ∈ os, ¬o.Misplaced

theorem placed_append {os os' : List Occurrence} : Placed (os ++ os') ↔ Placed os ∧ Placed os' :=
  List.forall_mem_append

theorem placed_cons {o : Occurrence} {os : List Occurrence} :
    Placed (o :: os) ↔ ¬o.Misplaced ∧ Placed os := List.forall_mem_cons

/-- A `return` that may stand where it stands is in a routine, and has no value in a constructor. -/
theorem returnWith_placed {line : Nat} {hasValue : Bool} {around : List Enclosure}
    (h : ¬Occurrence.Misplaced ⟨.returnWith line hasValue, around⟩) :
    routineKind around ≠ .none ∧ (routineKind around = .constructor → hasValue = false) := by
  refine ⟨fun hk => h ⟨_, .returnOutsideFunction (routineKind_eq_none.1 hk)⟩, fun hk => ?_⟩
  obtain ⟨inner, outer, ha, hi⟩ := routineKind_eq_constructor.1 hk
  cases hasValue with
  | false => rfl
  | true => exact absurd ⟨_, .returnValueFromConstructor ha hi⟩ h

/-- The body of the routine is placed somewhere; where it runs as a constructor, in one. -/
def PlacedAs (r : Routine Stmt) (isConstructor : Bool) : Prop :=
  ∃ around, (isConstructor = true → routineKind around = .constructor) ∧
    Placed (Stmt.occurrencesOfAll around r.body)

theorem Stmt.occurrencesOfRoutine_eq (around : List Enclosure) (r : Routine Stmt) :
    Stmt.occurrencesOfRoutine around r = Stmt.occurrencesOfAll around r.body := by
  cases r
  rw [Stmt.occurrencesOfRoutine]

theorem placed_of_method {around : List Enclosure} {methods : List (Routine Stmt)}
    (h : Placed (Stmt.occurrencesOfMethods around methods)) :
    ∀ r ∈ methods, Placed (Stmt.occurrencesOfAll (.method r.name.text :: around) r.body) := by
  induction methods with
  | nil => nofun
  | cons r rest ih =>
    rw [Stmt.occurrencesOfMethods, placed_append, Stmt.occurrencesOfRoutine_eq] at h
    exact List.forall_mem_cons.2 ⟨h.1, ih h.2⟩

mutual

/-- What is declared in a placed statement is placed. -/
theorem Stmt.declares_of_placed : (s : Stmt) → {around : List Enclosure} →
    Placed (s.occurrences around) → s.Declares PlacedAs
  | .expr _, _, _ | .letVar _ _, _, _ | .breakLoop _, _, _ | .returnWith _ _, _, _ => by
    simp only [Stmt.Declares]
  | .block body, _, h => by
    simp only [Stmt.occurrences, Stmt.Declares] at h ⊢
    exact Stmt.allDeclare_of_placed body h
  | .ifThen _ s none, _, h | .whileDo _ s, _, h | .times _ _ s, _, h => by
    simp only [Stmt.occurrences, placed_append, Stmt.Declares] at h ⊢
    exact s.declares_of_placed h.2
  | .ifThen _ s (some s'), _, h => by
    simp only [Stmt.occurrences, placed_append, Stmt.Declares] at h ⊢
    exact ⟨s.declares_of_placed h.1.2, s'.declares_of_placed h.2⟩
  | .define r, around, h => by
    simp only [Stmt.occurrences, Stmt.occurrencesOfRoutine_eq, Stmt.Declares] at h ⊢
    exact ⟨.function :: around, nofun, h⟩
  | .classDecl _ superclass methods, around, h => by
    simp only [Stmt.occurrences, placed_append, Stmt.Declares] at h ⊢
    intro r hr
    refine ⟨_, fun hc => ?_, placed_of_method h.2 r hr⟩
    exact if_pos hc

theorem Stmt.allDeclare_of_placed : (body : List Stmt) → {around : List Enclosure} →
    Placed (Stmt.occurrencesOfAll around body) → Stmt.AllDeclare PlacedAs body
  | [], _, _ => trivial
  | s :: rest, _, h => by
    simp only [Stmt.occurrencesOfAll, placed_append] at h
    exact ⟨s.declares_of_placed h.1, Stmt.allDeclare_of_placed rest h.2⟩

end

theorem PlacedAs.body {r : Routine Stmt} {isConstructor : Bool} (h : PlacedAs r isConstructor) :
    Stmt.AllDeclare PlacedAs r.body := by
  obtain ⟨_, -, hbody⟩ := h
  exact Stmt.allDeclare_of_placed r.body hbody

/-- The flow may come out of a place: a return needs a routine, and one out of a constructor has no
value. -/
def Flow.MayLeave (around : List Enclosure) : Flow → Prop
  | .returned v => routineKind around ≠ .none ∧ (routineKind around = .constructor → v = .none)
  | _ => True

namespace Run

variable {n : Nat} {m m' : Machine} {around : List Enclosure} {flow : Flow}

structure Returning (n : Nat) : Prop where
  exec : ∀ {around s m flow m'}, Placed (s.occurrences around) → exec n s m = .ok flow m' →
    flow.MayLeave around
  execAll : ∀ {around body m flow m'}, Placed (Stmt.occurrencesOfAll around body) →
    execAll n body m = .ok flow m' → flow.MayLeave around
  repeatWhile : ∀ {around loop test body m flow m'}, Placed (body.occurrences around) →
    repeatWhile n loop test body m = .ok flow m' → flow.MayLeave around
  repeatTimes : ∀ {around loop i count body m flow m'}, Placed (body.occurrences around) →
    repeatTimes n loop i count body m = .ok flow m' → flow.MayLeave around

section Induction

variable (ih : Returning n)

include ih

theorem mayLeave_exec_succ {s : Stmt} (hs : Placed (s.occurrences around))
    (h : exec (n + 1) s m = .ok flow m') : flow.MayLeave around := by
  cases s with
  | expr e =>
    obtain ⟨_, _, -, h⟩ := bind_eq_ok h
    cases h
    trivial
  | letVar name init =>
    cases init with
    | none =>
      cases h
      trivial
    | some init =>
      obtain ⟨_, _, -, h⟩ := bind_eq_ok h
      cases h
      trivial
  | block body =>
    obtain ⟨_, _, -, h⟩ := bind_eq_ok h
    obtain ⟨_, h⟩ := inFrame_eq_ok h
    rw [Stmt.occurrences] at hs
    -- a block is no routine: what may leave it may leave what it stands in
    have hblock : flow.MayLeave (.block :: around) := ih.execAll hs h
    exact hblock
  | ifThen test consequence alternative =>
    obtain ⟨v, m₁, -, h⟩ := bind_eq_ok h
    cases alternative with
    | none =>
      rw [Stmt.occurrences, placed_append] at hs
      split at h
      · exact ih.exec hs.2 h
      · cases h
        trivial
    | some alternative =>
      rw [Stmt.occurrences, placed_append, placed_append] at hs
      split at h
      · exact ih.exec hs.1.2 h
      · exact ih.exec hs.2 h
  | whileDo test body =>
    obtain ⟨_, h⟩ := inLoop_eq_ok h
    rw [Stmt.occurrences, placed_append] at hs
    exact ih.repeatWhile hs.2 h
  | times line count body =>
    obtain ⟨_, _, -, h⟩ := bind_eq_ok h
    obtain ⟨_, _, -, h⟩ := bind_eq_ok h
    obtain ⟨_, h⟩ := inLoop_eq_ok h
    rw [Stmt.occurrences, placed_append] at hs
    exact ih.repeatTimes hs.2 h
  | breakLoop line =>
    cases hl : m.loops with
    | nil => cases (innermostLoop_of_nil hl).symm.trans h
    | cons loop outer =>
      cases (innermostLoop_of_cons hl).symm.trans h
      trivial
  | define routine =>
    obtain ⟨_, _, -, h⟩ := bind_eq_ok h
    cases h
    trivial
  | returnWith line value =>
    rw [Stmt.occurrences, placed_cons] at hs
    obtain ⟨hin, hvalue⟩ := returnWith_placed hs.1
    cases value with
    | none =>
      cases h
      exact ⟨hin, fun _ => rfl⟩
    | some value =>
      obtain ⟨v, m₁, -, h⟩ := bind_eq_ok h
      cases h
      exact ⟨hin, fun hk => nomatch hvalue hk⟩
  | classDecl name superclass methods =>
    obtain ⟨_, _, -, h⟩ := bind_eq_ok h
    cases h
    trivial

theorem mayLeave_execAll_succ {body : List Stmt}
    (hb : Placed (Stmt.occurrencesOfAll around body))
    (h : execAll (n + 1) body m = .ok flow m') : flow.MayLeave around := by
  cases body with
  | nil =>
    cases h
    trivial
  | cons s rest =>
    rw [Stmt.occurrencesOfAll, placed_append] at hb
    obtain ⟨first, m₁, hs, h⟩ := bind_eq_ok h
    cases first with
    | normal => exact ih.execAll hb.2 h
    | returned v =>
      cases h
      exact ih.exec hb.1 hs
    | broke target =>
      cases h
      trivial

theorem mayLeave_repeatWhile_succ {loop : Nat} {test : Expr} {body : Stmt}
    (hb : Placed (body.occurrences around))
    (h : repeatWhile (n + 1) loop test body m = .ok flow m') : flow.MayLeave around := by
  obtain ⟨v, m₁, -, h⟩ := bind_eq_ok h
  split at h
  · obtain ⟨turn, m₂, ht, h⟩ := bind_eq_ok h
    cases turn with
    | normal => exact ih.repeatWhile hb h
    | returned v =>
      cases h
      exact ih.exec hb ht
    | broke target =>
      dsimp only at h
      split at h <;> cases h <;> trivial
  · cases h
    trivial

theorem mayLeave_repeatTimes_succ {loop : Nat} {i count : Float} {body : Stmt}
    (hb : Placed (body.occurrences around))
    (h : repeatTimes (n + 1) loop i count body m = .ok flow m') : flow.MayLeave around := by
  rw [repeatTimes] at h
  split at h
  · obtain ⟨turn, m₁, ht, h⟩ := bind_eq_ok h
    cases turn with
    | normal => exact ih.repeatTimes hb h
    | returned v =>
      cases h
      exact ih.exec hb ht
    | broke target =>
      dsimp only at h
      split at h <;> cases h <;> trivial
  · cases h
    trivial

end Induction

theorem returning (n : Nat) : Returning n := by
  induction n with
  | zero =>
    constructor
    all_goals
      intros
      contradiction
  | succ n ih =>
    exact
      { exec := mayLeave_exec_succ ih
        execAll := mayLeave_execAll_succ ih
        repeatWhile := mayLeave_repeatWhile_succ ih
        repeatTimes := mayLeave_repeatTimes_succ ih }

/-- Outside of routines and loops a placed statement finishes normally. -/
theorem normal_of_exec {s : Stmt} (hs : Placed (s.occurrences [])) (hl : m.loops = [])
    (h : exec n s m = .ok flow m') : flow = .normal := by
  cases flow with
  | normal => rfl
  | returned v => exact absurd rfl ((returning n).exec hs h).1
  | broke id =>
    obtain ⟨outer, ho⟩ := (breaking n).exec s m id m' h
    rw [hl] at ho
    cases ho

/-- The body of a constructor, outside of loops, finishes normally or with an empty return. -/
theorem flow_of_constructor {body : List Stmt} (hk : routineKind around = .constructor)
    (hb : Placed (Stmt.occurrencesOfAll around body)) (hl : m.loops = [])
    (h : execAll n body m = .ok flow m') : flow = .normal ∨ flow = .returned .none := by
  cases flow with
  | normal => exact .inl rfl
  | returned v => exact .inr (congrArg Flow.returned (((returning n).execAll hb h).2 hk))
  | broke id =>
    obtain ⟨outer, ho⟩ := (breaking n).execAll body m id m' h
    rw [hl] at ho
    cases ho

/-- The statements are executed one after the other, each to its normal end. -/
inductive Executes (fuel : Nat) : Program → Machine → Machine → Prop where
  | nil {m : Machine} : Executes fuel [] m m
  | cons {s : Stmt} {rest : Program} {m m₁ m₂ : Machine} (first : exec fuel s m = .ok .normal m₁)
      (next : Executes fuel rest m₁ m₂) : Executes fuel (s :: rest) m m₂

theorem executes_of_interpret {program : Program} (hp : Placed (occurrences program))
    (hl : m.loops = []) (h : interpret n program m = .ok () m') : Executes n program m m' := by
  induction program generalizing m with
  | nil =>
    cases h
    exact .nil
  | cons s rest ih =>
    rw [occurrences, Stmt.occurrencesOfAll, placed_append] at hp
    obtain ⟨flow, m₁, hs, h⟩ := bind_eq_ok h
    obtain rfl := normal_of_exec hp.1 hl hs
    exact .cons hs (ih hp.2 ((loops_exec hs).trans hl) h)

end Run

namespace Activity

def Placed (a : Activity) : Prop :=
  ∀ program, a.task = .interpret program → Jal.Placed (occurrences program)

theorem Includes.placed {a b : Activity} (h : a.Includes b) (ha : a.Placed) : b.Placed := by
  induction h with
  | refl => exact ha
  | tail _ hp ih =>
    cases hp with
    | programNext hs =>
      rintro _ ⟨⟩
      have hplaced := ih _ rfl
      rw [occurrences, Stmt.occurrencesOfAll, placed_append] at hplaced
      exact hplaced.2
    | _ => nofun

end Activity

namespace Session

variable {s : Session}

theorem placed_of_accepts {step : Step} {checked : Checked} (h : checked ∈ s.accepts step) :
    Placed (occurrences checked.program) := not_misplaced_of_resolve (resolve_of_accepts h)

theorem interpret_of_run {s' : Session} {fuel : Nat} {text : String} {checked : Checked}
    (hc : checked ∈ s.accepts (.source fuel text)) (h : s.run fuel text = (.ok (), s')) :
    Run.interpret fuel checked.program (s.machine.addDepths checked.depths) =
      .ok () s'.machine := by
  rcases hcheck : check s.nextId text with ⟨diagnostics | found, nextId⟩ <;>
    simp only [accepts, hcheck, Except.toOption] at hc
  · cases hc
  · obtain rfl := Option.some.inj hc
    simp only [run, hcheck, Session.interpret] at h
    rcases hr : Run.interpret fuel found.program (s.machine.addDepths found.depths) with
      ⟨_, m'⟩ | ⟨_ | _, m'⟩ <;> simp only [hr] at h <;> cases h
    rfl

theorem meets_start (console : Console) : (start console).machine.heap.Meets PlacedAs := by
  intro v hv
  obtain ⟨f, rfl⟩ := holds_start hv
  trivial

/-- A step that resolves what it runs makes only placed closures. -/
theorem meets_step (hs : s.machine.heap.Meets PlacedAs) (step : Step)
    (hr : ∀ fuel text, step ≠ .unresolved fuel text) :
    (s.step step).machine.heap.Meets PlacedAs := by
  cases step with
  | source fuel text =>
    rcases hc : check s.nextId text with ⟨outcome | checked, nextId⟩
    · simp only [Session.step, run, hc]
      exact hs
    · have hmem : checked ∈ s.accepts (.source fuel text) := by
        simp only [accepts, hc, Except.toOption, Option.mem_def]
      have hd := Stmt.allDeclare_of_placed checked.program (placed_of_accepts hmem)
      have hm : (s.machine.addDepths checked.depths).heap.Meets PlacedAs := hs
      simp only [Session.step, run, hc, interpret_machine]
      exact (Run.leaves_interpret (fun _ _ => PlacedAs.body) fuel checked.program hm hd).machine
  | unresolved fuel text => exact absurd rfl (hr fuel text)
  | readLine | write text => exact hs

theorem meets_after {steps : List Step} (hs : s.machine.heap.Meets PlacedAs)
    (hr : ∀ fuel text, Step.unresolved fuel text ∉ steps) :
    (s.after steps).machine.heap.Meets PlacedAs := by
  induction steps generalizing s with
  | nil => exact hs
  | cons step rest ih =>
    simp only [List.mem_cons, not_or] at hr
    exact ih (meets_step hs step fun fuel text he => (hr fuel text).1 he.symm)
      fun fuel text => (hr fuel text).2

end Session

open Run Session in
/-- In a source text that passes the check, run after others that did, every statement of the
program that finishes does so normally. If the run succeeds, all of them were executed, in order.
The body of a constructor that finishes does so normally or with an empty return; and the methods
that run as constructors, of all classes that are stored or called, are those of that name. -/
theorem returns_stay_inside (console : Console) (steps : List Step)
    (hsteps : ∀ fuel text, Step.unresolved fuel text ∉ steps) (fuel : Nat) (text : String)
    (root : Activity) (hroot : root ∈ ((start console).after steps).begins (.source fuel text)) :
    (∀ n s rest m flow m', root.Includes ⟨n, .interpret (s :: rest), m⟩ →
      exec n s m = .ok flow m' → flow = .normal) ∧
    (∀ s, ((start console).after steps).run fuel text = (.ok (), s) →
      ∃ program, root.task = .interpret program ∧
        Executes fuel program root.machine s.machine) ∧
    (∀ a c arguments n m flow m', root.Includes a → a.task = .apply c arguments →
      c.isConstructor = true → a.Part ⟨n, .execAll c.routine.body, m⟩ →
      execAll n c.routine.body m = .ok flow m' → flow = .normal ∨ flow = .returned .none) ∧
    ∀ a c, root.Includes a →
      (a.machine.heap.Holds (.classValue c) ∨
        ∃ arguments, a.task = .call (.classValue c) arguments) →
      ∀ layer ∈ c.layers, ∀ method ∈ layer.methods,
        method.isConstructor = (method.name == constructorName) := by
  obtain ⟨checked, hc, rfl⟩ := Option.map_eq_some_iff.1 hroot
  have hplaced := placed_of_accepts hc
  have hrest : AtRest _ ((start console).after steps) :=
    after_induction (fun s step hs => hs.step step) steps (atRest_start console)
  have hmeets : Activity.Meets PlacedAs ⟨fuel, .interpret checked.program,
      ((start console).after steps).machine.addDepths checked.depths⟩ :=
    ⟨meets_after (meets_start console) hsteps,
      Stmt.allDeclare_of_placed checked.program hplaced⟩
  refine ⟨?_, ?_, ?_, ?_⟩
  · intro n s rest m flow m' hi h
    have hp := hi.placed (by rintro _ ⟨⟩; exact hplaced) _ rfl
    have hl := hi.atTop (hrest.atTop_of_begins hroot) _ rfl
    rw [occurrences, Stmt.occurrencesOfAll, placed_append] at hp
    exact normal_of_exec hp.1 hl h
  · intro s hrun
    exact ⟨_, rfl, executes_of_interpret hplaced hrest.loops (interpret_of_run hc hrun)⟩
  · rintro ⟨_, _, _⟩ c arguments n m flow m' hi rfl hcons hp h
    obtain ⟨around, hk, hb⟩ := (hi.meets (fun _ _ => PlacedAs.body) hmeets).2.1
    exact flow_of_constructor (hk hcons) hb (Activity.loops_of_isApply rfl hp) h
  · rintro ⟨_, _, _⟩ c hi hclass layer hl method hm
    obtain ⟨hheap, htask⟩ := hi.meets (fun _ _ => PlacedAs.body) hmeets
    have hmethods : c.Meets PlacedAs := by
      rcases hclass with hh | ⟨arguments, rfl⟩
      · exact hheap _ hh
      · exact htask.1
    exact (hmethods layer hl method hm).1

open Run Session in
/-- A class whose constructor ends with a return is declared in one source text and called in the
next one. -/
theorem returns_stay_inside_constructor :
    ∃ root ∈ ((start default).after
        [.source 9 "class A\x7bdef constructor()\x7breturn\x7d\x7d"]).begins (.source 9 "A()"),
      (∃ s program, ((start default).after
          [.source 9 "class A\x7bdef constructor()\x7breturn\x7d\x7d"]).run 9 "A()" = (.ok (), s) ∧
        root.task = .interpret program ∧ Executes 9 program root.machine s.machine) ∧
      ∃ a c n m flow m', root.Includes a ∧ a.task = .apply c [] ∧ c.isConstructor = true ∧
        a.Part ⟨n, .execAll c.routine.body, m⟩ ∧ execAll n c.routine.body m = .ok flow m' ∧
        (flow = .normal ∨ flow = .returned .none) := by
  have hdeclare : check 0 "class A\x7bdef constructor()\x7breturn\x7d\x7d" = (.ok
      ⟨[.classDecl ⟨"A", 1⟩ none [⟨⟨"constructor", 1⟩, [], [.returnWith 1 none]⟩]], []⟩, 0) := by
    with_unfolding_all rfl
  have hcall : check 0 "A()" = (.ok ⟨[.expr (.call (.variable ⟨0, ⟨"A", 1⟩⟩) 1 [])], []⟩, 1) := by
    with_unfolding_all rfl
  let steps : List Step := [.source 9 "class A\x7bdef constructor()\x7breturn\x7d\x7d"]
  let declared := (Session.interpret 9
    [.classDecl ⟨"A", 1⟩ none [⟨⟨"constructor", 1⟩, [], [.returnWith 1 none]⟩]]
    ((Machine.start default).addDepths [])).2
  have hs : (start default).after steps = ⟨declared, 0⟩ := by
    simp only [steps, after, List.foldl_cons, List.foldl_nil, Session.step, run,
      show (start default).nextId = 0 from rfl, hdeclare]
    rfl
  let top := declared.addDepths []
  let method : Closure := ⟨⟨⟨"constructor", 1⟩, [], [.returnWith 1 none]⟩, ⟨0⟩, true⟩
  let root : Activity := ⟨9, .interpret [.expr (.call (.variable ⟨0, ⟨"A", 1⟩⟩) 1 [])], top⟩
  have hroot : root ∈ ((start default).after steps).begins (.source 9 "A()") := by
    rw [hs]
    simp only [begins, accepts, hcall, Except.toOption, Option.map_some, Option.mem_def]
    rfl
  have hd : top.depths[0]? = none := by
    have he : top.depths = (Std.HashMap.insertMany ∅ []).insertMany [] := rfl
    simp [he]
  have hcallee : eval 7 (.variable ⟨0, ⟨"A", 1⟩⟩) top =
      .ok (.classValue ⟨⟨0, "A", [method]⟩, []⟩) top := by
    simp only [eval, lookUp, frameOf, hd, Option.bind_some]
    rfl
  have hmade : ∃ m, Run.interpret 9 [.expr (.call (.variable ⟨0, ⟨"A", 1⟩⟩) 1 [])] top =
      .ok () m := by
    rw [Run.interpret, exec, eval]
    simp only [bind, EStateM.bind, hcallee]
    exact ⟨_, rfl⟩
  have hrun : ∃ s, ((start default).after steps).run 9 "A()" = (.ok (), s) := by
    obtain ⟨m, hm⟩ := hmade
    refine ⟨⟨m, 1⟩, ?_⟩
    rw [hs]
    simp only [run, hcall, Session.interpret]
    rw [hm]
  have hincludes : root.Includes ⟨7, .call (.classValue ⟨⟨0, "A", [method]⟩, []⟩) [], top⟩ :=
    ((Relation.ReflTransGen.single .programFirst).tail .expr).tail (.call hcallee rfl rfl)
  have happly := hincludes.tail (.construct rfl rfl rfl)
  obtain ⟨-, hexecutes, hflow, -⟩ :=
    returns_stay_inside default steps (by simp [steps]) 9 "A()" root hroot
  obtain ⟨s, hrun⟩ := hrun
  obtain ⟨program, htask, hexecutes⟩ := hexecutes s hrun
  refine ⟨root, hroot, ⟨s, program, hrun, htask, hexecutes⟩, _, _, 5, _, .returned .none, _,
    happly, rfl, rfl, .routineBody rfl (by decide), rfl, ?_⟩
  exact hflow _ _ _ _ _ _ _ happly rfl rfl (.routineBody rfl (by decide)) rfl

end Jal
