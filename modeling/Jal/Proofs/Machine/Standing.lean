import Jal.Proofs.Machine.Respects
import Jal.Proofs.Session.Steps

namespace Jal

/-- The two machines stand in the same place of a program and resolve names in the same way; their
heaps and consoles may differ. -/
structure Machine.SameStanding (m m' : Machine) : Prop where
  frame : m'.frame = m.frame
  globals : m'.globals = m.globals
  depths : m'.depths = m.depths
  loops : m'.loops = m.loops
  depth : m'.depth = m.depth

open Machine (SameStanding)

namespace Run

theorem respected_sameStanding : Respected (fun _ => True) SameStanding where
  refl _ := ⟨rfl, rfl, rfl, rfl, rfl⟩
  trans h h' :=
    { frame := h'.frame.trans h.frame
      globals := h'.globals.trans h.globals
      depths := h'.depths.trans h.depths
      loops := h'.loops.trans h.loops
      depth := h'.depth.trans h.depth }
  heap _ _ := ⟨rfl, rfl, rfl, rfl, rfl⟩
  console _ _ := ⟨rfl, rfl, rfl, rfl, rfl⟩
  frame h := ⟨rfl, h.globals, h.depths, h.loops, h.depth⟩
  loop {m m'} h := by
    -- the loop that is left is the one that was entered, as the body left the stack alone
    have hl : m'.loops.tail = m.loops := by rw [h.loops]; rfl
    exact ⟨h.frame, h.globals, h.depths, hl, h.depth⟩
  call {m m' f} h := by
    have hd : m'.depth - 1 = m.depth := by rw [h.depth]; exact Nat.add_sub_cancel m.depth 1
    exact ⟨rfl, h.globals, h.depths, rfl, hd⟩

end Run

namespace Session

/-- The machine stands in the global frame that it started with, outside all loops and calls. -/
structure AtRest (globals : FrameId) (s : Session) : Prop where
  frame : s.machine.frame = globals
  globals : s.machine.globals = globals
  loops : s.machine.loops = []
  depth : s.machine.depth = 0

variable {globals : FrameId} {s : Session}

theorem atRest_start (console : Console) :
    AtRest (Machine.start console).globals (start console) := ⟨rfl, rfl, rfl, rfl⟩

theorem AtRest.of_sameStanding (hs : AtRest globals s) {m : Machine} {nextId : Nat}
    (h : SameStanding s.machine m) : AtRest globals ⟨m, nextId⟩ :=
  ⟨h.frame.trans hs.frame, h.globals.trans hs.globals, h.loops.trans hs.loops,
    h.depth.trans hs.depth⟩

theorem interpret_machine (fuel : Nat) (program : Program) (m : Machine) :
    (interpret fuel program m).2 = (Run.interpret fuel program).final m := by
  rcases h : Run.interpret fuel program m with ⟨_, m'⟩ | ⟨_ | _, m'⟩ <;>
    simp only [interpret, Run.final, h]

theorem AtRest.interpret (hs : AtRest globals s) (fuel : Nat) (program : Program) {nextId : Nat} :
    AtRest globals ⟨(interpret fuel program s.machine).2, nextId⟩ := by
  rw [interpret_machine]
  exact hs.of_sameStanding (Run.respects_interpret Run.respected_sameStanding fuel program _)

theorem AtRest.step (hs : AtRest globals s) (step : Step) : AtRest globals (s.step step) := by
  cases step with
  | source fuel text =>
    simp only [Session.step, run]
    split
    · exact ⟨hs.frame, hs.globals, hs.loops, hs.depth⟩
    · rename_i checked nextId _
      have hadd : AtRest globals ⟨s.machine.addDepths checked.depths, nextId⟩ :=
        ⟨hs.frame, hs.globals, hs.loops, hs.depth⟩
      exact hadd.interpret fuel checked.program
  | unresolved fuel text => exact hs.interpret fuel _
  | readLine | write text => exact ⟨hs.frame, hs.globals, hs.loops, hs.depth⟩

end Session

open Run in
/-- Statements, expressions, calls and programs leave the machine standing where it stood, with any
supply of fuel and whether they finish or fail; so after any steps a session is at rest. -/
theorem standing_restored :
    (∀ n s, Respects SameStanding (exec n s)) ∧
    (∀ n e, Respects SameStanding (eval n e)) ∧
    (∀ n callee arguments, Respects SameStanding (call n callee arguments)) ∧
    (∀ n frame body, Respects SameStanding (inCall frame (execAll n body))) ∧
    (∀ fuel program, Respects SameStanding (interpret fuel program)) ∧
    ∀ console steps,
      Session.AtRest (Machine.start console).globals ((Session.start console).after steps) := by
  have h := respecting respected_sameStanding
  refine ⟨fun n => (h n).exec, fun n => (h n).eval, fun n => (h n).call, ?_, ?_, ?_⟩
  · intro n frame body
    exact respects_inCall respected_sameStanding frame ((h n).execAll body)
  · exact respects_interpret respected_sameStanding
  · intro console steps
    exact Session.after_induction (fun s step hs => hs.step step) steps
      (Session.atRest_start console)

end Jal
