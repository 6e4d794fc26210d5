import Jal.Proofs.Machine.Breaks
import Jal.Proofs.Machine.Depth

namespace Jal

namespace Activity

/-- Only a call that is not refused goes deeper. -/
theorem Part.depth_le {a b : Activity} (h : a.Part b) :
    b.machine.depth ≤ max a.machine.depth maxDepth := by
  obtain ⟨m, hs, he⟩ := h.enters
  obtain ⟨n, task, m'⟩ := b
  rw [← hs.depth]
  cases he with
  | call f hd => exact Nat.le_trans hd (Nat.le_max_right _ _)
  | _ => exact Nat.le_max_left _ _

theorem Includes.depth_le {a b : Activity} (h : a.Includes b) :
    b.machine.depth ≤ max a.machine.depth maxDepth := by
  induction h with
  | refl => exact Nat.le_max_left _ _
  | tail _ hp ih => exact hp.depth_le.trans (Nat.max_le.2 ⟨ih, Nat.le_max_right _ _⟩)

/-- A body that is run at all is run at most at the greatest depth. -/
theorem depth_le_of_isApply {a body : Activity} (ha : a.isApply = true) (h : a.Part body) :
    body.machine.depth ≤ maxDepth := by
  cases h with
  | routineBody hf hd => exact hd
  | _ => cases ha

end Activity

namespace Run

/-- At the greatest depth the frame for the arguments is made, and nothing else happens. -/
theorem apply_of_maxDepth {m : Machine} (n : Nat) (c : Closure) (arguments : List Value)
    (hd : maxDepth ≤ m.depth) :
    apply (n + 1) c arguments m = .error (.error ⟨none, .stackOverflow⟩)
      { m with
        heap :=
          (m.heap.newFrame (bindArguments c.routine.params arguments) (some c.frame)).2 } := by
  simp only [apply, bind, EStateM.bind, newFrame, onHeap, inCall, if_pos hd]
  rfl

end Run

open Run Session in
/-- With fewer calls under way, whatever is run ends in the same way and leaves the same console,
heap and all else behind, unless it is refused a call; and when it has ended as many calls are under
way as before. A call that is refused does not run the body of the routine. So no body is run with
more calls under way than are allowed, nor is anything in its course, and a program of a session is
always begun with none. -/
theorem depth_limit_transparent :
    (∀ n s, Overlooks (exec n s)) ∧
    (∀ n e, Overlooks (eval n e)) ∧
    (∀ n callee arguments, Overlooks (call n callee arguments)) ∧
    (∀ fuel program, Overlooks (interpret fuel program)) ∧
    (∀ n c arguments m, maxDepth ≤ m.depth →
      apply (n + 1) c arguments m = .error (.error ⟨none, .stackOverflow⟩)
        { m with
          heap := (m.heap.newFrame (bindArguments c.routine.params arguments) (some c.frame)).2 }) ∧
    (∀ a body b : Activity, a.isApply = true → a.Part body → body.Includes b →
      b.machine.depth ≤ maxDepth) ∧
    ∀ console steps, ∀ root ∈ (start console).gather begins steps,
      root.machine.depth = 0 ∧ ∀ a, root.Includes a → a.machine.depth ≤ maxDepth := by
  refine ⟨fun n => (overlooking n).exec, fun n => (overlooking n).eval,
    fun n => (overlooking n).call, overlooks_interpret, ?_, ?_, ?_⟩
  · exact fun n c arguments m => apply_of_maxDepth n c arguments
  · intro a body b ha hp hb
    have hbody := Activity.depth_le_of_isApply ha hp
    exact hb.depth_le.trans (Nat.max_le.2 ⟨hbody, Nat.le_refl _⟩)
  · intro console steps root hroot
    obtain ⟨_, hrest⟩ := (atRest_start console).of_gather hroot
    have hzero : root.machine.depth = 0 := hrest.depth
    refine ⟨hzero, fun a ha => ha.depth_le.trans (Nat.max_le.2 ⟨?_, Nat.le_refl _⟩)⟩
    rw [hzero]
    exact Nat.zero_le _

open Run in
/-- A routine without statements, called with as many calls under way as can be and with none. -/
theorem depth_limit_transparent_at_limit :
    let c : Closure := ⟨⟨⟨"f", 1⟩, [], []⟩, ⟨0⟩, false⟩
    let m := (Machine.start default).atDepth 999
    let after := { m with heap := (m.heap.newFrame [] (some ⟨0⟩)).2 }
    0 ≤ m.depth ∧ call 4 (.function c 0) [] m = .ok .none after ∧
      call 4 (.function c 0) [] (m.atDepth 0) = .ok .none (after.atDepth 0) ∧
      Overflows (call 4 (.function c 0) [] (m.atDepth 1000)) ∧
      ∃ body : Activity, Activity.Part ⟨3, .apply c [], m⟩ body ∧ body.machine.depth = 1000 ∧
        body.machine.depth ≤ maxDepth := by
  intro c m after
  obtain ⟨-, -, hcall, -, hrefused, hbody, -⟩ := depth_limit_transparent
  have hat : call 4 (.function c 0) [] m = .ok .none after := rfl
  have hn : ¬Overflows (call 4 (.function c 0) [] m) := by
    rintro ⟨line, m', ho⟩
    rw [hat] at ho
    cases ho
  have hp : Activity.Part ⟨3, .apply c [], m⟩
      ⟨2, .execAll [], after.enterCall m.nextFrame⟩ := .routineBody rfl (by decide)
  refine ⟨Nat.zero_le _, hat, ?_, ?_, _, hp, rfl, hbody _ _ _ rfl hp .refl⟩
  · rw [(hcall 4 (.function c 0) []).same m 0 (Nat.zero_le _) hn, hat]
    rfl
  · exact ⟨none, _, hrefused 2 c [] (m.atDepth 1000) (by decide)⟩

end Jal
