import Jal.Proofs.Machine.CutOff
import Jal.Proofs.Session.References

namespace Jal

open Session Run

variable {n fuel : Nat} {m : Machine} {program : Program}

theorem interpret_spared (h : Spared n m (Run.interpret fuel program)) :
    Session.interpret fuel program (m.refusing n) =
      ((Session.interpret fuel program m).1, (Session.interpret fuel program m).2.refusing n) := by
  have hs := h.same
  rcases hr : Run.interpret fuel program m with ⟨_, m'⟩ | ⟨_ | _, m'⟩ <;> rw [hr] at hs <;>
    simp only [Session.interpret, hr, hs, mapMachine]

theorem interpret_cutOff {r : Refusal} (h : CutOff n m (Run.interpret fuel program) r) :
    ∃ m', Session.interpret fuel program (m.refusing n) =
      (.error (.failed ⟨r.line, .console refusedMessage⟩), m') ∧
      m'.console = r.console.refusing n := by
  obtain ⟨m', he, hm'⟩ := h.error
  exact ⟨m', by simp only [Session.interpret, he], hm'⟩

/-- All texts that a run writes are non-empty. If there are at most `n` of them, the run whose
console refuses from write `n` on ends in the same way, with the same session but for that console.
If there are more, it fails with the line of the call expression that makes write `n`; it has
written just the texts before, and all input is left that was left at that write. -/
theorem refusal_cuts_run (input : List UInt8) (clock : Nat → Option Float) (n fuel : Nat)
    (source : String) :
    let console : Console := .ofInput input clock
    let free := (start console).run fuel source
    let cut := (start (console.refusing n)).run fuel source
    let texts := free.2.machine.console.written.toList
    (∀ text ∈ texts, text ≠ "") ∧
    (texts.length ≤ n → cut = (free.1, ⟨free.2.machine.refusing n, free.2.nextId⟩)) ∧
    (n < texts.length → ∃ line root a b callee arguments text,
      root ∈ (start console).begins (.source fuel source) ∧ root.Includes a ∧
      a.task = .eval (.call callee line arguments) ∧ a.Part b ∧ b.Writes n text ∧
      texts[n]? = some text ∧
      cut.1 = .error (.failed ⟨some line, .console refusedMessage⟩) ∧
      cut.2.machine.console.written.toList = texts.take n ∧
      cut.2.machine.console.input = b.machine.console.input) := by
  intro console free cut texts
  rcases hc : check 0 source with ⟨diagnostics | checked, nextId⟩
  · -- nothing is run
    have hfree : free = (.error (.rejected diagnostics), ⟨Machine.start console, nextId⟩) := by
      simp only [free, Session.run, start, hc]
    have hcut : cut =
        (.error (.rejected diagnostics), ⟨Machine.start (console.refusing n), nextId⟩) := by
      simp only [cut, Session.run, start, hc]
    have htexts : texts = [] := by
      simp only [texts, hfree]
      rfl
    rw [htexts, hcut, hfree]
    exact ⟨List.forall_mem_nil _, fun _ => rfl, fun hn => absurd hn (Nat.not_lt_zero n)⟩
  · let m := (Machine.start console).addDepths checked.depths
    let root : Activity := ⟨fuel, .interpret checked.program, m⟩
    have hroot : root ∈ (start console).begins (.source fuel source) := by
      simp only [begins, accepts, start, hc, Except.toOption, Option.map_some, Option.mem_def, root,
        m]
    have hfree : free = ((Session.interpret fuel checked.program m).1,
        ⟨(Session.interpret fuel checked.program m).2, nextId⟩) := by
      simp only [free, Session.run, start, hc, m]
    have hcut : cut = ((Session.interpret fuel checked.program (m.refusing n)).1,
        ⟨(Session.interpret fuel checked.program (m.refusing n)).2, nextId⟩) := by
      simp only [cut, Session.run, start, hc]
      rfl
    have htexts : texts =
        ((Run.interpret fuel checked.program).final m).console.written.toList := by
      simp only [texts, hfree, interpret_machine]
    have hcuts : root.CutsIn n root := Activity.cuts .refl
    obtain ⟨-, -, written, hw, hne⟩ := hcuts.later
    refine ⟨?_, ?_⟩
    · rw [htexts, hw]
      exact List.forall_mem_append.2 ⟨List.forall_mem_nil _, hne⟩
    have hreliable := Console.reliable_ofInput input clock
    rcases hcuts.fate hreliable (Nat.zero_le n) with hspared | ⟨r, hr, hx⟩
    · refine ⟨fun _ => by rw [hcut, hfree, interpret_spared hspared], fun hn => ?_⟩
      rw [htexts, Array.length_toList] at hn
      exact absurd hspared.size (Nat.not_le_of_lt hn)
    · refine ⟨fun hn => ?_, fun _ => ?_⟩
      · rw [htexts, Array.length_toList] at hn
        exact absurd hx.lt_size (Nat.not_lt_of_le hn)
      · obtain ⟨a, b, callee, line, arguments, ha, ht, hp, hb, hline, hconsole⟩ := hr
        obtain ⟨m', hm', hend⟩ := interpret_cutOff hx
        rw [htexts, hcut, hm', hline]
        refine ⟨line, root, a, b, callee, arguments, r.text, hroot, ha, ht, hp, hb,
          hx.getElem?_written, rfl, ?_, ?_⟩
        · rw [hx.take_written, hend]
          rfl
        · rw [hend, hconsole]
          rfl

/-- One print on a console on which nothing fails. -/
theorem exec_print_none (id line : Nat) (hd : m.depths[id]? = none)
    (hf : m.heap.get? m.globals "print" = some (.native .print)) (hc : m.console.Reliable) :
    Run.exec 9 (.expr (.call (.variable ⟨id, ⟨"print", line⟩⟩) line [.literal .none])) m =
      .ok .normal (m.withConsole
        { m.console.record "none" with calls := m.console.calls + 2 }) := by
  have hshown : m.heap.render (Value.ofLiteral .none) = "none" := by
    rw [Value.ofLiteral, Heap.render, Heap.renderIn]
  have hwrite := write_of_ok (hc.write "none")
  rw [Run.exec, Run.bind_of_ok (a := .none)]
  · rfl
  · rw [Run.eval_print hd hf rfl, hshown, Run.orLine, Run.bind_of_ok hwrite]
    rfl

theorem refusal_cuts_run_second_print :
    let console := Console.ofInput [] fun _ => none
    let source := "print(none)\nprint(none)"
    let free := (start console).run 9 source
    let cut := (start (console.refusing 1)).run 9 source
    1 < free.2.machine.console.written.toList.length ∧
      ∃ line, cut.1 = .error (.failed ⟨some line, .console refusedMessage⟩) ∧
        cut.2.machine.console.written.toList = free.2.machine.console.written.toList.take 1 := by
  intro console source free cut
  have hc : check 0 "print(none)\nprint(none)" =
      (.ok ⟨[.expr (.call (.variable ⟨0, ⟨"print", 1⟩⟩) 1 [.literal .none]),
        .expr (.call (.variable ⟨1, ⟨"print", 2⟩⟩) 2 [.literal .none])], []⟩, 2) := by
    with_unfolding_all rfl
  let m := (Machine.start console).addDepths []
  have hd (id : Nat) : m.depths[id]? = none := by simp [m, Machine.addDepths, Machine.start]
  have hfirst := exec_print_none 0 1 (hd 0) rfl (Console.reliable_ofInput [] _)
  let m₁ := m.withConsole { m.console.record "none" with calls := m.console.calls + 2 }
  have hsecond := exec_print_none 1 2 (m := m₁) (hd 1) rfl ⟨rfl, fun _ => rfl⟩
  have hfree : free.2.machine.console.written = #["none", "none"] := by
    simp only [free, source, Session.run, start, hc, Session.interpret, Run.interpret, bind,
      EStateM.bind]
    rw [hfirst]
    simp only [EStateM.bind]
    rw [hsecond]
    rfl
  have hn : 1 < free.2.machine.console.written.toList.length := by
    rw [hfree]
    decide
  obtain ⟨line, root, a, b, callee, arguments, text, -, -, -, -, -, -, he, hw, -⟩ :=
    (refusal_cuts_run [] (fun _ => none) 1 9 source).2.2 hn
  exact ⟨hn, line, he, hw⟩

end Jal
