import Jal.Proofs.Grammar.Lines
import Jal.Proofs.Machine.Lines
import Jal.Proofs.Session.References

namespace Jal

open Session

variable {tokens : List Token}

theorem meets_start {P : Routine Stmt → Bool → Prop} (console : Console) :
    (Machine.start console).heap.Meets P := by
  intro v hv
  obtain ⟨f, rfl⟩ := holds_start hv
  trivial

/-- A source text that fails has begun a run that fails. -/
theorem error_of_run {s : Session} {fuel : Nat} {source : String} {e : RuntimeError}
    (h : (s.run fuel source).1 = .error (.failed e)) :
    ∃ checked m', (check s.nextId source).1 = .ok checked ∧
      Run.interpret fuel checked.program (s.machine.addDepths checked.depths) =
        .error (.error e) m' := by
  rcases hc : check s.nextId source with ⟨diagnostics | checked, nextId⟩ <;>
    simp only [run, hc] at h
  · cases h
  · rcases hr : Run.interpret fuel checked.program (s.machine.addDepths checked.depths) with
      ⟨_, m'⟩ | ⟨e' | _, m'⟩ <;> simp only [Session.interpret, hr] at h
    · cases h
    · cases h
      exact ⟨checked, m', rfl, hr⟩
    · cases h

/-- If a source text fails on a machine that has run nothing before, the error has the line of one
of its tokens, which is a line of the text. A fault that is raised without a line (a console or a
clock that fails, or calls that go too deep) gets the line of the closing parenthesis of the
innermost call expression, at the place where that call was read in the text. -/
theorem errors_located (console : Console) (fuel : Nat) (source : String) (e : RuntimeError)
    (h : ((start console).run fuel source).1 = .error (.failed e)) :
    ∃ line, e.line = some line ∧ HasLine (scan source).tokens line ∧
      1 ≤ line ∧ line ≤ 1 + source.toList.count '\n' ∧
      (e.fault.isBare = true → ∃ root ∈ (start console).begins (.source fuel source),
        ∃ program last, root.task = .interpret program ∧
          ReadsClause (.items program) (Cursor.start 0 (scan source).tokens) last ∧
          last.errors = [] ∧
          ∃ a b callee arguments, root.Includes a ∧ a.task = .eval (.call callee line arguments) ∧
            (Passage.clause (.items program) (Cursor.start 0 (scan source).tokens) last).Closes
              (.call callee line arguments) line ∧
            a.Encloses b ∧ b.RaisesBare e.fault) := by
  obtain ⟨checked, m', hc, hr⟩ := error_of_run h
  let root : Activity :=
    ⟨fuel, .interpret checked.program, (start console).machine.addDepths checked.depths⟩
  have hroot : root ∈ (start console).begins (.source fuel source) := by
    simp only [begins, accepts, hc, Except.toOption, Option.map_some, Option.mem_def, root]
  obtain ⟨last, hread, herrors⟩ := reads_of_check hc
  have hlined : root.Lined (scan source).tokens _ :=
    ⟨meets_start console, hread.lined_start herrors⟩
  obtain ⟨line, hline, htoken, hbare⟩ := (hlined.reports .refl).error hr
  obtain ⟨hfirst, hlast⟩ := line_of_scan htoken
  exact ⟨line, hline, htoken, hfirst, hlast, fun hf =>
    ⟨root, hroot, checked.program, last, rfl, hread, herrors, hbare hf⟩⟩

theorem interpret_second_print {m : Machine} {c c' : Console} {message : String}
    (hd : ∀ id : Nat, m.depths[id]? = none)
    (hf : m.heap.get? m.globals "print" = some (.native .print))
    (hfirst : m.console.write "" = (none, c)) (hsecond : c.write "" = (some message, c')) :
    (Session.interpret 9
      [.expr (.call (.variable ⟨0, ⟨"print", 1⟩⟩) 1 [.literal (.text "")]),
        .expr (.call (.variable ⟨1, ⟨"print", 2⟩⟩) 2 [.literal (.text "")])] m).1 =
      .error (.failed ⟨some 2, .console message⟩) := by
  have hshown (h : Heap) : h.render (Value.ofLiteral (.text "")) = "" := by
    rw [Value.ofLiteral, Heap.render, Heap.renderIn]
  let m₁ : Machine := { m with console := c }
  have h₁ : Run.eval 8 (.call (.variable ⟨0, ⟨"print", 1⟩⟩) 1 [.literal (.text "")]) m =
      .ok .none m₁ := by
    rw [Run.eval_print (hd 0) hf rfl, hshown, Run.orLine, Run.bind_of_ok (Run.write_of_ok hfirst)]
    rfl
  have h₂ : Run.eval 8 (.call (.variable ⟨1, ⟨"print", 2⟩⟩) 2 [.literal (.text "")]) m₁ =
      .error (.error ⟨some 2, .console message⟩) { m₁ with console := c' } := by
    have hfault := Run.write_of_fault (m := m₁) hsecond
    rw [Run.eval_print (m := m₁) (hd 1) hf rfl, hshown, Run.orLine, Run.bind_of_error hfault]
    rfl
  simp only [Session.interpret, Run.interpret, Run.exec, bind, EStateM.bind, h₁, h₂, pure,
    EStateM.pure]

/-- A console on which only the `n`-th call of the sink fails, counting from zero. -/
def faultyAt (n : Nat) (message : String) : Console :=
  { Console.ofInput [] (fun _ => none) with
    faults := fun i => if i = n then some message else none }

theorem errors_located_on_second_line :
    ((start (faultyAt 3 "broken pipe")).run 9 "print(\"\")\nprint(\"\")").1 =
        .error (.failed ⟨some 2, .console "broken pipe"⟩) ∧
      ∃ root ∈ (start (faultyAt 3 "broken pipe")).begins (.source 9 "print(\"\")\nprint(\"\")"),
        ∃ program last, root.task = .interpret program ∧
          ReadsClause (.items program)
            (Cursor.start 0 (scan "print(\"\")\nprint(\"\")").tokens) last ∧
          last.errors = [] ∧
          ∃ a b callee arguments, root.Includes a ∧ a.task = .eval (.call callee 2 arguments) ∧
            (Passage.clause (.items program)
              (Cursor.start 0 (scan "print(\"\")\nprint(\"\")").tokens) last).Closes
              (.call callee 2 arguments) 2 ∧
            a.Encloses b ∧ b.RaisesBare (.console "broken pipe") := by
  have hc : check 0 "print(\"\")\nprint(\"\")" =
      (.ok ⟨[.expr (.call (.variable ⟨0, ⟨"print", 1⟩⟩) 1 [.literal (.text "")]),
        .expr (.call (.variable ⟨1, ⟨"print", 2⟩⟩) 2 [.literal (.text "")])], []⟩, 2) := by
    with_unfolding_all rfl
  have h : ((start (faultyAt 3 "broken pipe")).run 9 "print(\"\")\nprint(\"\")").1 =
      .error (.failed ⟨some 2, .console "broken pipe"⟩) := by
    rw [run, show (start _).nextId = 0 from rfl, hc]
    exact interpret_second_print (by simp [Machine.addDepths, start, Machine.start]) rfl rfl rfl
  obtain ⟨line, hline, -, -, -, hbare⟩ := errors_located _ 9 _ _ h
  cases hline
  exact ⟨h, hbare rfl⟩

end Jal
