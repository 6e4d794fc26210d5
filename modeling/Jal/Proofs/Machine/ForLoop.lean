import Jal.Grammar.Statement
import Jal.Proofs.Machine.Fuel

namespace Jal

namespace Run

/-- Runs the first action in a new frame and, only if it finishes normally, the second one after
it. -/
def inScope (first second : Run Flow) : Run Flow := do
  let frame ← newScope
  inFrame frame do
    match ← first with
    | .normal => second
    | flow => return flow

def forTest (n : Nat) : Option Expr → Run Value
  | none => return .bool true
  | some e => eval n e

/-- One turn of the loop: the body and, only if that finishes normally, the update. Where there is
an update, a new frame is opened for the two. -/
def forTurn (n : Nat) (update : Option Expr) (body : Stmt) : Run Flow :=
  match update with
  | none => exec n body
  | some e => inScope (exec n body) do
    let _ ← eval n e
    return .normal

/-- The turns of the loop while the condition holds. A break that is for this loop ends it normally;
anything else that does not finish normally ends it as it is. -/
def forTurns (n loop : Nat) (test update : Option Expr) (body : Stmt) : Nat → Run Flow
  | 0 => outOfFuel
  | turns + 1 => do
    if (← forTest n test).truthy then
      match ← forTurn n update body with
      | .normal => forTurns n loop test update body turns
      | .broke target => if target = loop then return .normal else return .broke target
      | flow => return flow
    else return .normal

/-- A `for`, with fuel for its parts and a number of turns that suffices. The first clause, if there
is one, is run once in a frame around the whole loop. -/
def forDirect (n turns : Nat) (init : Option Stmt) (test update : Option Expr) (body : Stmt) :
    Run Flow :=
  let loop := inLoop fun loop => forTurns n loop test update body turns
  match init with
  | none => loop
  | some s => inScope (exec n s) loop

variable {n n' turns loop : Nat} {init : Option Stmt} {test update : Option Expr} {body : Stmt}

def forBody (update : Option Expr) (body : Stmt) : Stmt :=
  match update with
  | none => body
  | some e => .block [body, .expr e]

def forWhile (test update : Option Expr) (body : Stmt) : Stmt :=
  .whileDo (test.getD (.literal (.bool true))) (forBody update body)

theorem forLoop_eq (init : Option Stmt) (test update : Option Expr) (body : Stmt) :
    Parser.forLoop init test update body =
      init.elim (forWhile test update body) fun s => .block [s, forWhile test update body] := by
  cases init <;> cases update <;> rfl

/-- A block of two statements is a scope for them. -/
theorem exec_pair (n : Nat) (s s' : Stmt) :
    exec (n + 4) (.block [s, s']) = inScope (exec (n + 2) s) (exec (n + 1) s') := by
  -- whatever the last statement finishes with, so does the block
  have hend (flow : Flow) : (match flow with
      | .normal => execAll (n + 1) []
      | flow => return flow : Run Flow) = pure flow := by
    cases flow with
    | normal => rw [execAll]
    | returned v => rfl
    | broke target => rfl
  have hlast : execAll (n + 2) [s'] = exec (n + 1) s' := by
    rw [execAll]
    exact (congrArg (exec (n + 1) s' >>= ·) (funext hend)).trans (bind_pure _)
  rw [exec, execAll, hlast]
  rfl

theorem Prolonged.inScope {first first' second second' : Run Flow} (h : Prolonged first first')
    (h' : Prolonged second second') :
    Prolonged (inScope first second) (inScope first' second') := by
  refine .next fun frame => .inFrame frame (h.bind fun flow => ?_)
  cases flow with
  | normal => exact h'
  | returned v => exact .refl _
  | broke target => exact .refl _

theorem prolonged_forTest (h : n < n') :
    Prolonged (forTest n test) (eval n' (test.getD (.literal (.bool true)))) := by
  cases test with
  | none =>
    obtain ⟨k, rfl⟩ : ∃ k, n' = k + 1 := ⟨n' - 1, by omega⟩
    exact .refl _
  | some e => exact (prolonging (Nat.le_of_lt h)).eval e

theorem prolonged_test (h : n ≤ n') :
    Prolonged (eval n (test.getD (.literal (.bool true)))) (forTest n' test) := by
  cases test with
  | none =>
    cases n with
    | zero => exact .of_outOfFuel _
    | succ n => exact .refl _
  | some e => exact (prolonging h).eval e

theorem prolonged_forTurn (h : n + 4 ≤ n') :
    Prolonged (forTurn n update body) (exec n' (forBody update body)) := by
  cases update with
  | none => exact (prolonging (by omega)).exec body
  | some e =>
    obtain ⟨k, rfl⟩ : ∃ k, n' = k + 4 := ⟨n' - 4, by omega⟩
    rw [forBody, exec_pair]
    refine .inScope ((prolonging (by omega)).exec body) ?_
    exact ((prolonging (by omega)).eval e).bind fun _ => .refl _

theorem prolonged_turn (h : n + 4 ≤ n') :
    Prolonged (exec n (forBody update body)) (forTurn n' update body) := by
  refine ((prolonging (Nat.le_add_right n 4)).exec _).trans ?_
  cases update with
  | none => exact (prolonging h).exec body
  | some e =>
    rw [forBody, exec_pair]
    refine .inScope ((prolonging (by omega)).exec body) ?_
    exact ((prolonging (by omega)).eval e).bind fun _ => .refl _

theorem prolonged_forTurns (h : n + 4 + turns ≤ n') :
    Prolonged (forTurns n loop test update body turns)
      (repeatWhile n' loop (test.getD (.literal (.bool true))) (forBody update body)) := by
  induction turns generalizing n' with
  | zero => exact .of_outOfFuel _
  | succ turns ih =>
    obtain ⟨k, rfl⟩ : ∃ k, n' = k + 1 := ⟨n' - 1, by omega⟩
    refine (prolonged_forTest (by omega)).bind fun v => .ite ?_ (.refl _)
    refine (prolonged_forTurn (by omega)).bind fun flow => ?_
    cases flow with
    | normal => exact ih (by omega)
    | returned v => exact .refl _
    | broke target => exact .refl _

theorem prolonged_turns (h : n + 4 ≤ n') (ht : n ≤ turns) :
    Prolonged (repeatWhile n loop (test.getD (.literal (.bool true))) (forBody update body))
      (forTurns n' loop test update body turns) := by
  induction n generalizing turns with
  | zero => exact .of_outOfFuel _
  | succ n ih =>
    obtain ⟨k, rfl⟩ : ∃ k, turns = k + 1 := ⟨turns - 1, by omega⟩
    refine (prolonged_test (by omega)).bind fun v => .ite ?_ (.refl _)
    refine (prolonged_turn (by omega)).bind fun flow => ?_
    cases flow with
    | normal => exact ih (by omega) (by omega)
    | returned v => exact .refl _
    | broke target => exact .refl _

theorem prolonged_forDirect (n turns : Nat) :
    Prolonged (forDirect n turns init test update body)
      (exec (n + turns + 8) (Parser.forLoop init test update body)) := by
  have hloop {k : Nat} (hk : n + 4 + turns ≤ k) :
      Prolonged (inLoop fun loop => forTurns n loop test update body turns)
        (exec (k + 1) (forWhile test update body)) :=
    .inLoop fun loop => prolonged_forTurns hk
  rw [forLoop_eq]
  cases init with
  | none => exact hloop (by omega)
  | some s =>
    rw [Option.elim, exec_pair]
    exact .inScope ((prolonging (by omega)).exec s) (hloop (by omega))

theorem prolonged_forLoop (n : Nat) :
    Prolonged (exec n (Parser.forLoop init test update body))
      (forDirect (n + 8) (n + 4) init test update body) := by
  have hloop {k : Nat} (hk : k < n + 4) :
      Prolonged (exec (k + 1) (forWhile test update body))
        (inLoop fun loop => forTurns (n + 8) loop test update body (n + 4)) :=
    .inLoop fun loop => prolonged_turns (by omega) (by omega)
  refine ((prolonging (Nat.le_add_right n 4)).exec _).trans ?_
  rw [forLoop_eq]
  cases init with
  | none => exact hloop (by omega)
  | some s =>
    rw [Option.elim, exec_pair]
    exact .inScope ((prolonging (by omega)).exec s) (hloop (by omega))

/-- What a `for` is read as ends just as the `for` itself does: with the same flow or the same error
and the same machine, that is the same heap and the same output. -/
theorem ends_forLoop_iff {m : Machine} {r : EStateM.Result Stop Machine Flow} (hr : Ended r) :
    (∃ n, exec n (Parser.forLoop init test update body) m = r) ↔
      ∃ n turns, forDirect n turns init test update body m = r := by
  constructor
  · rintro ⟨n, h⟩
    exact ⟨n + 8, n + 4, (prolonged_forLoop n).eq h hr⟩
  · rintro ⟨n, turns, h⟩
    exact ⟨n + turns + 8, (prolonged_forDirect n turns).eq h hr⟩

end Run

end Jal
