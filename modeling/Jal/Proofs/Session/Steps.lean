import Jal.Session

namespace Jal.Session

inductive Step where
  /-- Check a source text and run it. -/
  | source (fuel : Nat) (text : String)
  /-- Run what can be read of a source text, with its names unresolved. -/
  | unresolved (fuel : Nat) (text : String)
  | readLine
  | write (text : String)

def step (s : Session) : Step → Session
  | .source fuel text => (s.run fuel text).2
  | .unresolved fuel text => (s.runUnresolved fuel text).2
  | .readLine => s.readLine.2
  | .write text => (s.write text).2

def after (s : Session) (steps : List Step) : Session := steps.foldl step s

/-- What every step keeps is kept by all of them together. -/
theorem after_induction {P : Session → Prop} (hstep : ∀ s step, P s → P (s.step step))
    (steps : List Step) {s : Session} (hs : P s) : P (s.after steps) := by
  induction steps generalizing s with
  | nil => exact hs
  | cons step rest ih => exact ih (hstep s step hs)

end Jal.Session
