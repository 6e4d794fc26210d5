import Jal.Machine.Names
import Jal.Machine.Operators

namespace Jal

inductive Flow where
  | normal
  | returned (v : Value)
  | broke (loop : Nat)
deriving Inhabited

namespace Run

def outOfFuel {α : Type} : Run α := throw .outOfFuel

def callNative (f : Native) (arguments : List Value) : Run Value := do
  let heap := (← get).heap
  let shown := heap.render (arguments.headD .none)
  match f with
  | .print =>
    write shown
    return .none
  | .println =>
    write (shown ++ "\n")
    return .none
  | .input =>
    write shown
    readLine
  | .time => now

def bindArguments (params : List Name) (arguments : List Value) : Bindings :=
  (params.zip arguments).foldl (fun b (p, v) => Bindings.set b p.text v) []

/-- What a call gives back once the body is done: a constructor always gives the instance. -/
def result (c : Closure) (flow : Flow) : Run Value := do
  if c.isConstructor then
    match (← get).heap.get? c.frame "self" with
    | some v => return v
    | none => fail (.undefinedVariable "self")
  else
    match flow with
    | .returned v => return v
    | _ => return .none

def innermostLoop (line : Nat) : Run Flow := do
  match (← get).loops with
  | loop :: _ => return .broke loop
  | [] => failAt line .unexpectedBreak

def repeatCount (line : Nat) (v : Value) : Run Float :=
  match v with
  | .number x => return x
  | v => failAt line (.invalidRepeatCount v.type)

def checkCall (line : Nat) (callee : Value) (given : Nat) : Run Unit :=
  match callee.arity? with
  | none => failAt line (.notCallable callee.type)
  | some expected =>
    if given = expected then return () else failAt line (.incorrectArity expected given)

def element (line : Nat) (v index : Value) : Run Value := do
  let heap := (← get).heap
  let (a, slot) ← liftAt line (arraySlot heap v index)
  return (heap.elements a).getD slot .none

def setElement (line : Nat) (v index new : Value) : Run Value := do
  let (a, slot) ← liftAt line (arraySlot (← get).heap v index)
  modify fun m => { m with heap := m.heap.setElement a slot new }
  return new

def unary (op : UnaryOp) (line : Nat) (v : Value) : Run Value := do
  liftAt line (applyUnary (← get).heap op v)

def binary (op : BinaryOp) (line : Nat) (v w : Value) : Run Value := do
  liftAt line (applyBinary (← get).heap op v w)

mutual

def eval : Nat → Expr → Run Value
  | 0, _ => outOfFuel
  | _ + 1, .literal value => return .ofLiteral value
  | n + 1, .grouping inner => eval n inner
  | n + 1, .unary op line operand => do
    let v ← eval n operand
    unary op line v
  | n + 1, .binary op line left right => do
    let v ← eval n left
    let w ← eval n right
    binary op line v w
  | n + 1, .logical op left right => do
    let v ← eval n left
    if op.decidedBy v then return v else eval n right
  | _ + 1, .variable ref => lookUp ref.id ref.name
  | n + 1, .assign ref value => do
    let v ← eval n value
    assign ref v
  | _ + 1, .selfRef id line => lookUp id ⟨"self", line⟩
  | _ + 1, .superRef id line method => superMethod id line method
  | n + 1, .get object name => do
    let v ← eval n object
    let i ← asInstance v name
    property i name
  | n + 1, .set object name value => do
    let v ← eval n object
    let i ← asInstance v name
    let w ← eval n value
    setProperty i name w
  | n + 1, .index object line position => do
    let v ← eval n object
    let i ← eval n position
    element line v i
  | n + 1, .indexSet object line position value => do
    let v ← eval n object
    let i ← eval n position
    let w ← eval n value
    setElement line v i w
  | n + 1, .call callee line arguments => do
    let f ← eval n callee
    let vs ← evalAll n arguments
    checkCall line f vs.length
    orLine line (call n f vs)
  | n + 1, .array elements => do
    let vs ← evalAll n elements
    newArray vs

def evalAll : Nat → List Expr → Run (List Value)
  | 0, _ => outOfFuel
  | _ + 1, [] => return []
  | n + 1, e :: rest => do
    let v ← eval n e
    let vs ← evalAll n rest
    return v :: vs

/-- Calls a value. A class makes an instance and hands it to the constructor, if there is one. -/
def call : Nat → Value → List Value → Run Value
  | 0, _, _ => outOfFuel
  | n + 1, callee, arguments =>
    match callee with
    | .native f => callNative f arguments
    | .function c _ => apply n c arguments
    | .classValue c => do
      let i ← onHeap (·.newInstance c)
      match c.constructor? with
      | none => return .object i
      | some method =>
        let bound ← bindSelf method i
        let _ ← apply n bound arguments
        return .object i
    | v => fail (.notCallable v.type)

def apply : Nat → Closure → List Value → Run Value
  | 0, _, _ => outOfFuel
  | n + 1, c, arguments => do
    let frame ← newFrame (bindArguments c.routine.params arguments) c.frame
    let flow ← inCall frame (execAll n c.routine.body)
    result c flow

def exec : Nat → Stmt → Run Flow
  | 0, _ => outOfFuel
  | n + 1, .expr e => do
    let _ ← eval n e
    return .normal
  | _ + 1, .letVar name none => do
    define name.text .none
    return .normal
  | n + 1, .letVar name (some init) => do
    let v ← eval n init
    define name.text v
    return .normal
  | n + 1, .block body => do
    let frame ← newScope
    inFrame frame (execAll n body)
  | n + 1, .ifThen test consequence alternative => do
    let v ← eval n test
    if v.truthy then exec n consequence
    else
      match alternative with
      | some s => exec n s
      | none => return .normal
  | n + 1, .whileDo test body => inLoop fun loop => repeatWhile n loop test body
  | n + 1, .times line count body => do
    let v ← eval n count
    let count ← repeatCount line v
    inLoop fun loop => repeatTimes n loop 0 count body
  | _ + 1, .breakLoop line => innermostLoop line
  | _ + 1, .define routine => do
    declareFunction routine
    return .normal
  | _ + 1, .returnWith _ none => return .returned .none
  | n + 1, .returnWith _ (some value) => do
    let v ← eval n value
    return .returned v
  | _ + 1, .classDecl name superclass methods => do
    declareClass name superclass methods
    return .normal

def execAll : Nat → List Stmt → Run Flow
  | 0, _ => outOfFuel
  | _ + 1, [] => return .normal
  | n + 1, s :: rest => do
    match ← exec n s with
    | .normal => execAll n rest
    | flow => return flow

def repeatWhile : Nat → Nat → Expr → Stmt → Run Flow
  | 0, _, _, _ => outOfFuel
  | n + 1, loop, test, body => do
    let v ← eval n test
    if v.truthy then
      match ← exec n body with
      | .normal => repeatWhile n loop test body
      | .broke target => if target = loop then return .normal else return .broke target
      | flow => return flow
    else return .normal

def repeatTimes : Nat → Nat → Float → Float → Stmt → Run Flow
  | 0, _, _, _, _ => outOfFuel
  | n + 1, loop, i, count, body =>
    if i < count then do
      match ← exec n body with
      | .normal => repeatTimes n loop (i + 1) count body
      | .broke target => if target = loop then return .normal else return .broke target
      | flow => return flow
    else return .normal

end

/-- Runs the statements of a program in order. One that returns ends the program. -/
def interpret (fuel : Nat) : List Stmt → Run Unit
  | [] => return ()
  | s :: rest => do
    match ← exec fuel s with
    | .returned _ => return ()
    | _ => interpret fuel rest

end Run

end Jal
