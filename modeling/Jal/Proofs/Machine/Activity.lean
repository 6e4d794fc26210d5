import Jal.Proofs.Scope.Sites
import Jal.Machine.Eval
import Mathlib.Logic.Relation

namespace Jal

inductive Task where
  | eval (e : Expr)
  | evalAll (es : List Expr)
  | call (callee : Value) (arguments : List Value)
  | apply (c : Closure) (arguments : List Value)
  | exec (s : Stmt)
  | execAll (body : List Stmt)
  | repeatWhile (loop : Nat) (test : Expr) (body : Stmt)
  | repeatTimes (loop : Nat) (i count : Float) (body : Stmt)
  | interpret (program : Program)

/-- A task that is begun on a machine with a supply of fuel. -/
structure Activity where
  fuel : Nat
  task : Task
  machine : Machine

structure Lookup where
  id : Nat
  name : String
  use : Use
  machine : Machine

def Machine.nextFrame (m : Machine) : FrameId := ⟨m.heap.frames.size⟩

namespace Activity

open Run

inductive Part : Activity → Activity → Prop where
  | grouping {n m inner} : Part ⟨n + 1, .eval (.grouping inner), m⟩ ⟨n, .eval inner, m⟩
  | unary {n m op line operand} :
    Part ⟨n + 1, .eval (.unary op line operand), m⟩ ⟨n, .eval operand, m⟩
  | binaryLeft {n m op line left right} :
    Part ⟨n + 1, .eval (.binary op line left right), m⟩ ⟨n, .eval left, m⟩
  | binaryRight {n m op line left right v m₁} (h : eval n left m = .ok v m₁) :
    Part ⟨n + 1, .eval (.binary op line left right), m⟩ ⟨n, .eval right, m₁⟩
  | logicalLeft {n m op left right} :
    Part ⟨n + 1, .eval (.logical op left right), m⟩ ⟨n, .eval left, m⟩
  | logicalRight {n m op left right v m₁} (h : eval n left m = .ok v m₁)
    (ho : op.decidedBy v = false) :
    Part ⟨n + 1, .eval (.logical op left right), m⟩ ⟨n, .eval right, m₁⟩
  | assign {n m ref value} : Part ⟨n + 1, .eval (.assign ref value), m⟩ ⟨n, .eval value, m⟩
  | get {n m object name} : Part ⟨n + 1, .eval (.get object name), m⟩ ⟨n, .eval object, m⟩
  | setObject {n m object name value} :
    Part ⟨n + 1, .eval (.set object name value), m⟩ ⟨n, .eval object, m⟩
  | setValue {n m object name value i m₁} (h : eval n object m = .ok (.object i) m₁) :
    Part ⟨n + 1, .eval (.set object name value), m⟩ ⟨n, .eval value, m₁⟩
  | indexObject {n m object line position} :
    Part ⟨n + 1, .eval (.index object line position), m⟩ ⟨n, .eval object, m⟩
  | indexPosition {n m object line position v m₁} (h : eval n object m = .ok v m₁) :
    Part ⟨n + 1, .eval (.index object line position), m⟩ ⟨n, .eval position, m₁⟩
  | indexSetObject {n m object line position value} :
    Part ⟨n + 1, .eval (.indexSet object line position value), m⟩ ⟨n, .eval object, m⟩
  | indexSetPosition {n m object line position value v m₁} (h : eval n object m = .ok v m₁) :
    Part ⟨n + 1, .eval (.indexSet object line position value), m⟩ ⟨n, .eval position, m₁⟩
  | indexSetValue {n m object line position value v m₁ i m₂} (h : eval n object m = .ok v m₁)
    (hi : eval n position m₁ = .ok i m₂) :
    Part ⟨n + 1, .eval (.indexSet object line position value), m⟩ ⟨n, .eval value, m₂⟩
  | callee {n m callee line arguments} :
    Part ⟨n + 1, .eval (.call callee line arguments), m⟩ ⟨n, .eval callee, m⟩
  | arguments {n m callee line arguments v m₁} (h : eval n callee m = .ok v m₁) :
    Part ⟨n + 1, .eval (.call callee line arguments), m⟩ ⟨n, .evalAll arguments, m₁⟩
  | call {n m callee line arguments v m₁ vs m₂ m₃} (h : eval n callee m = .ok v m₁)
    (hvs : evalAll n arguments m₁ = .ok vs m₂) (hc : checkCall line v vs.length m₂ = .ok () m₃) :
    Part ⟨n + 1, .eval (.call callee line arguments), m⟩ ⟨n, .call v vs, m₃⟩
  | array {n m elements} : Part ⟨n + 1, .eval (.array elements), m⟩ ⟨n, .evalAll elements, m⟩
  | firstValue {n m e rest} : Part ⟨n + 1, .evalAll (e :: rest), m⟩ ⟨n, .eval e, m⟩
  | nextValues {n m e rest v m₁} (h : eval n e m = .ok v m₁) :
    Part ⟨n + 1, .evalAll (e :: rest), m⟩ ⟨n, .evalAll rest, m₁⟩
  | applyFunction {n m c stamp arguments} :
    Part ⟨n + 1, .call (.function c stamp) arguments, m⟩ ⟨n, .apply c arguments, m⟩
  | construct {n m c arguments method i m₁ bound m₂} (hc : c.constructor? = some method)
    (hi : onHeap (·.newInstance c) m = .ok i m₁) (hb : bindSelf method i m₁ = .ok bound m₂) :
    Part ⟨n + 1, .call (.classValue c) arguments, m⟩ ⟨n, .apply bound arguments, m₂⟩
  -- beyond the greatest depth of calls no body is run
  | routineBody {n m c arguments f m₁}
    (hf : newFrame (bindArguments c.routine.params arguments) c.frame m = .ok f m₁)
    (hd : m₁.depth < maxDepth) :
    Part ⟨n + 1, .apply c arguments, m⟩ ⟨n, .execAll c.routine.body, m₁.enterCall f⟩
  | expr {n m e} : Part ⟨n + 1, .exec (.expr e), m⟩ ⟨n, .eval e, m⟩
  | letVar {n m name init} : Part ⟨n + 1, .exec (.letVar name (some init)), m⟩ ⟨n, .eval init, m⟩
  | block {n m body f m₁} (hf : newScope m = .ok f m₁) :
    Part ⟨n + 1, .exec (.block body), m⟩ ⟨n, .execAll body, { m₁ with frame := f }⟩
  | ifTest {n m test consequence alternative} :
    Part ⟨n + 1, .exec (.ifThen test consequence alternative), m⟩ ⟨n, .eval test, m⟩
  | consequence {n m test consequence alternative v m₁} (h : eval n test m = .ok v m₁)
    (ht : v.truthy = true) :
    Part ⟨n + 1, .exec (.ifThen test consequence alternative), m⟩ ⟨n, .exec consequence, m₁⟩
  | alternative {n m test consequence alternative v m₁} (h : eval n test m = .ok v m₁)
    (ht : v.truthy = false) :
    Part ⟨n + 1, .exec (.ifThen test consequence (some alternative)), m⟩ ⟨n, .exec alternative, m₁⟩
  | whileDo {n m test body} :
    Part ⟨n + 1, .exec (.whileDo test body), m⟩
      ⟨n, .repeatWhile m.nextLoop test body, m.enterLoop⟩
  | timesCount {n m line count body} :
    Part ⟨n + 1, .exec (.times line count body), m⟩ ⟨n, .eval count, m⟩
  | times {n m line count body v m₁ x m₂} (h : eval n count m = .ok v m₁)
    (hx : repeatCount line v m₁ = .ok x m₂) :
    Part ⟨n + 1, .exec (.times line count body), m⟩
      ⟨n, .repeatTimes m₂.nextLoop 0 x body, m₂.enterLoop⟩
  | returnWith {n m line value} :
    Part ⟨n + 1, .exec (.returnWith line (some value)), m⟩ ⟨n, .eval value, m⟩
  | firstStmt {n m s rest} : Part ⟨n + 1, .execAll (s :: rest), m⟩ ⟨n, .exec s, m⟩
  | nextStmts {n m s rest m₁} (h : exec n s m = .ok .normal m₁) :
    Part ⟨n + 1, .execAll (s :: rest), m⟩ ⟨n, .execAll rest, m₁⟩
  | whileTest {n m loop test body} :
    Part ⟨n + 1, .repeatWhile loop test body, m⟩ ⟨n, .eval test, m⟩
  | whileBody {n m loop test body v m₁} (h : eval n test m = .ok v m₁) (ht : v.truthy = true) :
    Part ⟨n + 1, .repeatWhile loop test body, m⟩ ⟨n, .exec body, m₁⟩
  | whileNext {n m loop test body v m₁ m₂} (h : eval n test m = .ok v m₁) (ht : v.truthy = true)
    (hb : exec n body m₁ = .ok .normal m₂) :
    Part ⟨n + 1, .repeatWhile loop test body, m⟩ ⟨n, .repeatWhile loop test body, m₂⟩
  | timesBody {n m loop i count body} (hi : i < count) :
    Part ⟨n + 1, .repeatTimes loop i count body, m⟩ ⟨n, .exec body, m⟩
  | timesNext {n m loop i count body m₁} (hi : i < count) (h : exec n body m = .ok .normal m₁) :
    Part ⟨n + 1, .repeatTimes loop i count body, m⟩ ⟨n, .repeatTimes loop (i + 1) count body, m₁⟩
  -- the statements of a program share one supply of fuel: this is no step into depth
  | programFirst {n m s rest} : Part ⟨n, .interpret (s :: rest), m⟩ ⟨n, .exec s, m⟩
  | programNext {n m s rest flow m₁} (h : exec n s m = .ok flow m₁)
    (hf : ∀ v, flow ≠ .returned v) :
    Part ⟨n, .interpret (s :: rest), m⟩ ⟨n, .interpret rest, m₁⟩

/-- The second activity is begun in the course of the first one, or is that. -/
def Includes : Activity → Activity → Prop := Relation.ReflTransGen Part

/-- The activity itself evaluates the reference. An assignment does so after its value is known. -/
inductive Refers : Activity → Lookup → Prop where
  | variable {n m ref} :
    Refers ⟨n + 1, .eval (.variable ref), m⟩ ⟨ref.id, ref.name.text, .read, m⟩
  | assign {n m ref value v m₁} (h : eval n value m = .ok v m₁) :
    Refers ⟨n + 1, .eval (.assign ref value), m⟩ ⟨ref.id, ref.name.text, .write, m₁⟩
  | self {n m id line} : Refers ⟨n + 1, .eval (.selfRef id line), m⟩ ⟨id, "self", .self, m⟩
  | super {n m id line method} :
    Refers ⟨n + 1, .eval (.superRef id line method), m⟩ ⟨id, "super", .super, m⟩
  | superclass {n m name ref methods} :
    Refers ⟨n + 1, .exec (.classDecl name (some ref) methods), m⟩
      ⟨ref.id, ref.name.text, .superclass name.text, m⟩

inductive Opens : Activity → FrameId → ScopeNode → Prop where
  | block {n m body} : Opens ⟨n + 1, .exec (.block body), m⟩ m.nextFrame (.block body)
  | routine {n m c arguments} :
    Opens ⟨n + 1, .apply c arguments, m⟩ m.nextFrame (.routine c.routine)
  | construct {n m c arguments method} (hc : c.constructor? = some method) :
    Opens ⟨n + 1, .call (.classValue c) arguments, m⟩ m.nextFrame (.selfOf method.routine)
  | get {n m object name i m₁ o method} (h : eval n object m = .ok (.object i) m₁)
    (ho : m₁.heap.instance? i = some o) (hf : o.fields.lookup name.text = none)
    (hm : o.ofClass.method? name.text = some method) :
    Opens ⟨n + 1, .eval (.get object name), m⟩ m₁.nextFrame (.selfOf method.routine)
  | superRef {n m id line name c i method} (h : superAndSelf m id = .ok (c, i))
    (hm : c.method? name.text = some method) :
    Opens ⟨n + 1, .eval (.superRef id line name), m⟩ m.nextFrame (.selfOf method.routine)
  | classDecl {n m name ref methods c m₁} (h : lookUpClass ref m = .ok c m₁) :
    Opens ⟨n + 1, .exec (.classDecl name (some ref) methods), m⟩ m.nextFrame
      (.superOf name ref methods)

def pending (a : Activity) : Nat :=
  match a.task with
  | .interpret program => program.length + 1
  | _ => 0

/-- Activities cannot begin each other forever. -/
theorem wellFounded_part : WellFounded fun b a : Activity => Part a b := by
  -- every part has less fuel, or as much and fewer statements of the program before it
  have hlex := (Prod.lex Nat.lt_wfRel Nat.lt_wfRel).wf
  refine Subrelation.wf ?_ (InvImage.wf (fun a : Activity => (a.fuel, a.pending)) hlex)
  intro b a h
  cases h with
  | programFirst => exact .right _ (Nat.succ_pos _)
  | programNext => exact .right _ (Nat.lt_succ_self _)
  | _ => exact .left _ _ (Nat.lt_succ_self _)

end Activity

end Jal
