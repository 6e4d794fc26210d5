import Jal.Proofs.Machine.Triple

namespace Jal

/-- The single changes that a run makes to the heap, with the name that is declared or assigned in
a frame, if one is. -/
inductive Heap.Edit (h : Heap) : Option String → Heap → Prop where
  | newFrame (bindings : Bindings) (outer : Option FrameId) :
      Edit h none (h.newFrame bindings outer).2
  | newArray (elements : Array Value) : Edit h none (h.newArray elements).2
  | newInstance (c : Class) : Edit h none (h.newInstance c).2
  | newStamp : Edit h none h.newStamp.2
  | define (f : FrameId) (name : String) (v : Value) : Edit h (some name) (h.define f name v)
  | setElement (a : ArrayId) (slot : Nat) (v : Value) : Edit h none (h.setElement a slot v)
  | setField (i : InstanceId) (name : String) (v : Value) : Edit h none (h.setField i name v)

namespace Run

theorem final_orLine {α : Type} (line : Nat) (act : Run α) (m : Machine) :
    (orLine line act).final m = act.final m := by
  rcases h : act m with ⟨a, m'⟩ | ⟨_ | _, m'⟩ <;> simp only [orLine, final, h]

theorem final_inFrame {α : Type} (f : FrameId) (act : Run α) (m : Machine) :
    (inFrame f act).final m = { act.final { m with frame := f } with frame := m.frame } := by
  rcases h : act { m with frame := f } with ⟨a, m'⟩ | ⟨e, m'⟩ <;> simp only [inFrame, final, h]

theorem final_inLoop {α : Type} (act : Nat → Run α) (m : Machine) :
    (inLoop act).final m = ((act m.nextLoop).final m.enterLoop).leaveLoop := by
  rcases h : act m.nextLoop m.enterLoop with ⟨a, m'⟩ | ⟨e, m'⟩ <;> simp only [inLoop, final, h]

theorem final_inCall_of_lt {α : Type} (f : FrameId) (act : Run α) {m : Machine}
    (hd : m.depth < maxDepth) :
    (inCall f act).final m = (act.final (m.enterCall f)).leaveCall m.frame m.loops := by
  rcases h : act (m.enterCall f) with ⟨a, m'⟩ | ⟨e, m'⟩ <;>
    simp only [inCall, final, if_neg (Nat.not_le.2 hd), h]

theorem final_inCall_of_le {α : Type} (f : FrameId) (act : Run α) {m : Machine}
    (hd : maxDepth ≤ m.depth) : (inCall f act).final m = m := by
  simp only [inCall, final, if_pos hd]
  rfl

def Respects {α : Type} (R : Machine → Machine → Prop) (act : Run α) : Prop :=
  ∀ m, R m (act.final m)

/-- A preorder on machines that allows every single change a run makes, with `names` the names
that it may declare and assign. -/
structure Respected (names : String → Prop) (R : Machine → Machine → Prop) : Prop where
  refl : ∀ m, R m m
  trans : ∀ {m m' m''}, R m m' → R m' m'' → R m m''
  heap : ∀ {m : Machine} {name : Option String} {h : Heap}, m.heap.Edit name h →
    (∀ x ∈ name, names x) → R m { m with heap := h }
  console : ∀ (m : Machine) (c : Console), R m { m with console := c }
  frame : ∀ {m m' : Machine} {f : FrameId}, R { m with frame := f } m' →
    R m { m' with frame := m.frame }
  loop : ∀ {m m' : Machine}, R m.enterLoop m' → R m m'.leaveLoop
  call : ∀ {m m' : Machine} {f : FrameId}, R (m.enterCall f) m' →
    R m (m'.leaveCall m.frame m.loops)

section Single

variable {α β : Type} {names : String → Prop} {R : Machine → Machine → Prop}

theorem Respects.triple {act : Run α} (h : Respects R act) (m : Machine) :
    Triple (R m) m act (fun _ _ => True) fun _ => True :=
  ⟨h m, fun _ => trivial, fun _ => trivial⟩

theorem respects_of {act : Run α}
    (h : ∀ m, Triple (R m) m act (fun _ _ => True) fun _ => True) : Respects R act :=
  fun m => (h m).machine

theorem Respects.ok {act : Run α} {m m' : Machine} {a : α} (h : Respects R act)
    (ha : act m = .ok a m') : R m m' := ((h.triple m).ok ha).1

variable (hR : Respected names R)

include hR

theorem respects_pure (a : α) : Respects R (pure a : Run α) := fun m => hR.refl m

theorem respects_throw (e : Stop) : Respects R (throw e : Run α) := fun m => hR.refl m

theorem respects_get : Respects R (get : Run Machine) := fun m => hR.refl m

theorem respects_bind {act : Run α} {next : α → Run β} (h : Respects R act)
    (h' : ∀ a, Respects R (next a)) : Respects R (act >>= next) := by
  refine respects_of fun m => (h.triple m).bind fun a m' _ hm' _ => ?_
  exact ((h' a).triple m').mono fun _ => hR.trans hm'

theorem respects_inFrame (f : FrameId) {act : Run α} (h : Respects R act) :
    Respects R (inFrame f act) :=
  respects_of fun m => (h.triple { m with frame := f }).inFrame fun _ => hR.frame

theorem respects_inLoop {act : Nat → Run α} (h : ∀ loop, Respects R (act loop)) :
    Respects R (inLoop act) :=
  respects_of fun m => ((h m.nextLoop).triple m.enterLoop).inLoop fun _ => hR.loop

theorem respects_inCall (f : FrameId) {act : Run α} (h : Respects R act) :
    Respects R (inCall f act) :=
  respects_of fun m =>
    .inCall (hR.refl m) (fun _ => trivial) (fun _ => h.triple (m.enterCall f)) fun _ => hR.call

theorem respects_onHeap {f : Heap → α × Heap} (h : ∀ heap : Heap, heap.Edit none (f heap).2) :
    Respects R (onHeap f) := fun m => hR.heap (h m.heap) nofun

theorem respects_lookUp (id : Nat) (name : Name) : Respects R (lookUp id name) :=
  respects_of fun m => triple_lookUp (hR.refl m) id name allows_any fun _ _ _ _ => trivial

theorem respects_assign {ref : Reference} (hn : names ref.name.text) (v : Value) :
    Respects R (assign ref v) := by
  refine respects_of fun m => triple_assign (hR.refl m) ref v allows_any fun f =>
    ⟨hR.heap (.define f ref.name.text v) ?_, trivial⟩
  rintro _ ⟨⟩
  exact hn

theorem respects_define {name : String} (hn : names name) (v : Value) :
    Respects R (define name v) := by
  intro m
  refine hR.heap (.define m.frame name v) ?_
  rintro _ ⟨⟩
  exact hn

theorem respects_newFrame (bindings : Bindings) (outer : FrameId) :
    Respects R (newFrame bindings outer) :=
  respects_onHeap hR fun _ => .newFrame bindings (some outer)

theorem respects_newScope : Respects R newScope := fun m => respects_newFrame hR [] m.frame m

theorem respects_newInstance (c : Class) : Respects R (onHeap (·.newInstance c)) :=
  respects_onHeap hR fun _ => .newInstance c

theorem respects_newArray (elements : List Value) : Respects R (newArray elements) :=
  respects_bind hR (respects_onHeap hR fun _ => .newArray _) fun _ => respects_pure hR _

theorem respects_newFunction (c : Closure) : Respects R (newFunction c) :=
  respects_bind hR (respects_onHeap hR fun _ => .newStamp) fun _ => respects_pure hR _

theorem respects_declareFunction {routine : Routine Stmt} (hn : names routine.name.text) :
    Respects R (declareFunction routine) := by
  refine respects_bind hR (respects_get hR) fun m => ?_
  exact respects_bind hR (respects_newFunction hR _) fun f => respects_define hR hn f

theorem respects_bindSelf (method : Closure) (i : InstanceId) :
    Respects R (bindSelf method i) :=
  respects_bind hR (respects_newFrame hR _ _) fun _ => respects_pure hR _

theorem respects_boundMethod (method : Closure) (i : InstanceId) :
    Respects R (do newFunction (← bindSelf method i)) :=
  respects_bind hR (respects_bindSelf hR method i) fun c => respects_newFunction hR c

theorem respects_property (i : InstanceId) (name : Name) : Respects R (property i name) :=
  respects_of fun m => triple_property (hR.refl m) allows_any (fun _ _ _ _ => trivial)
    fun _ method _ _ _ => (respects_boundMethod hR method i).triple m

theorem respects_setProperty (i : InstanceId) (name : Name) (v : Value) :
    Respects R (setProperty i name v) :=
  fun _ => hR.heap (.setField i name.text v) nofun

theorem respects_superMethod (id line : Nat) (name : Name) :
    Respects R (superMethod id line name) :=
  respects_of fun m => triple_superMethod (hR.refl m) allows_any allows_any
    fun _ i _ _ method _ _ _ _ => (respects_boundMethod hR method i).triple m

theorem respects_asInstance (v : Value) (name : Name) : Respects R (asInstance v name) :=
  respects_of fun m => triple_asInstance (hR.refl m) v name allows_any fun _ _ => trivial

theorem respects_superclass (superclass : Option Reference) :
    Respects R (superclass.mapM lookUpClass) :=
  respects_of fun m => triple_superclass (hR.refl m) superclass (fun _ _ => allows_any)
    trivial fun _ _ _ _ => trivial

theorem respects_methodFrame (parent : Option Class) : Respects R (methodFrame parent) := by
  intro m
  cases parent with
  | none => exact hR.refl m
  | some c => exact respects_newFrame hR _ m.frame m

theorem respects_declareClass {name : Name} (hn : names name.text)
    (superclass : Option Reference) (methods : List (Routine Stmt)) :
    Respects R (declareClass name superclass methods) := by
  refine respects_bind hR (respects_superclass hR superclass) fun parent => ?_
  refine respects_bind hR (respects_define hR hn _) fun _ => ?_
  refine respects_bind hR (respects_methodFrame hR parent) fun frame => ?_
  refine respects_bind hR (respects_onHeap hR fun _ => .newStamp) fun stamp => ?_
  exact respects_define hR hn _

theorem respects_callNative (f : Native) (arguments : List Value) :
    Respects R (callNative f arguments) :=
  respects_of fun m => triple_callNative (hR.console m) f arguments (fun _ _ => trivial)
    fun _ _ => trivial

theorem respects_result (c : Closure) (flow : Flow) : Respects R (result c flow) :=
  respects_of fun m => triple_result (hR.refl m) c flow trivial (fun _ _ => trivial)
    (fun _ _ => trivial) trivial

theorem respects_innermostLoop (line : Nat) : Respects R (innermostLoop line) :=
  respects_of fun m => triple_innermostLoop (hR.refl m) line allows_any fun _ => trivial

theorem respects_repeatCount (line : Nat) (v : Value) : Respects R (repeatCount line v) :=
  respects_of fun m => triple_repeatCount (hR.refl m) line v allows_any fun _ => trivial

theorem respects_checkCall (line : Nat) (callee : Value) (given : Nat) :
    Respects R (checkCall line callee given) :=
  respects_of fun m => triple_checkCall (hR.refl m) line callee given allows_any fun _ => trivial

theorem respects_element (line : Nat) (v index : Value) : Respects R (element line v index) :=
  respects_of fun m => triple_element (hR.refl m) line v index allows_any fun _ _ => trivial

theorem respects_setElement (line : Nat) (v index new : Value) :
    Respects R (setElement line v index new) :=
  respects_of fun m => triple_setElement (hR.refl m) line v index new allows_any
    fun a slot => ⟨hR.heap (.setElement a slot new) nofun, trivial⟩

theorem respects_unary (op : UnaryOp) (line : Nat) (v : Value) :
    Respects R (unary op line v) :=
  respects_of fun m => triple_unary (hR.refl m) op line v allows_any fun _ _ => trivial

theorem respects_binary (op : BinaryOp) (line : Nat) (v w : Value) :
    Respects R (binary op line v w) :=
  respects_of fun m => triple_binary (hR.refl m) op line v w allows_any fun _ _ => trivial

end Single

structure Respecting (R : Machine → Machine → Prop) (n : Nat) : Prop where
  eval : ∀ e, Respects R (eval n e)
  evalAll : ∀ es, Respects R (evalAll n es)
  call : ∀ callee arguments, Respects R (call n callee arguments)
  apply : ∀ c arguments, Respects R (apply n c arguments)
  exec : ∀ s, Respects R (exec n s)
  execAll : ∀ body, Respects R (execAll n body)
  repeatWhile : ∀ loop test body, Respects R (repeatWhile n loop test body)
  repeatTimes : ∀ loop i count body, Respects R (repeatTimes n loop i count body)

section Induction

variable {R : Machine → Machine → Prop} {n : Nat} (hR : Respected (fun _ => True) R)
  (ih : Respecting R n)

include hR ih

theorem respects_eval_succ (e : Expr) : Respects R (eval (n + 1) e) := by
  cases e with
  | literal value => exact respects_pure hR _
  | grouping inner => exact ih.eval inner
  | unary op line operand =>
    exact respects_bind hR (ih.eval operand) fun v => respects_unary hR op line v
  | binary op line left right =>
    refine respects_bind hR (ih.eval left) fun v => ?_
    exact respects_bind hR (ih.eval right) fun w => respects_binary hR op line v w
  | logical op left right =>
    refine respects_bind hR (ih.eval left) fun v => ?_
    split
    · exact respects_pure hR v
    · exact ih.eval right
  | «variable» ref => exact respects_lookUp hR ref.id ref.name
  | assign ref value =>
    exact respects_bind hR (ih.eval value) fun v => respects_assign hR trivial v
  | selfRef id line => exact respects_lookUp hR id _
  | superRef id line method => exact respects_superMethod hR id line method
  | get object name =>
    refine respects_bind hR (ih.eval object) fun v => ?_
    exact respects_bind hR (respects_asInstance hR v name) fun i => respects_property hR i name
  | set object name value =>
    refine respects_bind hR (ih.eval object) fun v => ?_
    refine respects_bind hR (respects_asInstance hR v name) fun i => ?_
    exact respects_bind hR (ih.eval value) fun w => respects_setProperty hR i name w
  | index object line position =>
    refine respects_bind hR (ih.eval object) fun v => ?_
    exact respects_bind hR (ih.eval position) fun i => respects_element hR line v i
  | indexSet object line position value =>
    refine respects_bind hR (ih.eval object) fun v => ?_
    refine respects_bind hR (ih.eval position) fun i => ?_
    exact respects_bind hR (ih.eval value) fun w => respects_setElement hR line v i w
  | call callee line arguments =>
    refine respects_bind hR (ih.eval callee) fun f => ?_
    refine respects_bind hR (ih.evalAll arguments) fun vs => ?_
    refine respects_bind hR (respects_checkCall hR line f vs.length) fun _ => ?_
    -- a line that is put into an error does not change the machine
    intro m
    rw [final_orLine]
    exact ih.call f vs m
  | array elements =>
    exact respects_bind hR (ih.evalAll elements) fun vs => respects_newArray hR vs

theorem respects_evalAll_succ (es : List Expr) : Respects R (evalAll (n + 1) es) := by
  cases es with
  | nil => exact respects_pure hR []
  | cons e rest =>
    refine respects_bind hR (ih.eval e) fun v => ?_
    exact respects_bind hR (ih.evalAll rest) fun vs => respects_pure hR _

theorem respects_call_succ (callee : Value) (arguments : List Value) :
    Respects R (call (n + 1) callee arguments) := by
  cases callee with
  | native f => exact respects_callNative hR f arguments
  | function c stamp => exact ih.apply c arguments
  | classValue c =>
    refine respects_bind hR (respects_newInstance hR c) fun i => ?_
    split
    · exact respects_pure hR _
    · refine respects_bind hR (respects_bindSelf hR _ i) fun bound => ?_
      exact respects_bind hR (ih.apply bound arguments) fun _ => respects_pure hR _
  | none | bool b | number x | text s | array id | object id =>
    exact respects_throw hR _

theorem respects_apply_succ (c : Closure) (arguments : List Value) :
    Respects R (apply (n + 1) c arguments) := by
  refine respects_bind hR (respects_newFrame hR _ c.frame) fun frame => ?_
  refine respects_bind hR (respects_inCall hR frame (ih.execAll c.routine.body)) fun flow => ?_
  exact respects_result hR c flow

theorem respects_exec_succ (s : Stmt) : Respects R (exec (n + 1) s) := by
  cases s with
  | expr e => exact respects_bind hR (ih.eval e) fun _ => respects_pure hR _
  | letVar name init =>
    cases init with
    | none => exact respects_bind hR (respects_define hR trivial _) fun _ => respects_pure hR _
    | some init =>
      refine respects_bind hR (ih.eval init) fun v => ?_
      exact respects_bind hR (respects_define hR trivial v) fun _ => respects_pure hR _
  | block body =>
    refine respects_bind hR (respects_newScope hR) fun frame => ?_
    exact respects_inFrame hR frame (ih.execAll body)
  | ifThen test consequence alternative =>
    refine respects_bind hR (ih.eval test) fun v => ?_
    split
    · exact ih.exec consequence
    · cases alternative with
      | some s => exact ih.exec s
      | none => exact respects_pure hR _
  | whileDo test body => exact respects_inLoop hR fun loop => ih.repeatWhile loop test body
  | times line count body =>
    refine respects_bind hR (ih.eval count) fun v => ?_
    refine respects_bind hR (respects_repeatCount hR line v) fun x => ?_
    exact respects_inLoop hR fun loop => ih.repeatTimes loop 0 x body
  | breakLoop line => exact respects_innermostLoop hR line
  | define routine =>
    exact respects_bind hR (respects_declareFunction hR trivial) fun _ => respects_pure hR _
  | returnWith line value =>
    cases value with
    | none => exact respects_pure hR _
    | some value => exact respects_bind hR (ih.eval value) fun _ => respects_pure hR _
  | classDecl name superclass methods =>
    exact respects_bind hR (respects_declareClass hR trivial superclass methods) fun _ =>
      respects_pure hR _

theorem respects_execAll_succ (body : List Stmt) : Respects R (execAll (n + 1) body) := by
  cases body with
  | nil => exact respects_pure hR _
  | cons s rest =>
    refine respects_bind hR (ih.exec s) fun flow => ?_
    split
    · exact ih.execAll rest
    · exact respects_pure hR _

theorem respects_repeatWhile_succ (loop : Nat) (test : Expr) (body : Stmt) :
    Respects R (repeatWhile (n + 1) loop test body) := by
  refine respects_bind hR (ih.eval test) fun v => ?_
  split
  · refine respects_bind hR (ih.exec body) fun flow => ?_
    split
    · exact ih.repeatWhile loop test body
    · split <;> exact respects_pure hR _
    · exact respects_pure hR _
  · exact respects_pure hR _

theorem respects_repeatTimes_succ (loop : Nat) (i count : Float) (body : Stmt) :
    Respects R (repeatTimes (n + 1) loop i count body) := by
  rw [repeatTimes]
  split
  · refine respects_bind hR (ih.exec body) fun flow => ?_
    split
    · exact ih.repeatTimes loop (i + 1) count body
    · split <;> exact respects_pure hR _
    · exact respects_pure hR _
  · exact respects_pure hR _

end Induction

/-- Whatever is run, and however it ends, `R` relates the machine before and after. -/
theorem respecting {R : Machine → Machine → Prop} (hR : Respected (fun _ => True) R) (n : Nat) :
    Respecting R n := by
  induction n with
  | zero =>
    constructor
    all_goals intros; exact respects_throw hR _
  | succ n ih =>
    exact
      { eval := respects_eval_succ hR ih
        evalAll := respects_evalAll_succ hR ih
        call := respects_call_succ hR ih
        apply := respects_apply_succ hR ih
        exec := respects_exec_succ hR ih
        execAll := respects_execAll_succ hR ih
        repeatWhile := respects_repeatWhile_succ hR ih
        repeatTimes := respects_repeatTimes_succ hR ih }

theorem respects_interpret {R : Machine → Machine → Prop} (hR : Respected (fun _ => True) R)
    (fuel : Nat) (program : Program) : Respects R (interpret fuel program) := by
  induction program with
  | nil => exact respects_pure hR ()
  | cons s rest ih =>
    refine respects_bind hR ((respecting hR fuel).exec s) fun flow => ?_
    split
    · exact respects_pure hR ()
    · exact ih

end Run

end Jal
