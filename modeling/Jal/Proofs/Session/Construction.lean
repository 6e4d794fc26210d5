import Jal.Proofs.Machine.Construction
import Jal.Proofs.Session.Super

namespace Jal

open Session Run in
/-- Whenever a routine is begun in the course of a session, there are as many arguments as
parameters, and its body begins with all of them bound. Whenever a class is called, what succeeds
gives a new instance of this class, and what is run is the constructor that is found along its
superclasses, with the new instance as its `self`; if there is one, it has been run. The methods of
a class are those of its declaration in their order. And a constructor whose body has finished still
has its `self`, an instance, to give back. -/
theorem calls_bind_and_construct (console : Console) (steps : List Step) (root : Activity)
    (hroot : root ∈ (start console).gather begins steps) :
    (∀ n c arguments m, root.Includes ⟨n, .apply c arguments, m⟩ →
      arguments.length = c.routine.params.length ∧
      ∀ b, Activity.Part ⟨n, .apply c arguments, m⟩ b →
        b.task = .execAll c.routine.body ∧ b.machine.Binds c.routine.params arguments) ∧
    (∀ n c arguments m, root.Includes ⟨n, .call (.classValue c) arguments, m⟩ →
      (∀ b, Activity.Part ⟨n, .call (.classValue c) arguments, m⟩ b →
        ∃ method, c.Finds constructorName method ∧
          b.Constructs c method arguments m.nextInstance) ∧
      ∀ v m', call n (.classValue c) arguments m = .ok v m' →
        v = .object m.nextInstance ∧ m.heap.instance? m.nextInstance = none ∧
        (∃ o, m'.heap.instance? m.nextInstance = some o ∧ o.ofClass = c) ∧
        ∀ method, c.Finds constructorName method →
          ∃ k bound m₁ u, Activity.Part ⟨n, .call (.classValue c) arguments, m⟩
              ⟨k, .apply bound arguments, m₁⟩ ∧
            apply k bound arguments m₁ = .ok u m') ∧
    (∀ n name superclass methods m flow m',
      exec n (.classDecl name superclass methods) m = .ok flow m' →
        ∃ parent c heap, superclass.mapM lookUpClass m = .ok parent m ∧
          c.Declared methods parent ∧
          m' = { m with heap := Heap.define heap m.frame name.text (.classValue c) }) ∧
    ∀ n c arguments m f m₁ flow m₂, root.Includes ⟨n + 1, .apply c arguments, m⟩ →
      c.isConstructor = true →
      newFrame (bindArguments c.routine.params arguments) c.frame m = .ok f m₁ →
      inCall f (execAll n c.routine.body) m₁ = .ok flow m₂ →
        ∃ i, m.heap.get? c.frame "self" = some (.object i) ∧
          result c flow m₂ = .ok (.object i) m₂ := by
  obtain ⟨hr, ho⟩ := ready_of_begins console hroot
  refine ⟨?_, ?_, ?_, ?_⟩
  · intro n c arguments m hi
    obtain ⟨-, -, -, hcount⟩ := hr.includes ho hi
    refine ⟨hcount.symm, fun b hb => ?_⟩
    cases hb with
    | routineBody hf hd => exact ⟨rfl, binds_enterCall hcount.symm hf⟩
  · intro n c arguments m _
    cases n with
    | zero => exact ⟨by rintro b ⟨⟩, by rintro v m' ⟨⟩⟩
    | succ n =>
      refine ⟨fun b hb => ?_, fun v m' h => ?_⟩
      · obtain ⟨method, hc, hb⟩ := constructs_of_part hb
        exact ⟨method, Class.method?_eq_some_iff.1 hc, hb⟩
      · obtain ⟨hv, hmade⟩ := instance_of_call h
        refine ⟨hv, m.instance?_nextInstance, hmade, fun method hf => ?_⟩
        have hc : c.constructor? = some method := Class.method?_eq_some_iff.2 hf
        obtain ⟨-, ⟨hnone, -⟩ | ⟨_, bound, m₁, u, -, hp, ha⟩⟩ := call_classValue_eq_ok h
        · cases hnone.symm.trans hc
        · exact ⟨n, bound, m₁, u, hp, ha⟩
  · intro n name superclass methods m flow m' h
    cases n with
    | zero => cases h
    | succ n =>
      obtain ⟨_, m₁, h, h'⟩ := bind_eq_ok h
      cases h'
      exact declareClass_eq_ok h
  · intro n c arguments m f m₁ flow m₂ hi hc hf hb
    exact (hr.includes ho hi).result_constructor (fun b h => ho b (hi.trans h)) hc hf hb

open Session Run in
/-- `B` has no constructor of its own and `A` has two. What `B(none)` runs is the second one, with
an instance of `B` as its `self`. -/
theorem calls_bind_and_construct_inherited :
    ∃ text, text =
        "class A\x7bdef constructor()\x7b\x7d\ndef constructor(x)\x7breturn\x7d\x7d\n" ++
          "class B inherits A\x7b\x7d\nB(none)" ∧
      ∃ root ∈ (start default).gather begins [.source 9 text],
        ∃ c m v m' method b, root.Includes ⟨7, .call (.classValue c) [.none], m⟩ ∧
          call 7 (.classValue c) [.none] m = .ok v m' ∧ v = .object m.nextInstance ∧
          m.heap.instance? m.nextInstance = none ∧
          (∃ o, m'.heap.instance? m.nextInstance = some o ∧ o.ofClass = c) ∧
          c.Finds constructorName method ∧ method.isConstructor = true ∧
          Activity.Part ⟨7, .call (.classValue c) [.none], m⟩ b ∧
          b.Constructs c method [.none] m.nextInstance ∧
          ∃ body, b.Part body ∧ body.machine.Binds [⟨"x", 2⟩] [.none] := by
  let methodsA : List (Routine Stmt) :=
    [⟨⟨"constructor", 1⟩, [], []⟩, ⟨⟨"constructor", 2⟩, [⟨"x", 2⟩], [.returnWith 2 none]⟩]
  let declA : Stmt := .classDecl ⟨"A", 1⟩ none methodsA
  let callB : Stmt := .expr (.call (.variable ⟨1, ⟨"B", 4⟩⟩) 4 [.literal .none])
  let program : Program := [declA, .classDecl ⟨"B", 3⟩ (some ⟨0, ⟨"A", 3⟩⟩) [], callB]
  refine ⟨_, rfl, ?_⟩
  have hcheck : check 0
      ("class A\x7bdef constructor()\x7b\x7d\ndef constructor(x)\x7breturn\x7d\x7d\n" ++
        "class B inherits A\x7b\x7d\nB(none)") = (.ok ⟨program, []⟩, 2) := by
    with_unfolding_all rfl
  generalize "class A\x7bdef constructor()\x7b\x7d\ndef constructor(x)\x7breturn\x7d\x7d\n" ++
    "class B inherits A\x7b\x7d\nB(none)" = text at hcheck ⊢
  let m₀ : Machine := (start default).machine.addDepths []
  have hglobal (id : Nat) : m₀.depths[id]? = none := by
    simp [m₀, Machine.addDepths, start, Machine.start]
  have hfound {id : Nat} {name : Name} {m : Machine} {v : Value} (hd : m.depths[id]? = none)
      (hg : m.heap.get? m.globals name.text = some v) : lookUp id name m = .ok v m := by
    simp only [lookUp, frameOf, hd, Option.bind_some, hg]
  let classA : Class := ⟨⟨0, "A", methodsA.map fun r => ⟨r, ⟨0⟩, r.isConstructor⟩⟩, []⟩
  let m₁ : Machine := (exec 9 declA).final m₀
  have hA : lookUpClass ⟨0, ⟨"A", 3⟩⟩ m₁ = .ok classA m₁ := by
    have hvalue : lookUp 0 ⟨"A", 3⟩ m₁ = .ok (.classValue classA) m₁ := hfound (hglobal 0) rfl
    simp only [lookUpClass, bind, EStateM.bind, hvalue]
    rfl
  let m₂ : Machine := declareHeir ⟨"B", 3⟩ [] classA m₁
  let classB : Class := ⟨⟨m₁.heap.nextStamp, "B", []⟩, classA.layers⟩
  have hB : eval 7 (.variable ⟨1, ⟨"B", 4⟩⟩) m₂ = .ok (.classValue classB) m₂ :=
    hfound (hglobal 1) (get?_declareHeir rfl)
  let root : Activity := ⟨9, .interpret program, m₀⟩
  have hc : (⟨program, []⟩ : Checked) ∈ (start default).accepts (.source 9 text) := by
    simp only [accepts, Option.mem_def, show (start default).nextId = 0 from rfl, hcheck,
      Except.toOption]
  have hroot : root ∈ (start default).gather begins ([] ++ [.source 9 text]) :=
    mem_gather_append (Option.mem_map_of_mem _ hc)
  have hdeclared : root.Includes ⟨9, .interpret [callB], m₂⟩ :=
    (Relation.ReflTransGen.single (.programNext rfl (by rintro v ⟨⟩))).tail
      (.programNext (exec_classDecl hA) (by rintro v ⟨⟩))
  have hi : root.Includes ⟨7, .call (.classValue classB) [.none], m₂⟩ :=
    ((hdeclared.tail .programFirst).tail .expr).tail (.call hB rfl rfl)
  let method : Closure :=
    ⟨⟨⟨"constructor", 2⟩, [⟨"x", 2⟩], [.returnWith 2 none]⟩, ⟨0⟩, true⟩
  have hmethod : classB.constructor? = some method := rfl
  have happly := hi.tail (.construct hmethod rfl rfl)
  obtain ⟨hbinds, hcalls, -, hself⟩ := calls_bind_and_construct default [.source 9 text] root hroot
  obtain ⟨hconstructs, hgives⟩ := hcalls _ _ _ _ hi
  obtain ⟨found, hfinds, hb⟩ := hconstructs _ (.construct hmethod rfl rfl)
  obtain rfl : method = found :=
    Option.some.inj (hmethod.symm.trans (Class.method?_eq_some_iff.2 hfinds))
  have hbody {f : FrameId} {m : Machine} (hd : m.depth = 0) :
      inCall f (execAll 5 method.routine.body) m =
        .ok (.returned .none) ((m.enterCall f).leaveCall m.frame m.loops) := by
    rw [inCall, hd, if_neg (by decide)]
    rfl
  obtain ⟨i, -, hresult⟩ := hself 5 _ _ _ _ _ _ _ happly rfl rfl (hbody rfl)
  have hcall := call_classValue_of_part (.construct hmethod rfl rfl)
    (apply_of_body rfl (hbody rfl) hresult)
  obtain ⟨hv, hnew, hmade, -⟩ := hgives _ _ hcall
  have hbound := ((hbinds _ _ _ _ happly).2 _ (.routineBody rfl (by decide))).2
  exact ⟨root, hroot, classB, m₂, _, _, method, _, hi, hcall, hv, hnew, hmade, hfinds, rfl,
    .construct hmethod rfl rfl, hb, _, .routineBody rfl (by decide), hbound⟩

end Jal
