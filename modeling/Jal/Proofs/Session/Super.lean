import Jal.Proofs.Machine.Lasting
import Jal.Proofs.Scope.Heirs
import Jal.Proofs.Session.Identities

namespace Jal

variable {m m' : Machine}

namespace Run

theorem lookUpClass_same {ref : Reference} {c : Class} (h : lookUpClass ref m = .ok c m') :
    m' = m := (lookUp_eq_ok (lookUpClass_eq_ok h)).1

/-- The action looks for the method in the class `c` and binds it to the instance `i`, in a frame of
its own around the one in which the method is closed. -/
structure SearchesFor (name : Name) (c : Class) (i : InstanceId) (act : Run Value) (m : Machine) :
    Prop where
  found : ∀ method, c.method? name.text = some method → ∃ stamp m',
    act m = .ok (.function { method with frame := m.nextFrame } stamp) m' ∧
      m'.heap.frame? m.nextFrame = some ⟨[("self", .object i)], some method.frame⟩
  missing : c.method? name.text = none →
    act m = .error (.error ⟨some name.line, .undefinedProperty name.text⟩) m

theorem superMethod_of_found {id : Nat} {c : Class} {i : InstanceId}
    (h : superAndSelf m id = .ok (c, i)) (line : Nat) (name : Name) :
    superMethod id line name m =
      (match c.method? name.text with
        | some method => do newFunction (← bindSelf method i)
        | none => failAt name.line (.undefinedProperty name.text) : Run Value) m := by
  rw [superMethod, get_bind, h]
  rfl

theorem searchesFor_superMethod {id : Nat} {c : Class} {i : InstanceId}
    (h : superAndSelf m id = .ok (c, i)) (line : Nat) (name : Name) :
    SearchesFor name c i (superMethod id line name) m := by
  refine ⟨fun method hm => ?_, fun hn => ?_⟩
  · rw [superMethod_of_found h, hm]
    exact ⟨_, _, rfl, Heap.frame?_newFrame_self m.heap [("self", .object i)] (some method.frame)⟩
  · rw [superMethod_of_found h, hn]
    rfl

/-- A definition makes no frame. -/
theorem nextFrame_define (m : Machine) (f : FrameId) (name : String) (v : Value) :
    ⟨(m.heap.define f name v).frames.size⟩ = m.nextFrame := congrArg FrameId.mk Array.size_modify

def heapOfHeir (name : Name) (c : Class) (m : Machine) : Heap :=
  ((m.heap.define m.frame name.text .none).newFrame [("super", .classValue c)] (some m.frame)).2

def declareHeir (name : Name) (methods : List (Routine Stmt)) (c : Class) (m : Machine) : Machine :=
  let own : Layer := ⟨m.heap.nextStamp, name.text,
    methods.map fun r => ⟨r, m.nextFrame, r.isConstructor⟩⟩
  { m with
    heap := (heapOfHeir name c m).newStamp.2.define m.frame name.text
      (.classValue ⟨own, c.layers⟩) }

theorem exec_classDecl {n : Nat} {name : Name} {ref : Reference} {methods : List (Routine Stmt)}
    {c : Class} (h : lookUpClass ref m = .ok c m) :
    exec (n + 1) (.classDecl name (some ref) methods) m =
      .ok .normal (declareHeir name methods c m) := by
  have hparent : (some ref).mapM lookUpClass m = .ok (some c) m := by
    change (some <$> lookUpClass ref) m = _
    simp only [Functor.map, EStateM.map, h]
  simp only [exec, declareClass, bind, EStateM.bind, hparent, declareHeir,
    ← nextFrame_define m m.frame name.text .none]
  rfl

theorem get?_declareHeir {name : Name} {methods : List (Routine Stmt)} {c : Class} {frame : Frame}
    (hf : m.heap.frame? m.frame = some frame) :
    (declareHeir name methods c m).heap.get? m.frame name.text =
      some (.classValue ⟨⟨m.heap.nextStamp, name.text,
        methods.map fun r => ⟨r, m.nextFrame, r.isConstructor⟩⟩, c.layers⟩) := by
  have hnamed := Heap.frame?_define m.heap m.frame m.frame name.text .none
  rw [hf, Option.map_some] at hnamed
  have hmade : (heapOfHeir name c m).newStamp.2.frame? m.frame = _ :=
    Heap.frame?_newFrame [("super", .classValue c)] (some m.frame) hnamed
  simp only [declareHeir, Heap.get?, Heap.frame?_define, hmade, Option.map_some, if_true,
    Option.bind_some, Bindings.lookup_set_self]

/-- The frame around the methods holds the superclass once the class is declared. -/
theorem super_of_classDecl {n : Nat} {name : Name} {ref : Reference}
    {methods : List (Routine Stmt)} {c : Class} (hn : IsPlain name.text)
    (h : lookUpClass ref m = .ok c m) :
    ∃ frame, ((exec (n + 1) (.classDecl name (some ref) methods)).final m).heap.frame? m.nextFrame =
      some frame ∧ frame.bindings.lookup "super" = some (.classValue c) := by
  have hframe : (heapOfHeir name c m).frame? m.nextFrame =
      some ⟨[("super", .classValue c)], some m.frame⟩ := by
    rw [← nextFrame_define m m.frame name.text .none]
    exact Heap.frame?_newFrame_self _ _ _
  -- the name of the class is plain, so its value changes nothing about the `super` of the frame
  have hfixed (v : Value) : (heapOfHeir name c m).Fixed
      ((heapOfHeir name c m).newStamp.2.define m.frame name.text v) :=
    (Heap.Fixed.of_frames rfl).trans (.define _ m.frame hn v)
  obtain ⟨frame, hf, hb⟩ := hfixed _ _ _ hframe
  exact ⟨frame, by rw [final_ok (exec_classDecl h)]; exact hf, hb "super" fun hp => hp.2 rfl⟩

end Run

namespace Session

/-- The machine as it is when something begins or ends in the course of the steps. -/
def Passes (s : Session) (steps : List Step) (m : Machine) : Prop :=
  ∃ root ∈ s.gather begins steps, ∃ a, root.Includes a ∧ (m = a.machine ∨ m = a.final)

/-- In the course of the steps the class `heir` was declared while `ref` stood for the class `c`,
and the frame `f` was made for its methods. -/
def Inherits (s : Session) (steps : List Step) (heir : Name) (ref : Reference)
    (methods : List (Routine Stmt)) (c : Class) (f : FrameId) : Prop :=
  ∃ root ∈ s.gather begins steps, ∃ n m,
    root.Includes ⟨n + 1, .exec (.classDecl heir (some ref) methods), m⟩ ∧
      Run.lookUpClass ref m = .ok c m ∧ f = m.nextFrame

variable {s : Session} {w : Setting} {steps : List Step} {step : Step}

/-- A step that runs a program begins and ends with the activity; any other leaves the heap. -/
theorem heap_step (s : Session) (step : Step) :
    (s.begins step = none ∧ (s.step step).machine.heap = s.machine.heap) ∨
      ∃ root, s.begins step = some root ∧ root.machine.heap = s.machine.heap ∧
        (s.step step).machine.heap = root.final.heap := by
  cases step with
  | source fuel text =>
    rcases hc : check s.nextId text with ⟨outcome | checked, nextId⟩
    · refine .inl ⟨?_, ?_⟩
      · simp only [begins, accepts, hc, Except.toOption, Option.map_none]
      · simp only [Session.step, run, hc]
    · refine .inr ⟨⟨fuel, .interpret checked.program, s.machine.addDepths checked.depths⟩,
        ?_, rfl, ?_⟩
      · simp only [begins, accepts, hc, Except.toOption, Option.map_some]
      · simp only [Session.step, run, hc, interpret_machine, Activity.final]
  | unresolved fuel text =>
    refine .inr ⟨_, rfl, rfl, ?_⟩
    simp only [Session.step, runUnresolved, interpret_machine, Activity.final]
  | readLine | write text => exact .inl ⟨rfl, rfl⟩

/-- From the beginning of the steps, and from the end of each run among them, to their end. -/
theorem fixed_after (h : ∀ root ∈ s.gather begins steps, root.Ready w ∧ root.OpensIn w) :
    s.machine.heap.Fixed (s.after steps).machine.heap ∧
      ∀ root ∈ s.gather begins steps,
        root.final.heap.Fixed (s.after steps).machine.heap := by
  induction steps generalizing s with
  | nil => exact ⟨.refl _, fun _ hroot => absurd hroot List.not_mem_nil⟩
  | cons step rest ih =>
    simp only [gather, List.forall_mem_append, Option.mem_toList] at h ⊢
    obtain ⟨hrest, hroots⟩ := ih h.2
    rcases heap_step s step with ⟨hb, hheap⟩ | ⟨root, hb, hheap, hfinal⟩
    · rw [hheap] at hrest
      refine ⟨hrest, fun root hroot => ?_, hroots⟩
      cases hb.symm.trans hroot
    · obtain ⟨hr, ho⟩ := h.1 root hb
      rw [hfinal] at hrest
      refine ⟨?_, ?_, hroots⟩
      · rw [← hheap]
        exact (hr.settled ho).start.trans hrest
      · intro root' hroot
        obtain rfl := Option.some.inj (hb.symm.trans hroot)
        exact hrest

theorem Passes.fixed {console : Console} (h : (start console).Passes steps m) :
    m.heap.Fixed ((start console).after steps).machine.heap := by
  obtain ⟨root, hroot, a, hi, hm⟩ := h
  obtain ⟨hr, ho⟩ := ready_of_begins console hroot
  have hend := (fixed_after fun root hroot => ready_of_begins console hroot).2 root hroot
  have hfinal := (hi.fixed hr ho).trans hend
  rcases hm with rfl | rfl
  · have ha := (hr.includes ho hi).settled fun b hb => ho b (hi.trans hb)
    exact ha.start.trans hfinal
  · exact hfinal

/-- Whenever a frame is there that was opened for the `super` of a class, it holds the class that
was inherited when it was opened. -/
theorem inherits_of_opened {console : Console} {f : FrameId} {heir : Name} {ref : Reference}
    {methods : List (Routine Stmt)} {c : Class}
    (ho : (start console).Opened steps f (.superOf heir ref methods))
    (hm : (start console).Passes steps m) (hc : m.heap.get? f "super" = some (.classValue c)) :
    (start console).Inherits steps heir ref methods c f := by
  obtain ⟨root, hroot, a, hi, hopens⟩ := ho
  cases hopens with
  | @classDecl n m₀ _ _ _ c₀ m₁ h =>
    rw [Run.lookUpClass_same h] at h
    obtain ⟨hr, hro⟩ := ready_of_begins console hroot
    have hproper : (Stmt.classDecl heir (some ref) methods).Proper := (hr.includes hro hi).1
    obtain ⟨frame₀, hf₀, hb₀⟩ := Run.super_of_classDecl hproper.1 h
    obtain ⟨frame, hf, hb⟩ := Option.bind_eq_some_iff.1 hc
    -- the frame was made with `c₀`, and what it has at two moments is the same
    have hpassed : (start console).Passes steps
        ((Run.exec (n + 1) (.classDecl heir (some ref) methods)).final m₀) :=
      ⟨root, hroot, _, hi, .inr rfl⟩
    have heq := hm.fixed.lookup_eq hpassed.fixed hf hf₀ (fun hp : IsPlain "super" => hp.2 rfl)
    rw [hb₀, hb] at heq
    obtain rfl : c₀ = c := Value.classValue.inj (Option.some.inj heq)
    exact ⟨root, hroot, n, m₀, hi, h, rfl⟩

/-- A `super` of an accepted program is evaluated in frames for the scopes around it, and these are
in an heir. -/
theorem stands_of_super {console : Console} {root : Activity} {n id line : Nat} {name : Name}
    (hroot : root ∈ (start console).gather begins steps)
    (hi : root.Includes ⟨n + 1, .eval (.superRef id line name), m⟩) {checked : Checked}
    (hc : checked ∈ (start console).gather accepts steps)
    (hid : id ∈ Stmt.idsOfAll checked.program) :
    ∃ site ∈ sites checked.program, site.id = id ∧ site.use = .super ∧ site.name = "super" ∧
      m.Stands ((start console).setting steps) site.context [site] ∧ site.context.InSomeHeir := by
  obtain ⟨hr, ho⟩ := ready_of_begins console hroot
  obtain ⟨-, ctx, initOf, hs⟩ := hr.includes ho hi
  let here : Site := ⟨id, "super", .super, ctx, initOf⟩
  -- the reference with this id in the program is the one that is evaluated
  rw [← Stmt.map_id_sitesOfAll [] checked.program] at hid
  obtain ⟨site, hsite, hsid⟩ := List.mem_map.1 hid
  have hknown : here ∈ (start console).references steps :=
    hs.known here (List.mem_singleton_self here)
  obtain rfl : site = here := references_distinct (mem_references hc hsite) hknown hsid
  obtain ⟨s', step, haccepts⟩ := exists_of_mem_gather hc
  obtain ⟨text, hprogram, -⟩ := program_of_runs (program_of_accepts haccepts)
  have hproper : Stmt.AllProper checked.program := by
    rw [hprogram]
    exact Parsed.proper_of_scan s'.nextId text
  exact ⟨here, hsite, rfl, rfl, rfl, hs,
    inHeir_of_resolve hproper (resolve_of_accepts haccepts) here hsite rfl⟩

/-- What the resolver has found for a reference is in the table when the reference is evaluated. -/
theorem getElem?_depths_of_site {console : Console} {root a : Activity}
    (hroot : root ∈ ((start console).after steps).begins step) (hi : root.Includes a)
    {checked : Checked} (hc : checked ∈ (start console).gather accepts (steps ++ [step]))
    {site : Site} (hsite : site ∈ sites checked.program) (hk : ((start console).setting
      (steps ++ [step])).Agrees a.machine.depths) {d : Nat} (hd : site.depth? = some d) :
    a.machine.depths[site.id]? = some d := by
  have hafter : (start console).after (steps ++ [step]) = ((start console).after steps).step step :=
    List.foldl_append
  have hid : site.id ∈ Stmt.idsOfAll checked.program := by
    rw [← Stmt.map_id_sitesOfAll [] checked.program]
    exact List.mem_map_of_mem hsite
  have htable : a.machine.depths[site.id]? = checked.depths.lookup site.id := by
    rw [hi.depths_eq, depths_of_begins hroot, ← hafter]
    exact (bounded_start console).getElem?_depths hc hid
  cases hl : a.machine.depths[site.id]? with
  | none =>
    have hmem := mem_depths hc hsite hd
    rw [htable] at hl
    exact absurd (List.lookup_eq_none_iff.1 hl _ hmem) (by simp)
  | some d' => exact hd ▸ ((hk site (mem_references hc hsite) d' hl).1).symm

end Session

open Session Run in
/-- In the frames of a session `self` and `super` are the same at all times, from the making of the
frame on. A `super` of an accepted program lies in a method of a class with a superclass, directly
or in blocks and functions there. Whenever it is evaluated, it is found together with a `self`: the
method is looked for in the class that was inherited when the frame around the methods was made, and
bound to the instance that `self` is at that place. -/
theorem super_static_self_dynamic (console : Console) (steps : List Step) (step : Step) :
    (∀ m, (start console).Passes (steps ++ [step]) m →
      m.heap.Fixed ((start console).after (steps ++ [step])).machine.heap ∧
      ∀ m', (start console).Passes (steps ++ [step]) m' → ∀ f frame frame',
        m.heap.frame? f = some frame → m'.heap.frame? f = some frame' →
        frame'.bindings.lookup "self" = frame.bindings.lookup "self" ∧
          frame'.bindings.lookup "super" = frame.bindings.lookup "super") ∧
    ∀ root ∈ ((start console).after steps).begins step, ∀ n id line name m,
      root.Includes ⟨n + 1, .eval (.superRef id line name), m⟩ →
      ∀ checked ∈ (start console).gather accepts (steps ++ [step]),
        id ∈ Stmt.idsOfAll checked.program →
        ∃ site ∈ sites checked.program, site.id = id ∧ site.use = .super ∧
          ∃ heir ref methods d f c i, site.context.InHeir heir ref methods d ∧
            m.heap.ancestor? m.frame (d + 1) = some f ∧
            (start console).Inherits (steps ++ [step]) heir ref methods c f ∧
            site.context.scopes.depth? "self" = some d ∧
            m.heap.getAt? m.frame d "self" = some (.object i) ∧
            superAndSelf m id = .ok (c, i) ∧
            SearchesFor name c i (eval (n + 1) (.superRef id line name)) m := by
  refine ⟨?_, ?_⟩
  · intro m hm
    refine ⟨hm.fixed, ?_⟩
    intro m' hm' f frame frame' hf hf'
    have heq (name : String) (hn : ¬IsPlain name) := hm.fixed.lookup_eq hm'.fixed hf hf' hn
    exact ⟨heq "self" fun hp => hp.1 rfl, heq "super" fun hp => hp.2 rfl⟩
  · intro root hroot n id line name m hi checked hc hid
    have hroot' := mem_gather_append hroot
    obtain ⟨site, hsite, rfl, huse, hname, hs, heir, ref, methods, d, hheir⟩ :=
      stands_of_super hroot' hi hc hid
    have hdepth : site.depth? = some (d + 1) := by
      rw [Site.depth?, hname]
      exact hheir.depth?_super
    have hd : m.depths[site.id]? = some (d + 1) :=
      getElem?_depths_of_site hroot hi hc hsite hs.depths hdepth
    -- the frames for the scopes of `super` and of `self`
    obtain ⟨f, hf, hopened, hsuper⟩ := hs.chain.ancestor hheir.getElem?_super
    obtain ⟨method, -, hself⟩ := hheir.getElem?_self
    obtain ⟨g, hg, -, hself⟩ := hs.chain.ancestor hself
    obtain ⟨v, hv⟩ := Option.isSome_iff_exists.1 (hsuper "super" rfl)
    obtain ⟨c, rfl⟩ := (hs.heap.get? hv).super rfl
    obtain ⟨u, hu⟩ := Option.isSome_iff_exists.1 (hself "self" rfl)
    obtain ⟨i, rfl⟩ := (hs.heap.get? hu).self rfl
    have hat : m.heap.getAt? m.frame d "self" = some (.object i) := by
      rw [Heap.getAt?, hg]
      exact hu
    have hfound : superAndSelf m site.id = .ok (c, i) := by
      simp only [superAndSelf, hd, Heap.getAt?, hf, hg, Option.bind_some, hv, hu]
    have hinherits := inherits_of_opened hopened ⟨root, hroot', _, hi, .inl rfl⟩ hv
    exact ⟨site, hsite, rfl, huse, heir, ref, methods, d, f, c, i, hheir, hf, hinherits,
      hheir.depth?_self, hat, hfound, searchesFor_superMethod hfound line name⟩

open Session Run in
/-- The constructor of `B` asks for the `m` of its superclass, which is looked for in `A` and bound
to the new instance. -/
theorem super_static_self_dynamic_constructor :
    ∃ text, text = "class A\x7bdef m()\x7b\x7d\x7d\n" ++
        "class B inherits A\x7bdef constructor()\x7bsuper.m\x7d\x7d\nB()" ∧
      ∃ checked ∈ (start default).accepts (.source 9 text), 1 ∈ Stmt.idsOfAll checked.program ∧
      ∃ root ∈ (start default).begins (.source 9 text),
        ∃ m, root.Includes ⟨3, .eval (.superRef 1 2 ⟨"m", 2⟩), m⟩ ∧
          ∃ heir ref methods f c i, (start default).Inherits [.source 9 text] heir ref methods c f ∧
            superAndSelf m 1 = .ok (c, i) ∧
            SearchesFor ⟨"m", 2⟩ c i (eval 3 (.superRef 1 2 ⟨"m", 2⟩)) m := by
  let declA : Stmt := .classDecl ⟨"A", 1⟩ none [⟨⟨"m", 1⟩, [], []⟩]
  let methodsB : List (Routine Stmt) :=
    [⟨⟨"constructor", 2⟩, [], [.expr (.superRef 1 2 ⟨"m", 2⟩)]⟩]
  let program : Program :=
    [declA, .classDecl ⟨"B", 2⟩ (some ⟨0, ⟨"A", 2⟩⟩) methodsB,
      .expr (.call (.variable ⟨2, ⟨"B", 3⟩⟩) 3 [])]
  refine ⟨_, rfl, ?_⟩
  have hcheck : check 0 ("class A\x7bdef m()\x7b\x7d\x7d\n" ++
      "class B inherits A\x7bdef constructor()\x7bsuper.m\x7d\x7d\nB()") =
        (.ok ⟨program, [(1, 2)]⟩, 3) := by
    with_unfolding_all rfl
  generalize "class A\x7bdef m()\x7b\x7d\x7d\n" ++
    "class B inherits A\x7bdef constructor()\x7bsuper.m\x7d\x7d\nB()" = text at hcheck ⊢
  have hc : (⟨program, [(1, 2)]⟩ : Checked) ∈ (start default).accepts (.source 9 text) := by
    simp only [accepts, Option.mem_def, show (start default).nextId = 0 from rfl, hcheck,
      Except.toOption]
  let m₀ : Machine := (start default).machine.addDepths [(1, 2)]
  have hglobal (id : Nat) (hid : 1 ≠ id) : m₀.depths[id]? = none := by
    simp [m₀, Machine.addDepths, start, Machine.start, hid]
  have hfound {id : Nat} {name : Name} {m : Machine} {v : Value} (hd : m.depths[id]? = none)
      (hg : m.heap.get? m.globals name.text = some v) : lookUp id name m = .ok v m := by
    simp only [lookUp, frameOf, hd, Option.bind_some, hg]
  let classA : Class := ⟨⟨0, "A", [⟨⟨⟨"m", 1⟩, [], []⟩, ⟨0⟩, false⟩]⟩, []⟩
  let m₁ : Machine := (exec 9 declA).final m₀
  have hA : lookUpClass ⟨0, ⟨"A", 2⟩⟩ m₁ = .ok classA m₁ := by
    have hvalue : lookUp 0 ⟨"A", 2⟩ m₁ = .ok (.classValue classA) m₁ :=
      hfound (hglobal 0 (by decide)) rfl
    simp only [lookUpClass, bind, EStateM.bind, hvalue]
    rfl
  let m₂ : Machine := declareHeir ⟨"B", 2⟩ methodsB classA m₁
  let methodB : Closure :=
    ⟨⟨⟨"constructor", 2⟩, [], [.expr (.superRef 1 2 ⟨"m", 2⟩)]⟩, m₁.nextFrame, true⟩
  let classB : Class := ⟨⟨m₁.heap.nextStamp, "B", [methodB]⟩, classA.layers⟩
  have hB : eval 7 (.variable ⟨2, ⟨"B", 3⟩⟩) m₂ = .ok (.classValue classB) m₂ :=
    hfound (hglobal 2 (by decide)) (get?_declareHeir rfl)
  let root : Activity := ⟨9, .interpret program, m₀⟩
  have hroot : root ∈ (start default).begins (.source 9 text) := Option.mem_map_of_mem _ hc
  -- past the two declarations to the call, and into the constructor
  have hdeclared : root.Includes
      ⟨9, .interpret [.expr (.call (.variable ⟨2, ⟨"B", 3⟩⟩) 3 [])], m₂⟩ :=
    (Relation.ReflTransGen.single (.programNext rfl (by rintro v ⟨⟩))).tail
      (.programNext (exec_classDecl hA) (by rintro v ⟨⟩))
  have hargs : evalAll 7 [] m₂ = .ok [] m₂ := rfl
  have harity : checkCall 3 (.classValue classB) 0 m₂ = .ok () m₂ := rfl
  have hcall : root.Includes ⟨7, .call (.classValue classB) [], m₂⟩ :=
    ((hdeclared.tail .programFirst).tail .expr).tail (.call hB hargs harity)
  have hconstructor : classB.constructor? = some methodB := rfl
  have happly := hcall.tail (.construct hconstructor rfl rfl)
  have hi := ((happly.tail (.routineBody rfl (by decide))).tail .firstStmt).tail .expr
  have hid : 1 ∈ Stmt.idsOfAll program := by decide
  obtain ⟨site, -, -, -, heir, ref, methods, d, f, c, i, -, -, hinherits, -, -, hself, hsearch⟩ :=
    (super_static_self_dynamic default [] (.source 9 text)).2 root hroot _ _ _ _ _ hi _
      (mem_gather_append hc) hid
  exact ⟨_, hc, hid, root, hroot, _, hi, heir, ref, methods, f, c, i, hinherits, hself, hsearch⟩

end Jal
