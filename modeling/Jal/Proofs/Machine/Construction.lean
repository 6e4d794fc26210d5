import Jal.Proofs.Machine.Lasting

namespace Jal

/-- The method is the last of its name among the class's own, or the superclass finds it and there
is none of that name here. -/
inductive Class.Finds (name : String) : Class → Closure → Prop where
  | own {c : Class} {method : Closure} {before after : List Closure}
      (hs : c.own.methods = before ++ method :: after) (hn : method.name = name)
      (hlast : ∀ later ∈ after, later.name ≠ name) : Finds name c method
  | inherited {c parent : Class} {method : Closure}
      (hnone : ∀ other ∈ c.own.methods, other.name ≠ name) (hp : c.superclass? = some parent)
      (h : Finds name parent method) : Finds name c method

theorem Layer.method?_eq_some_iff {l : Layer} {name : String} {method : Closure} :
    l.method? name = some method ↔ ∃ before after, l.methods = before ++ method :: after ∧
      method.name = name ∧ ∀ later ∈ after, later.name ≠ name := by
  rw [method?, List.find?_eq_some_iff_append, beq_iff_eq]
  constructor
  · rintro ⟨hn, after, before, hs, hlast⟩
    refine ⟨before.reverse, after.reverse, ?_, hn, fun later hl => ?_⟩
    · rw [List.reverse_eq_iff.1 hs, List.reverse_append, List.reverse_cons, List.append_assoc,
        List.singleton_append]
    · simpa using hlast later (List.mem_reverse.1 hl)
  · rintro ⟨before, after, hs, hn, hlast⟩
    refine ⟨hn, after.reverse, before.reverse, ?_, fun later hl => ?_⟩
    · rw [hs, List.reverse_append, List.reverse_cons, List.append_assoc, List.singleton_append]
    · simpa using hlast later (List.mem_reverse.1 hl)

theorem Layer.method?_eq_none_iff {l : Layer} {name : String} :
    l.method? name = none ↔ ∀ other ∈ l.methods, other.name ≠ name := by
  simp [method?]

/-- A method that a class has not of its own is that of its superclass. -/
theorem Class.method?_eq (c : Class) (name : String) :
    c.method? name = (c.own.method? name).or (c.superclass?.bind (·.method? name)) := by
  obtain ⟨own, inherited⟩ := c
  rw [method?, layers, List.findSome?_cons]
  cases ho : own.method? name with
  | some method => rfl
  | none => cases inherited <;> rfl

/-- The search through the layers of a class is the one along its superclasses. -/
theorem Class.method?_eq_some_iff {c : Class} {name : String} {method : Closure} :
    c.method? name = some method ↔ c.Finds name method := by
  constructor
  · obtain ⟨own, inherited⟩ := c
    induction inherited generalizing own with
    | nil =>
      intro h
      rw [method?_eq] at h
      obtain ⟨before, after, hs, hn, hlast⟩ :=
        Layer.method?_eq_some_iff.1 ((Option.or_eq_some_iff.1 h).resolve_right (by rintro ⟨-, ⟨⟩⟩))
      exact .own hs hn hlast
    | cons l rest ih =>
      intro h
      rw [method?_eq] at h
      rcases Option.or_eq_some_iff.1 h with ho | ⟨hnone, hp⟩
      · obtain ⟨before, after, hs, hn, hlast⟩ := Layer.method?_eq_some_iff.1 ho
        exact .own hs hn hlast
      · exact .inherited (Layer.method?_eq_none_iff.1 hnone) rfl (ih l hp)
  · intro h
    induction h with
    | own hs hn hlast =>
      rw [method?_eq, Layer.method?_eq_some_iff.2 ⟨_, _, hs, hn, hlast⟩, Option.some_or]
    | inherited hnone hp _ ih =>
      rw [method?_eq, Layer.method?_eq_none_iff.2 hnone, Option.none_or, hp, Option.bind_some, ih]

/-- The class has the routines as its own methods, in their order, and inherits from the parent.
Those that are named so are its constructors. -/
structure Class.Declared (c : Class) (methods : List (Routine Stmt)) (parent : Option Class) :
    Prop where
  own : c.own.methods.map Closure.routine = methods
  constructors : ∀ method ∈ c.own.methods, method.isConstructor = (method.name == constructorName)
  superclass : c.superclass? = parent

/-- A declaration that succeeds binds its name to a class with the methods of its body. -/
theorem Run.declareClass_eq_ok {m m' : Machine} {name : Name} {superclass : Option Reference}
    {methods : List (Routine Stmt)} (h : declareClass name superclass methods m = .ok () m') :
    ∃ parent c heap, superclass.mapM lookUpClass m = .ok parent m ∧ c.Declared methods parent ∧
      m' = { m with heap := Heap.define heap m.frame name.text (.classValue c) } := by
  obtain ⟨parent, m₁, hparent, h⟩ := bind_eq_ok h
  obtain ⟨_, m₂, hd, h⟩ := bind_eq_ok h
  obtain ⟨f, m₃, hf, h⟩ := bind_eq_ok h
  obtain ⟨stamp, m₄, hs, h⟩ := bind_eq_ok h
  obtain ⟨rfl, -⟩ := superclass_eq_ok hparent
  cases hd
  cases hs
  cases h
  let own : Layer := ⟨m₃.heap.nextStamp, name.text, methods.map fun r => ⟨r, f, r.isConstructor⟩⟩
  refine ⟨parent, ⟨own, (parent.map Class.layers).getD []⟩, m₃.heap.newStamp.2, hparent,
    ⟨?_, ?_, ?_⟩, ?_⟩
  · rw [List.map_map]
    exact List.map_id'' (fun _ => rfl) methods
  · intro method hm
    obtain ⟨r, -, rfl⟩ := List.mem_map.1 hm
    rfl
  · cases parent <;> rfl
  · cases parent <;> cases hf <;> rfl

/-- In the current frame each parameter has the value of its argument. Of two parameters of one name
the later counts. -/
structure Machine.Binds (m : Machine) (params : List Name) (arguments : List Value) : Prop where
  count : arguments.length = params.length
  bound : ∀ p ∈ params, m.heap.has m.frame p.text = true
  value : ∀ (k : Nat) (p : Name) (v : Value), params[k]? = some p → arguments[k]? = some v →
    (∀ (l : Nat) (q : Name), k < l → params[l]? = some q → q.text ≠ p.text) →
      m.heap.get? m.frame p.text = some v

namespace Run

variable {m m' : Machine} {n : Nat}

theorem lookup_foldl_set_of_ne {pairs : List (Name × Value)} {b : Bindings} {name : String}
    (h : ∀ pair ∈ pairs, pair.1.text ≠ name) :
    (pairs.foldl (fun b (p, v) => Bindings.set b p.text v) b).lookup name = b.lookup name := by
  induction pairs generalizing b with
  | nil => rfl
  | cons pair rest ih =>
    rw [List.foldl_cons, ih fun q hq => h q (List.mem_cons_of_mem _ hq)]
    exact Bindings.lookup_set_of_ne b _ (h pair List.mem_cons_self).symm

theorem lookup_bindArguments_last {params : List Name} {arguments : List Value} {k : Nat}
    {p : Name} {v : Value} (hp : params[k]? = some p) (hv : arguments[k]? = some v)
    (hlast : ∀ (l : Nat) (q : Name), k < l → params[l]? = some q → q.text ≠ p.text) :
    (bindArguments params arguments).lookup p.text = some v := by
  have hpair : (params.zip arguments)[k]? = some (p, v) :=
    List.getElem?_zip_eq_some.2 ⟨hp, hv⟩
  obtain ⟨hk, hpair⟩ := List.getElem?_eq_some_iff.1 hpair
  have hsplit : params.zip arguments =
      (params.zip arguments).take k ++ (p, v) :: (params.zip arguments).drop (k + 1) := by
    rw [← hpair, List.getElem_cons_drop, List.take_append_drop]
  rw [bindArguments, hsplit, List.foldl_append, List.foldl_cons, lookup_foldl_set_of_ne]
  · exact Bindings.lookup_set_self _ _ _
  · intro q hq
    obtain ⟨l, hl⟩ := List.mem_iff_getElem?.1 hq
    rw [List.getElem?_drop] at hl
    have hparam := (List.getElem?_zip_eq_some (z := (q.1, q.2))).1 hl
    exact hlast (k + 1 + l) q.1 (by omega) hparam.1

/-- Where a body begins, its parameters are bound. -/
theorem binds_enterCall {params : List Name} {arguments : List Value} {outer f : FrameId}
    (hcount : arguments.length = params.length)
    (hf : newFrame (bindArguments params arguments) outer m = .ok f m') :
    (m'.enterCall f).Binds params arguments := by
  cases hf
  have hget (name : String) : Heap.get? (m.heap.newFrame (bindArguments params arguments)
      (some outer)).2 m.nextFrame name = (bindArguments params arguments).lookup name := by
    have hframe := Heap.frame?_newFrame_self m.heap (bindArguments params arguments) (some outer)
    rw [Heap.get?, Machine.nextFrame]
    exact congrArg (Option.bind · fun frame => frame.bindings.lookup name) hframe
  refine ⟨hcount, fun p hp => ?_, fun k p v hp hv hlast => ?_⟩
  · rw [Heap.has]
    refine (congrArg Option.isSome (hget p.text)).trans ?_
    refine isSome_lookup_foldl_set (.inl ⟨p, ?_, rfl⟩)
    rwa [List.map_fst_zip (Nat.le_of_eq hcount.symm)]
  · exact (hget p.text).trans (lookup_bindArguments_last hp hv hlast)

end Run

def Machine.nextInstance (m : Machine) : InstanceId := ⟨m.heap.instances.size⟩

/-- The run of the constructor on the arguments begins. The instance has just been made, and the
method is closed in a frame of its own that has it as `self`. -/
structure Activity.Constructs (b : Activity) (c : Class) (method : Closure)
    (arguments : List Value) (i : InstanceId) : Prop where
  made : b.machine.heap.instance? i = some ⟨c, []⟩
  bound : ∃ f, b.task = .apply { method with frame := f } arguments ∧
    b.machine.heap.frame? f = some ⟨[("self", .object i)], some method.frame⟩

theorem Heap.instance?_newInstance_self (h : Heap) (c : Class) :
    (h.newInstance c).2.instance? (h.newInstance c).1 = some ⟨c, []⟩ := by
  rw [newInstance, instance?, Array.getElem?_push_size]

theorem Machine.instance?_nextInstance (m : Machine) : m.heap.instance? m.nextInstance = none :=
  Array.getElem?_eq_none (Nat.le_refl _)

theorem Heap.Fixed.get? {h h' : Heap} (k : h.Fixed h') {f : FrameId} {name : String} {v : Value}
    (hn : ¬IsPlain name) (hv : h.get? f name = some v) : h'.get? f name = some v := by
  obtain ⟨frame, hf, hb⟩ := Option.bind_eq_some_iff.1 hv
  obtain ⟨frame', hf', hsame⟩ := k f frame hf
  rw [Heap.get?, hf', Option.bind_some, hsame name hn, hb]

namespace Run

variable {c : Class} {arguments : List Value}

/-- Where a class has a constructor, a call that succeeds has run it. -/
theorem call_classValue_eq_ok {v : Value}
    (h : call (n + 1) (.classValue c) arguments m = .ok v m') :
    v = .object m.nextInstance ∧
      (c.constructor? = none ∧ m' = { m with heap := (m.heap.newInstance c).2 } ∨
        ∃ method bound m₁ u, c.constructor? = some method ∧
          Activity.Part ⟨n + 1, .call (.classValue c) arguments, m⟩
            ⟨n, .apply bound arguments, m₁⟩ ∧
          apply n bound arguments m₁ = .ok u m') := by
  cases hc : c.constructor? with
  | none =>
    simp only [call, hc] at h
    cases h
    exact ⟨rfl, .inl ⟨rfl, rfl⟩⟩
  | some method =>
    simp only [call, hc] at h
    obtain ⟨i, m₁, hi, h⟩ := bind_eq_ok h
    obtain ⟨bound, m₂, hb, h⟩ := bind_eq_ok h
    obtain ⟨u, m₃, ha, h⟩ := bind_eq_ok h
    cases h
    refine ⟨?_, .inr ⟨method, bound, m₂, u, rfl, .construct hc hi hb, ha⟩⟩
    cases hi
    rfl

/-- A constructor that succeeds makes the call of its class succeed. -/
theorem call_classValue_of_part {bound : Closure} {m₁ : Machine} {u : Value}
    (hp : Activity.Part ⟨n + 1, .call (.classValue c) arguments, m⟩ ⟨n, .apply bound arguments, m₁⟩)
    (h : apply n bound arguments m₁ = .ok u m') :
    call (n + 1) (.classValue c) arguments m = .ok (.object m.nextInstance) m' := by
  cases hp with
  | construct hc hi hb =>
    simp only [call, hc]
    rw [bind_of_ok hi, bind_of_ok hb, bind_of_ok h]
    cases hi
    rfl

/-- A body that finishes makes the application succeed, if there is something to give back. -/
theorem apply_of_body {closure : Closure} {m₁ m₂ : Machine} {f : FrameId} {flow : Flow} {v : Value}
    (hf : newFrame (bindArguments closure.routine.params arguments) closure.frame m = .ok f m₁)
    (hb : inCall f (execAll n closure.routine.body) m₁ = .ok flow m₂)
    (hr : result closure flow m₂ = .ok v m') : apply (n + 1) closure arguments m = .ok v m' := by
  rw [apply, bind_of_ok hf, bind_of_ok hb, hr]

/-- What a call of a class begins is the run of its constructor. -/
theorem constructs_of_part {b : Activity}
    (h : Activity.Part ⟨n + 1, .call (.classValue c) arguments, m⟩ b) :
    ∃ method, c.constructor? = some method ∧ b.Constructs c method arguments m.nextInstance := by
  cases h with
  | @construct _ _ _ _ method i m₁ bound m₂ hc hi hb =>
    cases hi
    rw [bindSelf_eq] at hb
    cases hb
    refine ⟨method, hc, ?_, _, rfl, Heap.frame?_newFrame_self _ _ _⟩
    exact m.heap.instance?_newInstance_self c

/-- A call of a class that succeeds gives a new instance of it. -/
theorem instance_of_call {v : Value} (h : call (n + 1) (.classValue c) arguments m = .ok v m') :
    v = .object m.nextInstance ∧
      ∃ o, m'.heap.instance? m.nextInstance = some o ∧ o.ofClass = c := by
  obtain ⟨hv, ⟨-, rfl⟩ | ⟨method, bound, m₁, u, -, hp, ha⟩⟩ := call_classValue_eq_ok h
  · exact ⟨hv, _, m.heap.instance?_newInstance_self c, rfl⟩
  · obtain ⟨_, -, hmade⟩ := constructs_of_part hp
    have hk := ((respecting respected_kept n).apply bound arguments).ok ha
    obtain ⟨o, ho, hclass, -⟩ := hk.1.instances _ _ hmade.made
    exact ⟨hv, o, ho, hclass⟩

theorem result_of_self {closure : Closure} {flow : Flow} {v : Value}
    (hc : closure.isConstructor = true) (hv : m.heap.get? closure.frame "self" = some v) :
    result closure flow m = .ok v m := by
  have hget : (get : Run Machine) m = .ok m m := rfl
  simp only [result, hc, if_true, bind, EStateM.bind, hget, hv]
  rfl

end Run

namespace Activity

open Run

variable {w : Setting}

/-- A constructor that is begun has an instance as its `self`, and that is what it gives back once
its body has finished. -/
theorem Ready.result_constructor {n : Nat} {c : Closure} {arguments : List Value}
    {m m₁ m₂ : Machine} {f : FrameId} {flow : Flow}
    (hr : Ready w ⟨n + 1, .apply c arguments, m⟩) (ho : OpensIn w ⟨n + 1, .apply c arguments, m⟩)
    (hc : c.isConstructor = true)
    (hf : newFrame (bindArguments c.routine.params arguments) c.frame m = .ok f m₁)
    (hb : inCall f (execAll n c.routine.body) m₁ = .ok flow m₂) :
    ∃ i, m.heap.get? c.frame "self" = some (.object i) ∧
      result c flow m₂ = .ok (.object i) m₂ := by
  obtain ⟨hm, hfits, -, -⟩ := id hr
  obtain ⟨v, hv⟩ := Option.isSome_iff_exists.1 (hfits.self hc)
  obtain ⟨i, rfl⟩ := (hm.heap.get? hv).self rfl
  refine ⟨i, hv, result_of_self hc ?_⟩
  -- neither the frame of the arguments nor the body changes any `self`
  have hsettled (hd : m₁.depth < maxDepth) :
      Settled ⟨n, .execAll c.routine.body, m₁.enterCall f⟩ :=
    (hr.includes ho (.single (.routineBody hf hd))).settled (ho.part (.routineBody hf hd))
  have hbody := (Settles.inCall fun hd => (hsettled hd).settles rfl).start
  rw [final_ok hb] at hbody
  have hframe :=
    respects_newFrame respected_fixed (bindArguments c.routine.params arguments) c.frame m
  rw [final_ok hf] at hframe
  exact Heap.Fixed.get? (hframe.trans hbody) (fun hp : IsPlain "self" => hp.1 rfl) hv

end Activity

end Jal
