import Jal.Proofs.Machine.Course

namespace Jal

variable {w : Setting} {m : Machine}

namespace Lookup

/-- The evaluation of the reference raises no error: a read finds a value, `super` a class and an
instance, and an assignment a variable to change. -/
def Succeeds (l : Lookup) : Prop :=
  match l.use with
  | .super => ∃ c i, Run.superAndSelf l.machine l.id = .ok (c, i)
  | .write => ∀ line v, ∃ m', Run.assign ⟨l.id, ⟨l.name, line⟩⟩ v l.machine = .ok v m'
  | _ => ∀ line, ∃ v, Run.lookUp l.id ⟨l.name, line⟩ l.machine = .ok v l.machine

/-- The reference is the one at the site, `d` frames out is a frame that was opened for the scope in
which the resolver found the name, and it has the name, unless this is an assignment in the
initializer of the name's own `let`. -/
structure Found (l : Lookup) (opened : FrameId → ScopeNode → Prop) (site : Site) (d : Nat) :
    Prop where
  id : site.id = l.id
  name : site.name = l.name
  use : site.use = l.use
  depth : site.depth? = some d
  frame : ∃ node scope f, site.context[d]? = some (node, scope) ∧
    l.machine.heap.ancestor? l.machine.frame d = some f ∧ opened f node ∧
      (l.machine.heap.has f l.name = true ∨
        l.use = .write ∧ site.initOf = some l.name ∧ d = 0)
  succeeds : l.Succeeds ∨ l.use = .write ∧ site.initOf = some l.name ∧ d = 0

end Lookup

namespace Run

variable {id d : Nat} {f : FrameId}

theorem frameOf_of_entry (hd : m.depths[id]? = some d)
    (hf : m.heap.ancestor? m.frame d = some f) : frameOf m id = some f := by
  simp only [frameOf, hd, hf]

theorem lookUp_of_has (hf : frameOf m id = some f) {name : String}
    (hn : m.heap.has f name = true) (line : Nat) :
    ∃ v, lookUp id ⟨name, line⟩ m = .ok v m := by
  obtain ⟨v, hv⟩ := Option.isSome_iff_exists.1 hn
  exact ⟨v, by simp only [lookUp, hf, Option.bind_some, hv]⟩

theorem assign_of_has (hf : frameOf m id = some f) {name : String}
    (hn : m.heap.has f name = true) (line : Nat) (v : Value) :
    ∃ m', assign ⟨id, ⟨name, line⟩⟩ v m = .ok v m' := by
  simp only [assign, hf, Option.filter_some, hn, if_true]
  exact ⟨_, rfl⟩

/-- A frame with a `super`, and right inside it one with a `self`. -/
theorem superAndSelf_of_has (hm : m.heap.Fits w) (hd : m.depths[id]? = some (d + 1))
    (hf : m.heap.ancestor? m.frame (d + 1) = some f) (hs : m.heap.has f "super" = true)
    {g : FrameId} (hg : m.heap.ancestor? m.frame d = some g) (ho : m.heap.has g "self" = true) :
    ∃ c i, superAndSelf m id = .ok (c, i) := by
  obtain ⟨v, hv⟩ := Option.isSome_iff_exists.1 hs
  obtain ⟨c, rfl⟩ := (hm.get? hv).super rfl
  obtain ⟨u, hu⟩ := Option.isSome_iff_exists.1 ho
  obtain ⟨i, rfl⟩ := (hm.get? hu).self rfl
  refine ⟨c, i, ?_⟩
  simp only [superAndSelf, hd, Heap.getAt?, hf, hg, Option.bind_some, hv, hu]

end Run

theorem Context.getElem?_scopes {ctx : Context} {d : Nat} {node : ScopeNode} {scope : Scope}
    (h : ctx[d]? = some (node, scope)) : ctx.scopes[d]? = some scope := by
  rw [scopes, List.getElem?_map, h]
  rfl

theorem Context.exists_node {ctx : Context} {d : Nat} {scope : Scope}
    (h : ctx.scopes[d]? = some scope) : ∃ node, ctx[d]? = some (node, scope) := by
  rw [scopes, List.getElem?_map] at h
  obtain ⟨⟨node, scope⟩, hn, rfl⟩ := Option.map_eq_some_iff.1 h
  exact ⟨node, hn⟩

/-- `d` frames out is the frame for the scope in which the resolver found the name. It has the name
if that is ready. -/
theorem Heap.Chain.find {h : Heap} {f : FrameId} {ctx : Context} (hc : h.Chain w f ctx)
    {name : String} {d : Nat} (hd : ctx.scopes.depth? name = some d) :
    ∃ node scope ready g, ctx[d]? = some (node, scope) ∧ scope.lookup name = some ready ∧
      h.ancestor? f d = some g ∧ w.opened g node ∧ (ready = true → h.has g name = true) := by
  obtain ⟨scope, ready, hs, hl⟩ := Scopes.exists_of_depth? hd
  obtain ⟨node, hn⟩ := Context.exists_node hs
  obtain ⟨g, hg, ho, hb⟩ := hc.ancestor hn
  exact ⟨node, scope, ready, g, hn, hl, hg, ho, fun hr => hb name (hr ▸ hl)⟩

/-- Where the frames are those for the scopes of the site, the name is in the frame for its scope,
or it is not ready, as its own initializer is being run. -/
theorem Machine.Stands.find {site : Site} (hs : m.Stands w site.context [site]) {d : Nat}
    (hd : m.depths[site.id]? = some d) :
    w.accepted site ∧ site.depth? = some d ∧ ∃ node scope f, site.context[d]? = some (node, scope) ∧
      m.heap.ancestor? m.frame d = some f ∧ w.opened f node ∧
      (m.heap.has f site.name = true ∨
        d = 0 ∧ site.initOf = some site.name ∧ scope.lookup site.name = some false) := by
  have hk := hs.known site (List.mem_singleton_self site)
  obtain ⟨hdepth, ha⟩ := hs.depths site hk d hd
  obtain ⟨node, scope, ready, f, hn, hl, hf, ho, hb⟩ := hs.chain.find hdepth
  refine ⟨ha, hdepth, node, scope, f, hn, hf, ho, ?_⟩
  cases ready with
  | true => exact .inl (hb rfl)
  | false =>
    -- a name that is not ready is that of the variable whose initializer this is
    obtain ⟨rfl, hi⟩ := (w.orderly site hk).unready d scope site.name
      (Context.getElem?_scopes hn) hl
    exact .inr ⟨rfl, hi, hl⟩

/-- `self` and `super` are names that no `let` declares. -/
theorem Machine.Stands.find_plain {site : Site} (hs : m.Stands w site.context [site]) {d : Nat}
    (hd : m.depths[site.id]? = some d) (hp : ¬IsPlain site.name) :
    w.accepted site ∧ site.depth? = some d ∧ ∃ node scope f, site.context[d]? = some (node, scope) ∧
      m.heap.ancestor? m.frame d = some f ∧ w.opened f node ∧ m.heap.has f site.name = true := by
  obtain ⟨ha, hdepth, node, scope, f, hn, hf, ho, hb | ⟨-, hi, -⟩⟩ := hs.find hd
  · exact ⟨ha, hdepth, node, scope, f, hn, hf, ho, hb⟩
  · have hk := hs.known site (List.mem_singleton_self site)
    exact absurd ((w.orderly site hk).plain site.name hi) hp

namespace Activity

variable {n : Nat}

theorem found_read {ref : Reference} (hr : Ready w ⟨n, .eval (.variable ref), m⟩) {d : Nat}
    (hd : m.depths[ref.id]? = some d) :
    ∃ site, w.accepted site ∧
      Lookup.Found ⟨ref.id, ref.name.text, .read, m⟩ w.opened site d := by
  obtain ⟨-, ctx, initOf, hs⟩ := hr
  let site : Site := ⟨ref.id, ref.name.text, .read, ctx, initOf⟩
  have hs' : m.Stands w site.context [site] := hs
  obtain ⟨ha, hdepth, node, scope, f, hn, hf, ho, hb⟩ := hs'.find hd
  have hb : m.heap.has f ref.name.text = true := by
    rcases hb with hb | ⟨rfl, -, hl⟩
    · exact hb
    · -- the resolver lets no variable be read in its own initializer
      have hi : site.context.scopes.initializing site.name = false := w.allowed site ha
      have hc := Context.getElem?_scopes hn
      cases hx : site.context.scopes with
      | nil => simp [hx] at hc
      | cons first rest =>
        obtain rfl : first = scope := by simpa [hx] using hc
        simp [hx, Scopes.initializing, hl] at hi
  have hlook := Run.lookUp_of_has (Run.frameOf_of_entry hd hf) hb
  exact ⟨site, ha, rfl, rfl, rfl, hdepth, ⟨node, scope, f, hn, hf, ho, .inl hb⟩, .inl hlook⟩

theorem found_write {ref : Reference} {ctx : Context} {initOf : Option String}
    (hs : m.Stands w ctx [⟨ref.id, ref.name.text, .write, ctx, initOf⟩]) {d : Nat}
    (hd : m.depths[ref.id]? = some d) :
    ∃ site, w.accepted site ∧
      Lookup.Found ⟨ref.id, ref.name.text, .write, m⟩ w.opened site d := by
  let site : Site := ⟨ref.id, ref.name.text, .write, ctx, initOf⟩
  have hs' : m.Stands w site.context [site] := hs
  obtain ⟨ha, hdepth, node, scope, f, hn, hf, ho, hb⟩ := hs'.find hd
  refine ⟨site, ha, rfl, rfl, rfl, hdepth, ⟨node, scope, f, hn, hf, ho, ?_⟩, ?_⟩
  · exact hb.imp id fun h => ⟨rfl, h.2.1, h.1⟩
  · exact hb.imp (Run.assign_of_has (Run.frameOf_of_entry hd hf)) fun h => ⟨rfl, h.2.1, h.1⟩

theorem found_self {id line : Nat} (hr : Ready w ⟨n, .eval (.selfRef id line), m⟩) {d : Nat}
    (hd : m.depths[id]? = some d) :
    ∃ site, w.accepted site ∧ Lookup.Found ⟨id, "self", .self, m⟩ w.opened site d := by
  obtain ⟨-, ctx, initOf, hs⟩ := hr
  let site : Site := ⟨id, "self", .self, ctx, initOf⟩
  have hs' : m.Stands w site.context [site] := hs
  obtain ⟨ha, hdepth, node, scope, f, hn, hf, ho, hb⟩ := hs'.find_plain hd fun h => h.1 rfl
  have hlook := Run.lookUp_of_has (Run.frameOf_of_entry hd hf) hb
  exact ⟨site, ha, rfl, rfl, rfl, hdepth, ⟨node, scope, f, hn, hf, ho, .inl hb⟩, .inl hlook⟩

theorem found_super {id line : Nat} {method : Name}
    (hr : Ready w ⟨n, .eval (.superRef id line method), m⟩) {d : Nat}
    (hd : m.depths[id]? = some d) :
    ∃ site, w.accepted site ∧ Lookup.Found ⟨id, "super", .super, m⟩ w.opened site d := by
  obtain ⟨-, ctx, initOf, hs⟩ := hr
  let site : Site := ⟨id, "super", .super, ctx, initOf⟩
  have hk : w.known site := hs.known site (List.mem_singleton_self site)
  have hs' : m.Stands w site.context [site] := hs
  obtain ⟨ha, hdepth, node, scope, f, hn, hf, ho, hb⟩ := hs'.find_plain hd fun h => h.2 rfl
  refine ⟨site, ha, rfl, rfl, rfl, hdepth, ⟨node, scope, f, hn, hf, ho, .inl hb⟩, .inl ?_⟩
  -- the scope right inside that of `super` is that of `self`
  obtain ⟨scope', ready, hscope, hl⟩ := Scopes.exists_of_depth? hdepth
  obtain ⟨i, inner, rfl, hi, hself⟩ := (w.orderly site hk).super d scope' ready hscope hl
  obtain ⟨node', hi⟩ := Context.exists_node hi
  obtain ⟨g, hg, -, hbound⟩ := hs.chain.ancestor hi
  exact Run.superAndSelf_of_has hs.heap hd hf hb hg (hbound "self" hself)

/-- The scopes of a superclass reference have the name of the class already, which the frames do not
have yet. It is not the name that is looked for. -/
theorem found_superclass {name : Name} {ref : Reference} {methods : List (Routine Stmt)}
    (hr : Ready w ⟨n, .exec (.classDecl name (some ref) methods), m⟩) {d : Nat}
    (hd : m.depths[ref.id]? = some d) :
    ∃ site, w.accepted site ∧
      Lookup.Found ⟨ref.id, ref.name.text, .superclass name.text, m⟩ w.opened site d := by
  obtain ⟨-, ctx, hs⟩ := hr
  let site : Site :=
    ⟨ref.id, ref.name.text, .superclass name.text, ctx.bind name.text true, none⟩
  have hk : w.known site := hs.known site (List.mem_append_left _ (List.mem_singleton_self site))
  obtain ⟨hdepth, ha⟩ := hs.depths site hk d hd
  have hne : ref.name.text ≠ name.text := w.allowed site ha
  obtain ⟨scope, ready, hscope, hl⟩ := Scopes.exists_of_depth? hdepth
  have hready : ready = true := by
    cases ready with
    | true => rfl
    | false => exact absurd ((w.orderly site hk).unready d scope site.name hscope hl).2 nofun
  rw [hready] at hl
  -- among the scopes without the name of the class the look-up ends in the same place
  obtain ⟨node, hn⟩ := Context.exists_node hscope
  obtain ⟨scope', hn', hl'⟩ : ∃ scope', ctx[d]? = some (node, scope') ∧
      scope'.lookup ref.name.text = some true := by
    cases ctx with
    | nil => cases hn
    | cons entry outer =>
      cases d with
      | succ d => exact ⟨scope, hn, hl⟩
      | zero =>
        obtain ⟨rfl, rfl⟩ := Prod.mk.inj (Option.some.inj hn)
        exact ⟨entry.2, rfl, (lookup_cons_of_ne hne).symm.trans hl⟩
  obtain ⟨f, hf, ho, hb⟩ := hs.chain.ancestor hn'
  have hb := hb ref.name.text hl'
  have hlook := Run.lookUp_of_has (Run.frameOf_of_entry hd hf) hb
  exact ⟨site, ha, rfl, rfl, rfl, hdepth, ⟨node, scope, f, hn, hf, ho, .inl hb⟩, .inl hlook⟩

/-- A reference with an entry in the table is found where the resolver found it. -/
theorem Refers.found {a : Activity} {l : Lookup} (hl : a.Refers l) (hr : a.Ready w)
    (ho : a.OpensIn w) {d : Nat} (hd : l.machine.depths[l.id]? = some d) :
    ∃ site, w.accepted site ∧ l.Found w.opened site d := by
  cases hl with
  | «variable» => exact found_read hr hd
  | @assign n m ref value v m₁ h =>
    obtain ⟨hp, ctx, initOf, hs⟩ := hr
    have hvalue : Ready w ⟨n, .eval value, m⟩ :=
      ⟨hp.2, ctx, initOf, hs.mono (List.subset_append_left _ _)⟩
    -- the variable is looked for after the value is known
    have hs₁ := stands_after_eval hs (hvalue.done (ho.part .assign)) h
    exact found_write (hs₁.mono (List.subset_append_right _ _)) hd
  | self => exact found_self hr hd
  | super => exact found_super hr hd
  | superclass => exact found_superclass hr hd

end Activity

end Jal
