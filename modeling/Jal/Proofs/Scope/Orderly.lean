import Jal.Proofs.Scope.Sites

namespace Jal

theorem lookup_cons_of_ne {β : Type} {x y : String} {v : β} {l : List (String × β)}
    (h : x ≠ y) : ((y, v) :: l).lookup x = l.lookup x := by
  simp [List.lookup_cons, beq_false_of_ne h]

theorem eq_of_lookup_singleton {β : Type} {x y : String} {u v : β}
    (h : List.lookup x [(y, v)] = some u) : x = y ∧ u = v := by
  by_cases hx : x = y
  · rw [hx, List.lookup_cons_self] at h
    exact ⟨hx, (Option.some.inj h).symm⟩
  · rw [lookup_cons_of_ne hx] at h
    cases h

theorem Scope.lookup_ofParams (params : List Name) (name : String) :
    (Scope.ofParams params).lookup name =
      if params.any (·.text == name) then some true else none := by
  have h (scope : Scope) :
      (params.foldl (fun scope p => (p.text, true) :: scope) scope).lookup name =
        if params.any (·.text == name) then some true else scope.lookup name := by
    induction params generalizing scope with
    | nil => simp
    | cons p rest ih =>
      rw [List.foldl_cons, ih, List.any_cons]
      by_cases hp : p.text = name
      · simp [hp]
      · simp [hp, lookup_cons_of_ne (Ne.symm hp)]
  exact h []

theorem Scope.lookup_ofParams_ne (params : List Name) (name : String) :
    (Scope.ofParams params).lookup name ≠ some false := by
  rw [Scope.lookup_ofParams]
  split <;> simp

theorem Scope.lookup_ofParams_of_notMem {params : List Name} {name : String}
    (h : ∀ p ∈ params, p.text ≠ name) : (Scope.ofParams params).lookup name = none := by
  rw [Scope.lookup_ofParams, if_neg]
  simpa using h

theorem Scopes.exists_of_depth? {scopes : Scopes} {name : String} {d : Nat}
    (h : scopes.depth? name = some d) :
    ∃ scope ready, scopes[d]? = some scope ∧ scope.lookup name = some ready := by
  obtain ⟨hd, hs, -⟩ := List.findIdx?_eq_some_iff_getElem.1 h
  obtain ⟨ready, hr⟩ := Option.isSome_iff_exists.1 hs
  exact ⟨scopes[d], ready, List.getElem?_eq_getElem hd, hr⟩

/-- How the scopes around a place are made: the only name that can be not ready is that of the
variable whose initializer is being read, and `self` stands right inside `super`. -/
structure Context.Orderly (ctx : Context) (initOf : Option String) : Prop where
  unready : ∀ d scope name, ctx.scopes[d]? = some scope → scope.lookup name = some false →
    d = 0 ∧ initOf = some name
  super : ∀ d scope ready, ctx.scopes[d]? = some scope → scope.lookup "super" = some ready →
    ∃ i inner, d = i + 1 ∧ ctx.scopes[i]? = some inner ∧ inner.lookup "self" = some true
  plain : ∀ name, initOf = some name → IsPlain name

namespace Context.Orderly

variable {ctx : Context}

theorem nil : Orderly [] none := ⟨by simp [scopes_nil], by simp [scopes_nil], nofun⟩

/-- A scope of ready, plain names may be put inside. -/
theorem push (h : Orderly ctx none) (node : ScopeNode) {scope : Scope}
    (hready : ∀ name, scope.lookup name ≠ some false) (hsuper : scope.lookup "super" = none) :
    Orderly ((node, scope) :: ctx) none := by
  refine ⟨?_, ?_, nofun⟩
  · intro d s name hs hl
    cases d with
    | zero =>
      obtain rfl : scope = s := by simpa using hs
      exact absurd hl (hready name)
    | succ d => exact absurd (h.unready d s name hs hl).2 nofun
  · intro d s ready hs hl
    cases d with
    | zero =>
      obtain rfl : scope = s := by simpa using hs
      rw [hsuper] at hl
      cases hl
    | succ d =>
      obtain ⟨i, inner, rfl, hi, hself⟩ := h.super d s ready hs hl
      exact ⟨i + 1, inner, rfl, hi, hself⟩

theorem enterSelf (h : Orderly ctx none) (method : Routine Stmt) :
    Orderly (ctx.enterSelf method) none := by
  refine h.push _ ?_ (by decide)
  intro name hn
  exact absurd (eq_of_lookup_singleton hn).2 (by decide)

theorem enterSelf_enterSuper (h : Orderly ctx none) (name : Name)
    (superclass : Option Reference) (methods : List (Routine Stmt)) (method : Routine Stmt) :
    Orderly ((ctx.enterSuper name superclass methods).enterSelf method) none := by
  cases superclass with
  | none => exact h.enterSelf method
  | some ref =>
    refine ⟨?_, ?_, nofun⟩
    · intro d s x hs hl
      match d, hs with
      | 0, hs =>
        obtain rfl : [("self", true)] = s := Option.some.inj hs
        exact absurd (eq_of_lookup_singleton hl).2 (by decide)
      | 1, hs =>
        obtain rfl : [("super", true)] = s := Option.some.inj hs
        exact absurd (eq_of_lookup_singleton hl).2 (by decide)
      | d + 2, hs => exact absurd (h.unready d s x hs hl).2 nofun
    · intro d s ready hs hl
      -- the scope of `super` is the second one here, and that of `self` the first
      match d, hs with
      | 0, hs =>
        obtain rfl : [("self", true)] = s := Option.some.inj hs
        exact absurd (eq_of_lookup_singleton hl).1 (by decide)
      | 1, hs => exact ⟨0, [("self", true)], rfl, rfl, rfl⟩
      | d + 2, hs =>
        obtain ⟨i, inner, rfl, hi, hself⟩ := h.super d s ready hs hl
        exact ⟨i + 2, inner, rfl, hi, hself⟩

theorem enter (h : Orderly ctx none) {r : Routine Stmt} (hp : ∀ p ∈ r.params, IsPlain p.text) :
    Orderly (ctx.enter r) none :=
  h.push _ (fun name => Scope.lookup_ofParams_ne r.params name)
    (Scope.lookup_ofParams_of_notMem fun p hm => (hp p hm).2)

/-- The scopes after a name has been added. -/
theorem getElem?_scopes_bind {name : String} {ready : Bool} {d : Nat} {scope : Scope}
    (h : (ctx.bind name ready).scopes[d]? = some scope) :
    (∃ s, d = 0 ∧ ctx.scopes[0]? = some s ∧ scope = (name, ready) :: s) ∨
      ∃ i, d = i + 1 ∧ ctx.scopes[i + 1]? = some scope := by
  cases ctx with
  | nil => simp [Context.bind, Context.scopes_nil] at h
  | cons entry outer =>
    cases d with
    | zero => exact .inl ⟨entry.2, rfl, rfl, (Option.some.inj h).symm⟩
    | succ d => exact .inr ⟨d, rfl, h⟩

theorem exists_scopes_bind (name : String) (ready : Bool) {d : Nat} {scope : Scope}
    (h : ctx.scopes[d]? = some scope) :
    ∃ s, (ctx.bind name ready).scopes[d]? = some s ∧
      (s = scope ∨ s = (name, ready) :: scope) := by
  cases ctx with
  | nil => simp [Context.scopes_nil] at h
  | cons entry outer =>
    cases d with
    | zero => exact ⟨(name, ready) :: entry.2, rfl, .inr (by rw [← Option.some.inj h])⟩
    | succ d => exact ⟨scope, h, .inl rfl⟩

theorem bind (h : Orderly ctx none) {name : String} (hp : IsPlain name) (ready : Bool) :
    Orderly (ctx.bind name ready) (cond ready none (some name)) := by
  refine ⟨?_, ?_, ?_⟩
  · intro d scope x hs hl
    rcases getElem?_scopes_bind hs with ⟨s, rfl, hs', rfl⟩ | ⟨i, rfl, hs'⟩
    · by_cases hx : x = name
      · rw [hx, List.lookup_cons_self] at hl
        rw [Option.some.inj hl, hx]
        exact ⟨rfl, rfl⟩
      · rw [lookup_cons_of_ne hx] at hl
        exact absurd (h.unready 0 s x hs' hl).2 nofun
    · exact absurd (h.unready _ scope x hs' hl).2 nofun
  · intro d scope r hs hl
    -- a plain name neither is `super` nor hides a `self`
    have hd : ∃ s, ctx.scopes[d]? = some s ∧ s.lookup "super" = some r := by
      rcases getElem?_scopes_bind hs with ⟨s, rfl, hs', rfl⟩ | ⟨i, rfl, hs'⟩
      · rw [lookup_cons_of_ne hp.2.symm] at hl
        exact ⟨s, hs', hl⟩
      · exact ⟨scope, hs', hl⟩
    obtain ⟨s, hs, hl⟩ := hd
    obtain ⟨i, inner, rfl, hi, hself⟩ := h.super d s r hs hl
    obtain ⟨inner', hi', rfl | rfl⟩ := exists_scopes_bind name ready hi
    · exact ⟨i, inner', rfl, hi', hself⟩
    · refine ⟨i, _, rfl, hi', ?_⟩
      rw [lookup_cons_of_ne hp.1.symm]
      exact hself
  · intro x hx
    cases ready with
    | true => cases hx
    | false =>
      rw [← Option.some.inj hx]
      exact hp

end Context.Orderly

def AllOrderly (found : List Site) : Prop := ∀ site ∈ found, site.context.Orderly site.initOf

theorem AllOrderly.append {xs ys : List Site} (hx : AllOrderly xs) (hy : AllOrderly ys) :
    AllOrderly (xs ++ ys) := fun site hs =>
  (List.mem_append.1 hs).elim (hx site) (hy site)

mutual

theorem Expr.sites_context (ctx : Context) (initOf : Option String) :
    (e : Expr) → ∀ site ∈ e.sites ctx initOf, site.context = ctx ∧ site.initOf = initOf
  | .literal _ => nofun
  | .grouping e | .unary _ _ e | .get e _ => e.sites_context ctx initOf
  | .binary _ _ e e' | .logical _ e e' | .set e' _ e | .index e _ e' =>
    List.forall_mem_append.2 ⟨e.sites_context ctx initOf, e'.sites_context ctx initOf⟩
  | .variable _ | .selfRef _ _ | .superRef _ _ _ =>
    fun site hs => by rw [List.mem_singleton.1 hs]; exact ⟨rfl, rfl⟩
  | .assign _ e =>
    List.forall_mem_append.2 ⟨e.sites_context ctx initOf,
      fun site hs => by rw [List.mem_singleton.1 hs]; exact ⟨rfl, rfl⟩⟩
  | .indexSet e _ e' e'' =>
    List.forall_mem_append.2 ⟨List.forall_mem_append.2
      ⟨e.sites_context ctx initOf, e'.sites_context ctx initOf⟩, e''.sites_context ctx initOf⟩
  | .call e _ es =>
    List.forall_mem_append.2 ⟨e.sites_context ctx initOf, Expr.sitesOfAll_context ctx initOf es⟩
  | .array es => Expr.sitesOfAll_context ctx initOf es

theorem Expr.sitesOfAll_context (ctx : Context) (initOf : Option String) :
    (es : List Expr) →
      ∀ site ∈ Expr.sitesOfAll ctx initOf es, site.context = ctx ∧ site.initOf = initOf
  | [] => nofun
  | e :: rest =>
    List.forall_mem_append.2 ⟨e.sites_context ctx initOf, Expr.sitesOfAll_context ctx initOf rest⟩

end

theorem Expr.allOrderly {ctx : Context} {initOf : Option String} (h : ctx.Orderly initOf)
    (e : Expr) : AllOrderly (e.sites ctx initOf) := by
  intro site hs
  obtain ⟨hc, hi⟩ := e.sites_context ctx initOf site hs
  rwa [hc, hi]

theorem Expr.allOrderly_option {ctx : Context} {initOf : Option String} (h : ctx.Orderly initOf)
    (e : Option Expr) : AllOrderly (Expr.sitesOfOption ctx initOf e) := by
  cases e with
  | none => nofun
  | some e => exact e.allOrderly h

theorem allOrderly_superclass {ctx : Context} (h : ctx.Orderly none) (name : Name)
    (superclass : Option Reference) : AllOrderly (sitesOfSuperclass ctx name superclass) := by
  intro site hs
  obtain ⟨ref, -, rfl⟩ := List.mem_map.1 hs
  exact h

theorem isPlain_of_routine {r : Routine Stmt} (h : Stmt.RoutineProper r) :
    IsPlain r.name.text := by
  obtain ⟨name, params, body⟩ := r
  exact h.1

mutual

theorem Stmt.orderly_after {ctx : Context} (h : ctx.Orderly none) :
    (s : Stmt) → s.Proper → (s.sites ctx).1.Orderly none
  | .expr _, _ | .block _, _ | .breakLoop _, _ | .returnWith _ _, _ => h
  | .letVar _ _, hs => h.bind hs.1 true
  | .define _, hs => h.bind (isPlain_of_routine hs) true
  | .classDecl _ _ _, hs => h.bind hs.1 true
  | .ifThen _ s none, hs | .whileDo _ s, hs | .times _ _ s, hs => s.orderly_after h hs.2.2
  | .ifThen _ s (some s'), hs =>
    s'.orderly_after (s.orderly_after h hs.2.2.1) hs.2.2.2.2

theorem Stmt.allOrderly {ctx : Context} (h : ctx.Orderly none) :
    (s : Stmt) → s.Proper → AllOrderly (s.sites ctx).2
  | .expr e, _ => e.allOrderly h
  | .letVar _ e, hs => Expr.allOrderly_option (h.bind hs.1 false) e
  | .block body, hs =>
    Stmt.allOrderly_all (h.push (.block body) (by simp) rfl) body hs
  | .ifThen e s none, hs | .whileDo e s, hs | .times _ e s, hs =>
    (e.allOrderly h).append (s.allOrderly h hs.2.2)
  | .ifThen e s (some s'), hs =>
    ((e.allOrderly h).append (s.allOrderly h hs.2.2.1)).append
      (s'.allOrderly (s.orderly_after h hs.2.2.1) hs.2.2.2.2)
  | .breakLoop _, _ => nofun
  | .define r, hs => Stmt.allOrderly_routine (h.bind (isPlain_of_routine hs) true) r hs
  | .returnWith _ e, _ => Expr.allOrderly_option h e
  | .classDecl name superclass rs, hs =>
    (allOrderly_superclass (h.bind hs.1 true) name superclass).append
      (Stmt.allOrderly_methods (h.bind hs.1 true) name superclass rs rs hs.2.2)

theorem Stmt.allOrderly_all {ctx : Context} (h : ctx.Orderly none) :
    (ss : List Stmt) → Stmt.AllProper ss → AllOrderly (Stmt.sitesOfAll ctx ss).2
  | [], _ => nofun
  | s :: rest, hs =>
    (s.allOrderly h hs.1).append (Stmt.allOrderly_all (s.orderly_after h hs.1) rest hs.2)

theorem Stmt.allOrderly_routine {ctx : Context} (h : ctx.Orderly none) :
    (r : Routine Stmt) → Stmt.RoutineProper r → AllOrderly (Stmt.sitesOfRoutine ctx r)
  | ⟨_, _, body⟩, hs => Stmt.allOrderly_all (h.enter hs.2.1) body hs.2.2

theorem Stmt.allOrderly_methods {ctx : Context} (h : ctx.Orderly none) (name : Name)
    (superclass : Option Reference) (all : List (Routine Stmt)) :
    (rs : List (Routine Stmt)) → Stmt.MethodsProper rs →
      AllOrderly (Stmt.sitesOfMethods (ctx.enterSuper name superclass all) rs)
  | [], _ => nofun
  | r :: rest, hs =>
    (Stmt.allOrderly_routine (h.enterSelf_enterSuper name superclass all r) r hs.1).append
      (Stmt.allOrderly_methods h name superclass all rest hs.2)

end

/-- In a proper program every reference stands in an orderly context. -/
theorem allOrderly_sites {program : Program} (h : Stmt.AllProper program) :
    AllOrderly (sites program) := Stmt.allOrderly_all .nil program h

/-- A statement that declares nothing leaves the context as it is. -/
theorem Stmt.sites_fst_of_not_declaration {ctx : Context} :
    (s : Stmt) → s.Proper → s.isDeclaration = false → (s.sites ctx).1 = ctx
  | .expr _, _, _ | .block _, _, _ | .breakLoop _, _, _ | .returnWith _ _, _, _ => rfl
  | .ifThen _ s none, hs, _ | .whileDo _ s, hs, _ | .times _ _ s, hs, _ =>
    s.sites_fst_of_not_declaration hs.2.2 hs.2.1
  | .ifThen _ s (some s'), hs, _ => by
    simp only [Stmt.sites]
    rw [s.sites_fst_of_not_declaration hs.2.2.1 hs.2.1]
    exact s'.sites_fst_of_not_declaration hs.2.2.2.2 hs.2.2.2.1

/-- Global names are not tracked. -/
theorem Stmt.sites_fst_nil : (s : Stmt) → (s.sites []).1 = []
  | .expr _ | .letVar _ _ | .block _ | .breakLoop _ | .define _ | .returnWith _ _
  | .classDecl _ _ _ => by simp only [Stmt.sites, Context.bind]
  | .ifThen _ s none | .whileDo _ s | .times _ _ s => s.sites_fst_nil
  | .ifThen _ s (some s') => by
    simp only [Stmt.sites, s.sites_fst_nil, s'.sites_fst_nil]

end Jal
