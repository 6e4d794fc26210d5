import Jal.Proofs.Scope.Orderly

namespace Jal

def Scope.Keywordless (scope : Scope) : Prop :=
  scope.lookup "self" = none ∧ scope.lookup "super" = none

/-- The place lies in a method of the class `name` that inherits from `ref`: directly in its body,
or in blocks and functions there at any depth. `d` is the depth of the method's `self`. -/
inductive Context.InHeir (name : Name) (ref : Reference) (methods : List (Routine Stmt)) :
    Context → Nat → Prop where
  | body {method : Routine Stmt} {scope : Scope} {outer : Context} (hm : method ∈ methods)
      (hs : scope.Keywordless) :
      InHeir name ref methods
        ((.routine method, scope) ::
          ((outer.enterSuper name (some ref) methods).enterSelf method)) 1
  | block {body : List Stmt} {scope : Scope} {ctx : Context} {d : Nat} (hs : scope.Keywordless)
      (h : InHeir name ref methods ctx d) :
      InHeir name ref methods ((.block body, scope) :: ctx) (d + 1)
  | function {r : Routine Stmt} {scope : Scope} {ctx : Context} {d : Nat} (hs : scope.Keywordless)
      (h : InHeir name ref methods ctx d) :
      InHeir name ref methods ((.routine r, scope) :: ctx) (d + 1)

theorem Scope.keywordless_nil : Scope.Keywordless [] := ⟨rfl, rfl⟩

theorem Scope.Keywordless.cons {scope : Scope} (hs : scope.Keywordless) {name : String}
    (hn : IsPlain name) (ready : Bool) : Scope.Keywordless ((name, ready) :: scope) :=
  ⟨(lookup_cons_of_ne hn.1.symm).trans hs.1, (lookup_cons_of_ne hn.2.symm).trans hs.2⟩

theorem Scope.keywordless_ofParams {params : List Name} (hp : ∀ p ∈ params, IsPlain p.text) :
    (Scope.ofParams params).Keywordless :=
  ⟨Scope.lookup_ofParams_of_notMem fun p hm => (hp p hm).1,
    Scope.lookup_ofParams_of_notMem fun p hm => (hp p hm).2⟩

namespace Scopes

theorem depth?_cons_of_none {scopes : Scopes} {scope : Scope} {name : String}
    (h : scope.lookup name = none) :
    depth? (scope :: scopes) name = (scopes.depth? name).map (· + 1) := by
  simp [depth?, List.findIdx?_cons, h]

theorem depth?_cons_of_some {scopes : Scopes} {scope : Scope} {name : String} {ready : Bool}
    (h : scope.lookup name = some ready) : depth? (scope :: scopes) name = some 0 := by
  simp [depth?, List.findIdx?_cons, h]

end Scopes

namespace Context.InHeir

variable {name : Name} {ref : Reference} {methods : List (Routine Stmt)} {ctx : Context} {d : Nat}

/-- A plain name more in the innermost scope changes nothing. -/
theorem bind (h : InHeir name ref methods ctx d) {x : String} (hx : IsPlain x) (ready : Bool) :
    InHeir name ref methods (ctx.bind x ready) d := by
  cases h with
  | body hm hs => exact .body hm (hs.cons hx ready)
  | block hs h => exact .block (hs.cons hx ready) h
  | function hs h => exact .function (hs.cons hx ready) h

theorem depth?_self (h : InHeir name ref methods ctx d) : ctx.scopes.depth? "self" = some d := by
  induction h with
  | body hm hs =>
    rw [Context.scopes_cons, Scopes.depth?_cons_of_none hs.1, Context.enterSelf,
      Context.scopes_cons, Scopes.depth?_cons_of_some List.lookup_cons_self]
    rfl
  | block hs h ih | function hs h ih =>
    rw [Context.scopes_cons, Scopes.depth?_cons_of_none hs.1, ih]
    rfl

/-- `super` is found one scope further out than `self`. -/
theorem depth?_super (h : InHeir name ref methods ctx d) :
    ctx.scopes.depth? "super" = some (d + 1) := by
  induction h with
  | body hm hs =>
    rw [Context.scopes_cons, Scopes.depth?_cons_of_none hs.2, Context.enterSelf,
      Context.scopes_cons, Scopes.depth?_cons_of_none rfl, Context.enterSuper,
      Context.scopes_cons, Scopes.depth?_cons_of_some List.lookup_cons_self]
    rfl
  | block hs h ih | function hs h ih =>
    rw [Context.scopes_cons, Scopes.depth?_cons_of_none hs.2, ih]
    rfl

theorem getElem?_self (h : InHeir name ref methods ctx d) :
    ∃ method ∈ methods, ctx[d]? = some (.selfOf method, [("self", true)]) := by
  induction h with
  | @body method _ _ hm hs => exact ⟨method, hm, rfl⟩
  | block hs h ih | function hs h ih => exact ih

theorem getElem?_super (h : InHeir name ref methods ctx d) :
    ctx[d + 1]? = some (.superOf name ref methods, [("super", true)]) := by
  induction h with
  | body hm hs => rfl
  | block hs h ih | function hs h ih => exact ih

end Context.InHeir

def Context.InSomeHeir (ctx : Context) : Prop :=
  ∃ name ref methods d, ctx.InHeir name ref methods d

theorem Context.InSomeHeir.bind {ctx : Context} (h : ctx.InSomeHeir) {x : String} (hx : IsPlain x)
    (ready : Bool) : (ctx.bind x ready).InSomeHeir := by
  obtain ⟨name, ref, methods, d, h⟩ := h
  exact ⟨name, ref, methods, d, h.bind hx ready⟩

theorem Context.InSomeHeir.block {ctx : Context} (h : ctx.InSomeHeir) (body : List Stmt) :
    Context.InSomeHeir ((.block body, []) :: ctx) := by
  obtain ⟨name, ref, methods, d, h⟩ := h
  exact ⟨name, ref, methods, d + 1, .block Scope.keywordless_nil h⟩

theorem Context.InSomeHeir.enter {ctx : Context} (h : ctx.InSomeHeir) {r : Routine Stmt}
    (hp : ∀ p ∈ r.params, IsPlain p.text) : (ctx.enter r).InSomeHeir := by
  obtain ⟨name, ref, methods, d, h⟩ := h
  exact ⟨name, ref, methods, d + 1, .function (Scope.keywordless_ofParams hp) h⟩

/-- If nothing is misplaced, each `super` among the references lies in an heir. -/
def Findings.PlaceSupers (found : Findings) (sites : List Site) : Prop :=
  found.errors = [] → ∀ site ∈ sites, site.use = .super → site.context.InSomeHeir

open Findings (PlaceSupers)

theorem Findings.PlaceSupers.append {a b : Findings} {xs ys : List Site} (ha : PlaceSupers a xs)
    (hb : PlaceSupers b ys) : PlaceSupers (a ++ b) (xs ++ ys) := by
  intro h
  rw [Findings.errors_append, List.append_eq_nil_iff] at h
  exact List.forall_mem_append.2 ⟨ha h.1, hb h.2⟩

theorem Findings.placeSupers_nil (found : Findings) : PlaceSupers found [] := nofun

/-- A reference that is no `super` may stand anywhere. -/
theorem Findings.placeSupers_of_ne (found : Findings) {site : Site} (h : site.use ≠ .super) :
    PlaceSupers found [site] := by
  intro _ site' hs hu
  rw [List.mem_singleton.1 hs] at hu
  exact absurd hu h

/-- The context is inside an heir wherever the innermost class is one. -/
def Context.Follows (ctx : Context) (around : Surroundings) : Prop :=
  around.inClass = .derived → ctx.InSomeHeir

mutual

theorem Expr.placeSupers {around : Surroundings} {ctx : Context} (hc : ctx.Follows around)
    (initOf : Option String) :
    (e : Expr) → PlaceSupers (e.resolve around ctx.scopes) (e.sites ctx initOf)
  | .literal _ => Findings.placeSupers_nil _
  | .grouping e | .unary _ _ e | .get e _ => e.placeSupers hc initOf
  | .binary _ _ e e' | .logical _ e e' | .set e' _ e | .index e _ e' =>
    (e.placeSupers hc initOf).append (e'.placeSupers hc initOf)
  | .variable _ | .selfRef _ _ => Findings.placeSupers_of_ne _ nofun
  | .assign _ e => (e.placeSupers hc initOf).append (Findings.placeSupers_of_ne _ nofun)
  | .superRef id line _ => by
    intro h site hs _
    -- outside of heirs the `super` would have been reported
    have hk : around.inClass = .derived := by
      cases hk : around.inClass with
      | derived => rfl
      | none | base =>
        rw [Expr.resolve, hk] at h
        cases h
    rw [List.mem_singleton.1 hs]
    exact hc hk
  | .indexSet e _ e' e'' =>
    ((e.placeSupers hc initOf).append (e'.placeSupers hc initOf)).append (e''.placeSupers hc initOf)
  | .call e _ es => (e.placeSupers hc initOf).append (Expr.placeSupers_all hc initOf es)
  | .array es => Expr.placeSupers_all hc initOf es

theorem Expr.placeSupers_all {around : Surroundings} {ctx : Context} (hc : ctx.Follows around)
    (initOf : Option String) :
    (es : List Expr) →
      PlaceSupers (Expr.resolveAll around ctx.scopes es) (Expr.sitesOfAll ctx initOf es)
  | [] => Findings.placeSupers_nil _
  | e :: rest => (e.placeSupers hc initOf).append (Expr.placeSupers_all hc initOf rest)

end

theorem Expr.placeSupers_option {around : Surroundings} {ctx : Context} (hc : ctx.Follows around)
    (initOf : Option String) (e : Option Expr) :
    PlaceSupers (Expr.resolveOption around ctx.scopes e) (Expr.sitesOfOption ctx initOf e) := by
  cases e with
  | none => exact Findings.placeSupers_nil _
  | some e => exact e.placeSupers hc initOf

theorem placeSupers_superclass (found : Findings) (ctx : Context) (name : Name)
    (superclass : Option Reference) :
    PlaceSupers found (sitesOfSuperclass ctx name superclass) := by
  cases superclass with
  | none => exact Findings.placeSupers_nil _
  | some ref => exact Findings.placeSupers_of_ne _ nofun

theorem Context.Follows.bind {ctx : Context} {around : Surroundings} (hc : ctx.Follows around)
    {x : String} (hx : IsPlain x) (ready : Bool) : (ctx.bind x ready).Follows around :=
  fun h => (hc h).bind hx ready

/-- A statement leaves the context as it is or adds one plain name. -/
theorem Stmt.sites_fst_cases (ctx : Context) {s : Stmt} (hs : s.Proper) :
    (s.sites ctx).1 = ctx ∨ ∃ x, IsPlain x ∧ (s.sites ctx).1 = ctx.bind x true := by
  cases hd : s.isDeclaration with
  | false => exact .inl (s.sites_fst_of_not_declaration hs hd)
  | true =>
    cases s with
    | letVar name init => exact .inr ⟨name.text, hs.1, rfl⟩
    | define r => exact .inr ⟨r.name.text, isPlain_of_routine hs, rfl⟩
    | classDecl name superclass methods => exact .inr ⟨name.text, hs.1, rfl⟩
    | expr | block | ifThen | whileDo | times | breakLoop | returnWith => cases hd

theorem Stmt.follows_after {around : Surroundings} {ctx : Context} (hc : ctx.Follows around)
    {s : Stmt} (hs : s.Proper) : (s.sites ctx).1.Follows around := by
  rcases Stmt.sites_fst_cases ctx hs with he | ⟨x, hx, he⟩
  · rw [he]
    exact hc
  · rw [he]
    exact hc.bind hx true

mutual

theorem Stmt.placeSupers {around : Surroundings} {ctx : Context} (hc : ctx.Follows around) :
    (s : Stmt) → s.Proper → PlaceSupers (s.resolve around ctx.scopes).2 (s.sites ctx).2
  | .expr e, _ => e.placeSupers hc none
  | .letVar name e, hs => by
    simp only [Stmt.resolve, ← Context.scopes_bind]
    exact Expr.placeSupers_option (hc.bind hs.1 false) _ e
  | .block body, hs => Stmt.placeSupers_all (fun h => (hc h).block body) body hs
  | .ifThen e s none, hs | .whileDo e s, hs | .times _ e s, hs =>
    (e.placeSupers hc none).append (s.placeSupers hc hs.2.2)
  | .ifThen e s (some s'), hs => by
    simp only [Stmt.resolve, s.resolve_scopes around ctx]
    exact ((e.placeSupers hc none).append (s.placeSupers hc hs.2.2.1)).append
      (s'.placeSupers (Stmt.follows_after hc hs.2.2.1) hs.2.2.2.2)
  | .breakLoop _, _ => Findings.placeSupers_nil _
  | .define r, hs => by
    simp only [Stmt.resolve, ← Context.scopes_bind]
    -- the body of a function is in the class that the function is in
    have hc := hc.bind (isPlain_of_routine hs) true
    exact Stmt.placeSupers_routine r hs fun hp h => (hc h).enter hp
  | .returnWith _ e, _ => by
    simp only [Stmt.resolve]
    exact (Findings.placeSupers_nil _).append (Expr.placeSupers_option hc none e)
  | .classDecl name superclass rs, hs => by
    simp only [Stmt.resolve, ← Context.scopes_bind]
    refine (placeSupers_superclass _ _ name superclass).append ?_
    exact Stmt.placeSupers_methods _ name superclass rs rs hs.2.2 fun _ hr => hr

theorem Stmt.placeSupers_all {around : Surroundings} {ctx : Context} (hc : ctx.Follows around) :
    (ss : List Stmt) → Stmt.AllProper ss →
      PlaceSupers (Stmt.resolveAll around ctx.scopes ss).2 (Stmt.sitesOfAll ctx ss).2
  | [], _ => Findings.placeSupers_nil _
  | s :: rest, hs => by
    simp only [Stmt.resolveAll, s.resolve_scopes around ctx]
    exact (s.placeSupers hc hs.1).append
      (Stmt.placeSupers_all (Stmt.follows_after hc hs.1) rest hs.2)

theorem Stmt.placeSupers_routine {around : Surroundings} {ctx : Context} :
    (r : Routine Stmt) → Stmt.RoutineProper r →
      ((∀ p ∈ r.params, IsPlain p.text) → (ctx.enter r).Follows around) →
      PlaceSupers (Stmt.resolveRoutine around ctx.scopes r) (Stmt.sitesOfRoutine ctx r)
  | ⟨name, params, body⟩, hs, hc => by
    rw [Stmt.resolveRoutine, Scopes.enter_eq]
    exact Stmt.placeSupers_all (hc hs.2.1) body hs.2.2

/-- A method of a class without a superclass is not in an heir, but then it has no `super`. -/
theorem Stmt.placeSupers_methods (ctx : Context) (name : Name) (superclass : Option Reference)
    (all : List (Routine Stmt)) :
    (rs : List (Routine Stmt)) → Stmt.MethodsProper rs → (∀ r ∈ rs, r ∈ all) →
      PlaceSupers
        (Stmt.resolveMethods (if superclass.isSome then .derived else .base)
          (ctx.scopes.enterClass superclass) rs)
        (Stmt.sitesOfMethods (ctx.enterSuper name superclass all) rs)
  | [], _, _ => Findings.placeSupers_nil _
  | r :: rest, hs, hall => by
    have hr := List.forall_mem_cons.1 hall
    rw [Stmt.resolveMethods, ← Context.scopes_enterSelf_enterSuper ctx name superclass all r]
    refine (Stmt.placeSupers_routine r hs.1 ?_).append ?_
    · intro hp h
      cases superclass with
      | none => cases h
      | some ref => exact ⟨name, ref, all, 1, .body hr.1 (Scope.keywordless_ofParams hp)⟩
    · rw [Context.scopes_enterSelf_enterSuper]
      exact Stmt.placeSupers_methods ctx name superclass all rest hs.2 hr.2

end

/-- In a program that the resolver accepts, every `super` lies in an heir. -/
theorem inHeir_of_resolve {program : Program} {depths : List (Nat × Nat)}
    (hp : Stmt.AllProper program) (h : resolve program = .ok depths) :
    ∀ site ∈ sites program, site.use = .super → site.context.InSomeHeir := by
  unfold resolve at h
  dsimp only at h
  split at h
  · rename_i he
    have hc : Context.Follows [] .topLevel := nofun
    exact Stmt.placeSupers_all hc program hp (List.isEmpty_iff.1 he)
  · cases h

end Jal
