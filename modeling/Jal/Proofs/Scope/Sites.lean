import Jal.Proofs.Program.Uses
import Jal.Scope.Resolve

namespace Jal

/-- What opens a scope: a block, the body of a routine with its parameters, the `self` of a method,
and the `super` of a class. A method is known by its routine and a class by all of its
declaration. -/
inductive ScopeNode where
  | block (body : List Stmt)
  | routine (r : Routine Stmt)
  | selfOf (method : Routine Stmt)
  | superOf (name : Name) (superclass : Reference) (methods : List (Routine Stmt))

abbrev Context := List (ScopeNode × Scope)

namespace Context

def scopes (ctx : Context) : Scopes := ctx.map Prod.snd

def bind (ctx : Context) (name : String) (ready : Bool) : Context :=
  match ctx with
  | [] => []
  | (node, scope) :: outer => (node, (name, ready) :: scope) :: outer

theorem scopes_nil : scopes [] = [] := rfl

@[simp] theorem scopes_cons (node : ScopeNode) (scope : Scope) (ctx : Context) :
    scopes ((node, scope) :: ctx) = scope :: ctx.scopes := rfl

@[simp] theorem scopes_bind (ctx : Context) (name : String) (ready : Bool) :
    (ctx.bind name ready).scopes = ctx.scopes.bind name ready := by
  cases ctx <;> rfl

end Context

def Scope.ofParams (params : List Name) : Scope :=
  params.foldl (fun scope p => (p.text, true) :: scope) []

theorem Scopes.enter_eq (scopes : Scopes) (params : List Name) :
    scopes.enter params = Scope.ofParams params :: scopes := by
  have h (scope : Scope) : params.foldl (fun scopes p => Scopes.bind scopes p.text true)
      (scope :: scopes) =
        params.foldl (fun scope p => (p.text, true) :: scope) scope :: scopes := by
    induction params generalizing scope with
    | nil => rfl
    | cons p rest ih => exact ih _
  exact h []

def Context.enterSuper (ctx : Context) (name : Name) (superclass : Option Reference)
    (methods : List (Routine Stmt)) : Context :=
  match superclass with
  | none => ctx
  | some ref => (.superOf name ref methods, [("super", true)]) :: ctx

/-- The context of a method between its class and its body. -/
def Context.enterSelf (ctx : Context) (method : Routine Stmt) : Context :=
  (.selfOf method, [("self", true)]) :: ctx

def Context.enter (ctx : Context) (r : Routine Stmt) : Context :=
  (.routine r, Scope.ofParams r.params) :: ctx

theorem Context.scopes_enterSelf_enterSuper (ctx : Context) (name : Name)
    (superclass : Option Reference) (methods : List (Routine Stmt)) (method : Routine Stmt) :
    ((ctx.enterSuper name superclass methods).enterSelf method).scopes =
      ctx.scopes.enterClass superclass := by
  cases superclass <;> rfl

inductive Use where
  | read | write | self | super
  | superclass (heir : String)
deriving DecidableEq

structure Site where
  id : Nat
  name : String
  use : Use
  context : Context
  /-- The variable in whose initializer the reference stands. -/
  initOf : Option String

def Site.depth? (site : Site) : Option Nat := site.context.scopes.depth? site.name

def Site.entry? (site : Site) : Option (Nat × Nat) := site.depth?.map (site.id, ·)

/-- What the resolver demands of the reference: a variable is not read in its own initializer, and
a class does not inherit from itself. -/
def Site.Allowed (site : Site) : Prop :=
  match site.use with
  | .read => site.context.scopes.initializing site.name = false
  | .superclass heir => site.name ≠ heir
  | _ => True

mutual

def Expr.sites (ctx : Context) (initOf : Option String) : Expr → List Site
  | .literal _ => []
  | .grouping inner => inner.sites ctx initOf
  | .unary _ _ operand => operand.sites ctx initOf
  | .binary _ _ left right => left.sites ctx initOf ++ right.sites ctx initOf
  | .logical _ left right => left.sites ctx initOf ++ right.sites ctx initOf
  | .variable ref => [⟨ref.id, ref.name.text, .read, ctx, initOf⟩]
  | .assign ref value =>
    value.sites ctx initOf ++ [⟨ref.id, ref.name.text, .write, ctx, initOf⟩]
  | .selfRef id _ => [⟨id, "self", .self, ctx, initOf⟩]
  | .superRef id _ _ => [⟨id, "super", .super, ctx, initOf⟩]
  | .get object _ => object.sites ctx initOf
  | .set object _ value => value.sites ctx initOf ++ object.sites ctx initOf
  | .index object _ position => object.sites ctx initOf ++ position.sites ctx initOf
  | .indexSet object _ position value =>
    object.sites ctx initOf ++ position.sites ctx initOf ++ value.sites ctx initOf
  | .call callee _ arguments => callee.sites ctx initOf ++ Expr.sitesOfAll ctx initOf arguments
  | .array elements => Expr.sitesOfAll ctx initOf elements

def Expr.sitesOfAll (ctx : Context) (initOf : Option String) : List Expr → List Site
  | [] => []
  | e :: rest => e.sites ctx initOf ++ Expr.sitesOfAll ctx initOf rest

end

def Expr.sitesOfOption (ctx : Context) (initOf : Option String) : Option Expr → List Site
  | none => []
  | some e => e.sites ctx initOf

def sitesOfSuperclass (ctx : Context) (name : Name) (superclass : Option Reference) : List Site :=
  superclass.toList.map fun ref => ⟨ref.id, ref.name.text, .superclass name.text, ctx, none⟩

mutual

/-- The context after the statement, and the references in it. -/
def Stmt.sites (ctx : Context) : Stmt → Context × List Site
  | .expr e => (ctx, e.sites ctx none)
  | .letVar name init =>
    (ctx.bind name.text true,
      Expr.sitesOfOption (ctx.bind name.text false) (some name.text) init)
  | .block body => (ctx, (Stmt.sitesOfAll ((.block body, []) :: ctx) body).2)
  | .ifThen test consequence none =>
    let (after, found) := consequence.sites ctx
    (after, test.sites ctx none ++ found)
  | .ifThen test consequence (some alternative) =>
    let (between, found) := consequence.sites ctx
    let (after, found') := alternative.sites between
    (after, test.sites ctx none ++ found ++ found')
  | .whileDo test body =>
    let (after, found) := body.sites ctx
    (after, test.sites ctx none ++ found)
  | .times _ count body =>
    let (after, found) := body.sites ctx
    (after, count.sites ctx none ++ found)
  | .breakLoop _ => (ctx, [])
  | .define r =>
    let ctx := ctx.bind r.name.text true
    (ctx, Stmt.sitesOfRoutine ctx r)
  | .returnWith _ value => (ctx, Expr.sitesOfOption ctx none value)
  | .classDecl name superclass methods =>
    let ctx := ctx.bind name.text true
    (ctx,
      sitesOfSuperclass ctx name superclass ++
        Stmt.sitesOfMethods (ctx.enterSuper name superclass methods) methods)

def Stmt.sitesOfAll (ctx : Context) : List Stmt → Context × List Site
  | [] => (ctx, [])
  | s :: rest =>
    let (between, found) := s.sites ctx
    let (after, found') := Stmt.sitesOfAll between rest
    (after, found ++ found')

def Stmt.sitesOfRoutine (ctx : Context) : Routine Stmt → List Site
  | ⟨name, params, body⟩ => (Stmt.sitesOfAll (ctx.enter ⟨name, params, body⟩) body).2

def Stmt.sitesOfMethods (ctx : Context) : List (Routine Stmt) → List Site
  | [] => []
  | r :: rest => Stmt.sitesOfRoutine (ctx.enterSelf r) r ++ Stmt.sitesOfMethods ctx rest

end

def sites (program : Program) : List Site := (Stmt.sitesOfAll [] program).2

mutual

theorem Expr.map_id_sites (ctx : Context) (initOf : Option String) :
    (e : Expr) → (e.sites ctx initOf).map Site.id = e.ids
  | .literal _ => rfl
  | .grouping e | .unary _ _ e | .get e _ => e.map_id_sites ctx initOf
  | .binary _ _ e e' | .logical _ e e' | .set e' _ e | .index e _ e' => by
    simp only [Expr.sites, Expr.ids, List.map_append, e.map_id_sites ctx initOf,
      e'.map_id_sites ctx initOf]
  | .variable _ | .selfRef _ _ | .superRef _ _ _ => by
    simp only [Expr.sites, Expr.ids, List.map_cons, List.map_nil]
  | .assign _ e => by
    simp only [Expr.sites, Expr.ids, List.map_append, e.map_id_sites ctx initOf, List.map_cons,
      List.map_nil]
  | .indexSet e _ e' e'' => by
    simp only [Expr.sites, Expr.ids, List.map_append, e.map_id_sites ctx initOf,
      e'.map_id_sites ctx initOf, e''.map_id_sites ctx initOf]
  | .call e _ es => by
    simp only [Expr.sites, Expr.ids, List.map_append, e.map_id_sites ctx initOf,
      Expr.map_id_sitesOfAll ctx initOf es]
  | .array es => by
    simp only [Expr.sites, Expr.ids, Expr.map_id_sitesOfAll ctx initOf es]

theorem Expr.map_id_sitesOfAll (ctx : Context) (initOf : Option String) :
    (es : List Expr) → (Expr.sitesOfAll ctx initOf es).map Site.id = Expr.idsOfAll es
  | [] => rfl
  | e :: rest => by
    simp only [Expr.sitesOfAll, Expr.idsOfAll, List.map_append, e.map_id_sites ctx initOf,
      Expr.map_id_sitesOfAll ctx initOf rest]

end

theorem Expr.map_id_sitesOfOption (ctx : Context) (initOf : Option String) (e : Option Expr) :
    (Expr.sitesOfOption ctx initOf e).map Site.id = Expr.idsOfOption e := by
  cases e with
  | none => rfl
  | some e => exact e.map_id_sites ctx initOf

mutual

theorem Stmt.map_id_sites (ctx : Context) : (s : Stmt) → (s.sites ctx).2.map Site.id = s.ids
  | .expr e => e.map_id_sites ctx none
  | .letVar _ e | .returnWith _ e => Expr.map_id_sitesOfOption _ _ e
  | .block body => Stmt.map_id_sitesOfAll _ body
  | .ifThen e s none | .whileDo e s | .times _ e s => by
    simp only [Stmt.sites, Stmt.ids, List.map_append, e.map_id_sites, s.map_id_sites]
  | .ifThen e s (some s') => by
    simp only [Stmt.sites, Stmt.ids, List.map_append, e.map_id_sites, s.map_id_sites,
      s'.map_id_sites]
  | .breakLoop _ => rfl
  | .define r => Stmt.map_id_sitesOfRoutine _ r
  | .classDecl _ superclass rs => by
    simp only [Stmt.sites, Stmt.ids, sitesOfSuperclass, List.map_append, List.map_map,
      Function.comp_def, Stmt.map_id_sitesOfMethods]

theorem Stmt.map_id_sitesOfAll (ctx : Context) :
    (ss : List Stmt) → (Stmt.sitesOfAll ctx ss).2.map Site.id = Stmt.idsOfAll ss
  | [] => rfl
  | s :: rest => by
    simp only [Stmt.sitesOfAll, Stmt.idsOfAll, List.map_append, s.map_id_sites,
      Stmt.map_id_sitesOfAll _ rest]

theorem Stmt.map_id_sitesOfRoutine (ctx : Context) :
    (r : Routine Stmt) → (Stmt.sitesOfRoutine ctx r).map Site.id = Stmt.idsOfRoutine r
  | ⟨_, _, body⟩ => Stmt.map_id_sitesOfAll _ body

theorem Stmt.map_id_sitesOfMethods (ctx : Context) :
    (rs : List (Routine Stmt)) → (Stmt.sitesOfMethods ctx rs).map Site.id = Stmt.idsOfMethods rs
  | [] => rfl
  | r :: rest => by
    simp only [Stmt.sitesOfMethods, Stmt.idsOfMethods, List.map_append,
      Stmt.map_id_sitesOfRoutine _ r, Stmt.map_id_sitesOfMethods ctx rest]

end

namespace Findings

/-- The findings are those for these references: their depths, and nothing against them. -/
structure For (found : Findings) (sites : List Site) : Prop where
  depths : found.depths = sites.filterMap Site.entry?
  allowed : ∀ site ∈ sites, site.Allowed

theorem errors_append (a b : Findings) : (a ++ b).errors = a.errors ++ b.errors := rfl

theorem depths_append (a b : Findings) : (a ++ b).depths = a.depths ++ b.depths := rfl

theorem for_none : For none [] := ⟨rfl, nofun⟩

/-- Two parts of a walk without errors. -/
theorem For.append {a b : Findings} {xs ys : List Site} (ha : a.errors = [] → For a xs)
    (hb : b.errors = [] → For b ys) (h : (a ++ b).errors = []) : For (a ++ b) (xs ++ ys) := by
  rw [errors_append, List.append_eq_nil_iff] at h
  have ha := ha h.1
  have hb := hb h.2
  refine ⟨by rw [depths_append, ha.depths, hb.depths, List.filterMap_append], ?_⟩
  intro site hs
  exact (List.mem_append.1 hs).elim (ha.allowed site) (hb.allowed site)

theorem for_reference (site : Site) (ha : site.Allowed) :
    For (reference site.context.scopes site.id site.name) [site] := by
  refine ⟨?_, ?_⟩
  · cases h : site.context.scopes.depth? site.name with
    | none => simp [reference, Site.entry?, Site.depth?, h]
    | some d => simp [reference, Site.entry?, Site.depth?, h]
  · intro s hs
    rwa [List.mem_singleton.1 hs]

end Findings

open Findings (For for_none for_reference)

mutual

theorem Expr.resolve_for (around : Surroundings) (ctx : Context) (initOf : Option String) :
    (e : Expr) → (e.resolve around ctx.scopes).errors = [] →
      For (e.resolve around ctx.scopes) (e.sites ctx initOf)
  | .literal _, _ => for_none
  | .grouping e, h | .unary _ _ e, h | .get e _, h => e.resolve_for around ctx initOf h
  | .binary _ _ e e', h | .logical _ e e', h | .set e' _ e, h | .index e _ e', h =>
    For.append (e.resolve_for around ctx initOf) (e'.resolve_for around ctx initOf) h
  | .variable ref, h => by
    simp only [Expr.resolve] at h ⊢
    split at h
    · cases h
    · rename_i hi
      rw [if_neg hi]
      exact for_reference ⟨ref.id, ref.name.text, .read, ctx, initOf⟩ (Bool.eq_false_iff.2 hi)
  | .assign ref e, h =>
    For.append (e.resolve_for around ctx initOf)
      (fun _ => for_reference ⟨ref.id, ref.name.text, .write, ctx, initOf⟩ trivial) h
  | .selfRef id line, h => by
    simp only [Expr.resolve] at h ⊢
    split at h
    · cases h
    · rename_i hi
      rw [if_neg hi]
      exact for_reference ⟨id, "self", .self, ctx, initOf⟩ trivial
  | .superRef id line method, h => by
    simp only [Expr.resolve] at h ⊢
    cases hi : around.inClass with
    | none => simp [hi, Findings.error] at h
    | base => simp [hi, Findings.error] at h
    | derived => exact for_reference ⟨id, "super", .super, ctx, initOf⟩ trivial
  | .indexSet e _ e' e'', h =>
    For.append (For.append (e.resolve_for around ctx initOf) (e'.resolve_for around ctx initOf))
      (e''.resolve_for around ctx initOf) h
  | .call e _ es, h =>
    For.append (e.resolve_for around ctx initOf) (Expr.resolveAll_for around ctx initOf es) h
  | .array es, h => Expr.resolveAll_for around ctx initOf es h

theorem Expr.resolveAll_for (around : Surroundings) (ctx : Context) (initOf : Option String) :
    (es : List Expr) → (Expr.resolveAll around ctx.scopes es).errors = [] →
      For (Expr.resolveAll around ctx.scopes es) (Expr.sitesOfAll ctx initOf es)
  | [], _ => for_none
  | e :: rest, h =>
    For.append (e.resolve_for around ctx initOf) (Expr.resolveAll_for around ctx initOf rest) h

end

theorem Expr.resolveOption_for (around : Surroundings) (ctx : Context) (initOf : Option String)
    (e : Option Expr) (h : (Expr.resolveOption around ctx.scopes e).errors = []) :
    For (Expr.resolveOption around ctx.scopes e) (Expr.sitesOfOption ctx initOf e) := by
  cases e with
  | none => exact for_none
  | some e => exact e.resolve_for around ctx initOf h

theorem resolveSuperclass_for (ctx : Context) (name : Name) (superclass : Option Reference)
    (h : (resolveSuperclass ctx.scopes name superclass).errors = []) :
    For (resolveSuperclass ctx.scopes name superclass) (sitesOfSuperclass ctx name superclass) := by
  cases superclass with
  | none => exact for_none
  | some ref =>
    simp only [resolveSuperclass] at h ⊢
    split at h
    · cases h
    · rename_i hi
      rw [if_neg hi]
      exact for_reference ⟨ref.id, ref.name.text, .superclass name.text, ctx, none⟩ hi

mutual

theorem Stmt.resolve_scopes (around : Surroundings) (ctx : Context) :
    (s : Stmt) → (s.resolve around ctx.scopes).1 = (s.sites ctx).1.scopes
  | .expr _ | .block _ | .breakLoop _ | .returnWith _ _ => by simp only [Stmt.resolve, Stmt.sites]
  | .letVar _ _ | .define _ | .classDecl _ _ _ => by
    simp only [Stmt.resolve, Stmt.sites, Context.scopes_bind]
  | .ifThen _ s none | .whileDo _ s | .times _ _ s => by
    simp only [Stmt.resolve, Stmt.sites, s.resolve_scopes around ctx]
  | .ifThen _ s (some s') => by
    simp only [Stmt.resolve, Stmt.sites, s.resolve_scopes around ctx, s'.resolve_scopes around]

theorem Stmt.resolve_for (around : Surroundings) (ctx : Context) :
    (s : Stmt) → (s.resolve around ctx.scopes).2.errors = [] →
      For (s.resolve around ctx.scopes).2 (s.sites ctx).2
  | .expr e, h => e.resolve_for around ctx none h
  | .letVar name e, h => by
    simp only [Stmt.resolve, ← Context.scopes_bind] at h ⊢
    exact Expr.resolveOption_for around _ _ e h
  | .block body, h => Stmt.resolveAll_for around ((.block body, []) :: ctx) body h
  | .ifThen e s none, h | .whileDo e s, h | .times _ e s, h =>
    For.append (e.resolve_for around ctx none) (s.resolve_for around ctx) h
  | .ifThen e s (some s'), h => by
    -- the walk hands the scopes on from one branch to the other
    simp only [Stmt.resolve, s.resolve_scopes around ctx] at h ⊢
    exact For.append (For.append (e.resolve_for around ctx none) (s.resolve_for around ctx))
      (s'.resolve_for around _) h
  | .breakLoop _, _ => for_none
  | .define r, h => by
    simp only [Stmt.resolve, ← Context.scopes_bind] at h ⊢
    exact Stmt.resolveRoutine_for _ _ r h
  | .returnWith line e, h => by
    simp only [Stmt.resolve] at h ⊢
    -- a `return` in its place adds nothing to the findings
    have hm : (misplacedReturn around line e.isSome).errors = [] →
        For (misplacedReturn around line e.isSome) [] := by
      unfold misplacedReturn
      repeat' split
      all_goals first | exact fun _ => for_none | exact fun h => absurd h (by simp [Findings.error])
    exact For.append hm (Expr.resolveOption_for around ctx none e) h
  | .classDecl name superclass rs, h => by
    simp only [Stmt.resolve, ← Context.scopes_bind] at h ⊢
    -- the superclass is looked for where the name of the class is already in scope
    refine For.append (resolveSuperclass_for _ name superclass) ?_ h
    exact Stmt.resolveMethods_for _ name superclass rs _ rs

theorem Stmt.resolveAll_for (around : Surroundings) (ctx : Context) :
    (ss : List Stmt) → (Stmt.resolveAll around ctx.scopes ss).2.errors = [] →
      For (Stmt.resolveAll around ctx.scopes ss).2 (Stmt.sitesOfAll ctx ss).2
  | [], _ => for_none
  | s :: rest, h => by
    simp only [Stmt.resolveAll, s.resolve_scopes around ctx] at h ⊢
    exact For.append (s.resolve_for around ctx) (Stmt.resolveAll_for around _ rest) h

theorem Stmt.resolveRoutine_for (around : Surroundings) (ctx : Context) :
    (r : Routine Stmt) → (Stmt.resolveRoutine around ctx.scopes r).errors = [] →
      For (Stmt.resolveRoutine around ctx.scopes r) (Stmt.sitesOfRoutine ctx r)
  | ⟨name, params, body⟩, h => by
    rw [Stmt.resolveRoutine, Scopes.enter_eq] at h ⊢
    exact Stmt.resolveAll_for around (ctx.enter ⟨name, params, body⟩) body h

theorem Stmt.resolveMethods_for (ctx : Context) (name : Name) (superclass : Option Reference)
    (all : List (Routine Stmt)) (kind : ClassKind) :
    (rs : List (Routine Stmt)) →
      (Stmt.resolveMethods kind (ctx.scopes.enterClass superclass) rs).errors = [] →
      For (Stmt.resolveMethods kind (ctx.scopes.enterClass superclass) rs)
        (Stmt.sitesOfMethods (ctx.enterSuper name superclass all) rs)
  | [], _ => for_none
  | r :: rest, h => by
    refine For.append ?_ (Stmt.resolveMethods_for ctx name superclass all kind rest) h
    rw [← Context.scopes_enterSelf_enterSuper ctx name superclass all r]
    exact Stmt.resolveRoutine_for _ _ r

end

/-- The resolver finds the depth of each reference among the scopes of its site. -/
theorem resolve_eq_ok {program : Program} {depths : List (Nat × Nat)}
    (h : resolve program = .ok depths) :
    depths = (sites program).filterMap Site.entry? ∧ ∀ site ∈ sites program, site.Allowed := by
  unfold resolve at h
  dsimp only at h
  split at h
  · rename_i he
    cases h
    have hf := Stmt.resolveAll_for .topLevel [] program (List.isEmpty_iff.1 he)
    exact ⟨hf.depths, hf.allowed⟩
  · cases h

end Jal
