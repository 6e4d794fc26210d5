import Mathlib.Data.List.Forall2
import Jal.Proofs.Scope.Orderly

namespace Jal

/-- A place in the tree of a program: which part to take at each node, the last step first. -/
abbrev Address := List Nat

inductive ScopeKind where
  | block | routine | self | super
deriving DecidableEq

structure ScopeAt where
  kind : ScopeKind
  address : Address
deriving DecidableEq

inductive Mark where
  | declares (name : String)
  | refers (ref : Reference)
deriving DecidableEq

/-- A mark with the scopes around it, the innermost first. What is declared belongs to the innermost
scope, and at the top level to none. -/
structure Event where
  scopes : List ScopeAt
  mark : Mark
deriving DecidableEq

def Event.id? (e : Event) : Option Nat :=
  match e.mark with
  | .declares _ => none
  | .refers ref => some ref.id

mutual

/-- The references of an expression, with `self` and `super` for names. -/
def Expr.references : Expr → List Reference
  | .literal _ => []
  | .grouping inner => inner.references
  | .unary _ _ operand => operand.references
  | .binary _ _ left right => left.references ++ right.references
  | .logical _ left right => left.references ++ right.references
  | .variable ref => [ref]
  | .assign ref value => value.references ++ [ref]
  | .selfRef id line => [⟨id, "self", line⟩]
  | .superRef id line _ => [⟨id, "super", line⟩]
  | .get object _ => object.references
  | .set object _ value => value.references ++ object.references
  | .index object _ position => object.references ++ position.references
  | .indexSet object _ position value =>
    object.references ++ position.references ++ value.references
  | .call callee _ arguments => callee.references ++ Expr.referencesOfAll arguments
  | .array elements => Expr.referencesOfAll elements

def Expr.referencesOfAll : List Expr → List Reference
  | [] => []
  | e :: rest => e.references ++ Expr.referencesOfAll rest

end

def Expr.referencesOfOption : Option Expr → List Reference
  | none => []
  | some e => e.references

def refersFrom (scopes : List ScopeAt) (refs : List Reference) : List Event :=
  refs.map fun ref => ⟨scopes, .refers ref⟩

def declaresIn (scopes : List ScopeAt) (names : List String) : List Event :=
  names.map fun name => ⟨scopes, .declares name⟩

def scopesOfSuper (addr : Address) (scopes : List ScopeAt) : Option Reference → List ScopeAt
  | none => scopes
  | some _ => ⟨.super, addr⟩ :: scopes

/-- The class at the address opens a scope for `super`, if it has one, and inside it one for
`self`. -/
def eventsOfKeywords (addr : Address) (scopes : List ScopeAt) (superclass : Option Reference) :
    List Event :=
  declaresIn (scopesOfSuper addr scopes superclass) (superclass.toList.map fun _ => "super") ++
    declaresIn (⟨.self, addr⟩ :: scopesOfSuper addr scopes superclass) ["self"]

mutual

/-- What is met in the statement at an address. A name is met before the initializer, the body or
the superclass that comes with it. -/
def Stmt.events (addr : Address) (scopes : List ScopeAt) : Stmt → List Event
  | .expr e => refersFrom scopes e.references
  | .letVar name init =>
    declaresIn scopes [name.text] ++ refersFrom scopes (Expr.referencesOfOption init)
  | .block body => Stmt.eventsOfAll 0 addr (⟨.block, addr⟩ :: scopes) body
  | .ifThen test consequence none =>
    refersFrom scopes test.references ++ consequence.events (0 :: addr) scopes
  | .ifThen test consequence (some alternative) =>
    refersFrom scopes test.references ++ consequence.events (0 :: addr) scopes ++
      alternative.events (1 :: addr) scopes
  | .whileDo test body => refersFrom scopes test.references ++ body.events (0 :: addr) scopes
  | .times _ count body => refersFrom scopes count.references ++ body.events (0 :: addr) scopes
  | .breakLoop _ => []
  | .define r => declaresIn scopes [r.name.text] ++ Stmt.eventsOfRoutine addr scopes r
  | .returnWith _ value => refersFrom scopes (Expr.referencesOfOption value)
  | .classDecl name superclass methods =>
    declaresIn scopes [name.text] ++ (refersFrom scopes superclass.toList ++
      (eventsOfKeywords addr scopes superclass ++
        Stmt.eventsOfMethods 0 addr (⟨.self, addr⟩ :: scopesOfSuper addr scopes superclass)
          methods))

def Stmt.eventsOfAll (i : Nat) (addr : Address) (scopes : List ScopeAt) : List Stmt → List Event
  | [] => []
  | s :: rest => s.events (i :: addr) scopes ++ Stmt.eventsOfAll (i + 1) addr scopes rest

/-- The parameters belong to the scope of the body. -/
def Stmt.eventsOfRoutine (addr : Address) (scopes : List ScopeAt) : Routine Stmt → List Event
  | ⟨_, params, body⟩ =>
    declaresIn (⟨.routine, addr⟩ :: scopes) (params.map Name.text) ++
      Stmt.eventsOfAll 0 addr (⟨.routine, addr⟩ :: scopes) body

def Stmt.eventsOfMethods (i : Nat) (addr : Address) (scopes : List ScopeAt) :
    List (Routine Stmt) → List Event
  | [] => []
  | r :: rest =>
    Stmt.eventsOfRoutine (i :: addr) scopes r ++ Stmt.eventsOfMethods (i + 1) addr scopes rest

end

def events (program : Program) : List Event := Stmt.eventsOfAll 0 [] [] program

def Declares (before : List Event) (scope : ScopeAt) (name : String) : Prop :=
  ∃ outer, ⟨scope :: outer, .declares name⟩ ∈ before

/-- The innermost of the scopes that declare the name before has `d` scopes inside it. -/
def Nearest (before : List Event) (scopes : List ScopeAt) (name : String) (d : Nat) : Prop :=
  ∃ inner scope outer, scopes = inner ++ scope :: outer ∧ inner.length = d ∧
    Declares before scope name ∧ ∀ closer ∈ inner, ¬ Declares before closer name

variable {before es es' : List Event} {addr : Address} {scope : ScopeAt} {path : List ScopeAt}
  {name : String} {scopes : Scopes}

theorem declares_append :
    Declares (es ++ es') scope name ↔ Declares es scope name ∨ Declares es' scope name := by
  simp only [Declares, List.mem_append, exists_or]

theorem not_declares_refersFrom (refs : List Reference) :
    ¬ Declares (refersFrom path refs) scope name := by
  rintro ⟨outer, h⟩
  obtain ⟨ref, -, he⟩ := List.mem_map.1 h
  cases he

theorem declares_declaresIn {names : List String} :
    Declares (declaresIn path names) scope name ↔ path.head? = some scope ∧ name ∈ names := by
  simp only [Declares, declaresIn, List.mem_map]
  constructor
  · rintro ⟨outer, _, hn, he⟩
    cases he
    exact ⟨rfl, hn⟩
  · rintro ⟨hp, hn⟩
    obtain ⟨outer, rfl⟩ := List.head?_eq_some_iff.1 hp
    exact ⟨outer, name, hn, rfl⟩

/-- Everything is declared in scopes at the address or below it. -/
def Inside (addr : Address) (es : List Event) : Prop :=
  ∀ scope name, Declares es scope name → addr <:+ scope.address

/-- Everything is declared in the innermost scope of the path, or at the address or below it. -/
def Within (addr : Address) (path : List ScopeAt) (es : List Event) : Prop :=
  ∀ scope name, Declares es scope name → path.head? = some scope ∨ addr <:+ scope.address

theorem Inside.append (h : Inside addr es) (h' : Inside addr es') : Inside addr (es ++ es') :=
  fun scope name hd => (declares_append.1 hd).elim (h scope name) (h' scope name)

theorem Within.append (h : Within addr path es) (h' : Within addr path es') :
    Within addr path (es ++ es') :=
  fun scope name hd => (declares_append.1 hd).elim (h scope name) (h' scope name)

theorem Inside.within (h : Inside addr es) : Within addr path es :=
  fun scope name hd => .inr (h scope name hd)

theorem Within.inside {k : ScopeKind} (h : Within addr (⟨k, addr⟩ :: path) es) :
    Inside addr es := by
  intro scope name hd
  rcases h scope name hd with hp | hs
  · cases hp
    exact List.suffix_refl _
  · exact hs

theorem Inside.up {i : Nat} (h : Inside (i :: addr) es) : Inside addr es :=
  fun scope name hd => (List.suffix_cons i addr).trans (h scope name hd)

theorem Within.up {i : Nat} (h : Within (i :: addr) path es) : Within addr path es :=
  fun scope name hd => (h scope name hd).imp_right (List.suffix_cons i addr).trans

theorem inside_nil : Inside addr [] := fun _ _ ⟨_, h⟩ => absurd h List.not_mem_nil

theorem within_refersFrom (refs : List Reference) : Within addr path (refersFrom path refs) :=
  fun _ _ hd => absurd hd (not_declares_refersFrom refs)

theorem within_declaresIn (names : List String) : Within addr path (declaresIn path names) :=
  fun _ _ hd => .inl (declares_declaresIn.1 hd).1

theorem inside_eventsOfKeywords (addr : Address) (path : List ScopeAt)
    (superclass : Option Reference) : Inside addr (eventsOfKeywords addr path superclass) := by
  refine .append ?_ (within_declaresIn _).inside
  cases superclass with
  | none => exact inside_nil
  | some ref => exact (within_declaresIn _).inside

mutual

theorem Stmt.within_events (addr : Address) (path : List ScopeAt) :
    (s : Stmt) → Within addr path (s.events addr path)
  | .expr _ | .returnWith _ _ => within_refersFrom _
  | .letVar _ _ => .append (within_declaresIn _) (within_refersFrom _)
  | .block body => (Stmt.within_eventsOfAll 0 addr _ body).inside.within
  | .ifThen _ s none | .whileDo _ s | .times _ _ s =>
    .append (within_refersFrom _) (s.within_events (0 :: addr) path).up
  | .ifThen _ s (some s') =>
    .append (.append (within_refersFrom _) (s.within_events (0 :: addr) path).up)
      (s'.within_events (1 :: addr) path).up
  | .breakLoop _ => inside_nil.within
  | .define r => .append (within_declaresIn _) (Stmt.inside_eventsOfRoutine addr path r).within
  | .classDecl _ superclass methods =>
    .append (within_declaresIn _) (.append (within_refersFrom _)
      ((inside_eventsOfKeywords addr path superclass).append
        (Stmt.inside_eventsOfMethods 0 addr _ methods)).within)

theorem Stmt.within_eventsOfAll (i : Nat) (addr : Address) (path : List ScopeAt) :
    (ss : List Stmt) → Within addr path (Stmt.eventsOfAll i addr path ss)
  | [] => inside_nil.within
  | s :: rest =>
    .append (s.within_events (i :: addr) path).up (Stmt.within_eventsOfAll (i + 1) addr path rest)

theorem Stmt.inside_eventsOfRoutine (addr : Address) (path : List ScopeAt) :
    (r : Routine Stmt) → Inside addr (Stmt.eventsOfRoutine addr path r)
  | ⟨_, _, body⟩ =>
    .append (within_declaresIn _).inside (Stmt.within_eventsOfAll 0 addr _ body).inside

theorem Stmt.inside_eventsOfMethods (i : Nat) (addr : Address) (path : List ScopeAt) :
    (rs : List (Routine Stmt)) → Inside addr (Stmt.eventsOfMethods i addr path rs)
  | [] => inside_nil
  | r :: rest =>
    .append (Stmt.inside_eventsOfRoutine (i :: addr) path r).up
      (Stmt.inside_eventsOfMethods (i + 1) addr path rest)

end

/-- The scopes hold just the names that were declared before in the scopes of the path. -/
def Mirrors (before : List Event) (path : List ScopeAt) (scopes : Scopes) : Prop :=
  List.Forall₂ (fun scope names => ∀ name, (names.lookup name).isSome = true ↔
    Declares before scope name) path scopes

theorem Mirrors.mono (h : Mirrors before path scopes)
    (hd : ∀ scope ∈ path, ∀ name, Declares es scope name → Declares before scope name)
    (hd' : ∀ scope name, Declares before scope name → Declares es scope name) :
    Mirrors es path scopes := by
  induction h with
  | nil => exact .nil
  | cons hs _ ih =>
    refine .cons (fun name => (hs name).trans ⟨hd' _ _, hd _ List.mem_cons_self name⟩) ?_
    exact ih fun scope hm => hd scope (List.mem_cons_of_mem _ hm)

/-- What is declared elsewhere changes nothing. -/
theorem Mirrors.append (h : Mirrors before path scopes)
    (he : ∀ scope ∈ path, ∀ name, ¬ Declares es scope name) :
    Mirrors (before ++ es) path scopes := by
  refine h.mono (fun scope hs name hd => ?_) fun scope name hd => declares_append.2 (.inl hd)
  exact (declares_append.1 hd).resolve_right (he scope hs name)

theorem isSome_lookup_cons {x y : String} {ready : Bool} {names : Scope} :
    (List.lookup x ((y, ready) :: names)).isSome = true ↔
      (names.lookup x).isSome = true ∨ x = y := by
  by_cases h : x = y
  · simp [h]
  · simp [lookup_cons_of_ne h, h]

theorem Mirrors.declare (h : Mirrors before path scopes) (hn : path.Nodup) (x : String)
    (ready : Bool) : Mirrors (before ++ declaresIn path [x]) path (scopes.bind x ready) := by
  cases h with
  | nil => exact .nil
  | @cons scope names outer rest hs hr =>
    obtain ⟨hne, hn⟩ := List.nodup_cons.1 hn
    refine .cons (fun name => ?_) (Mirrors.append hr fun other ho name hd => ?_)
    · rw [isSome_lookup_cons, hs name, declares_append, declares_declaresIn]
      simp
    · -- the path has no scope twice
      cases (declares_declaresIn.1 hd).1
      exact hne ho

/-- The resolver finds the name at the distance of the innermost scope that declares it. -/
theorem Mirrors.depth?_eq_some (h : Mirrors before path scopes) {d : Nat} :
    scopes.depth? name = some d ↔ Nearest before path name d := by
  induction h generalizing d with
  | nil => simp [Scopes.depth?, Nearest]
  | @cons scope names outer rest hs hr ih =>
    rw [Scopes.depth?, List.findIdx?_cons]
    constructor
    · intro hd
      split at hd
      · rename_i hf
        cases hd
        exact ⟨[], scope, outer, rfl, rfl, (hs name).1 hf, nofun⟩
      · rename_i hf
        obtain ⟨d', hd', rfl⟩ := Option.map_eq_some_iff.1 hd
        obtain ⟨inner, scope', outer', rfl, rfl, hx, hc⟩ := ih.1 hd'
        refine ⟨scope :: inner, scope', outer', rfl, rfl, hx, ?_⟩
        exact List.forall_mem_cons.2 ⟨fun hx => hf ((hs name).2 hx), hc⟩
    · rintro ⟨inner, scope', outer', he, rfl, hx, hc⟩
      cases inner with
      | nil =>
        cases he
        rw [if_pos ((hs name).2 hx)]
        rfl
      | cons first inner =>
        cases he
        obtain ⟨hf, hc⟩ := List.forall_mem_cons.1 hc
        rw [if_neg fun hx => hf ((hs name).1 hx)]
        exact congrArg (Option.map (· + 1)) (ih.2 ⟨inner, scope', outer', rfl, rfl, hx, hc⟩)

/-- The resolver has come to the node at the address, with what was met before: nothing yet at the
address or below it, and every scope around it belongs to a node further up. -/
structure Reaches (before : List Event) (addr : Address) (path : List ScopeAt) (scopes : Scopes) :
    Prop where
  mirrors : Mirrors before path scopes
  fresh : ∀ scope name, Declares before scope name → ¬ addr <:+ scope.address
  above : ∀ scope ∈ path, scope.address.length < addr.length
  nodup : path.Nodup

namespace Reaches

variable (h : Reaches before addr path scopes)

include h

theorem not_suffix (hs : scope ∈ path) : ¬ addr <:+ scope.address :=
  fun ha => Nat.not_le_of_lt (h.above scope hs) ha.length_le

/-- What is declared at the address or below it is not declared in the scopes around it. -/
theorem not_declares (he : Inside addr es) : ∀ scope ∈ path, ∀ name, ¬ Declares es scope name :=
  fun scope hs name hd => h.not_suffix hs (he scope name hd)

theorem down (i : Nat) : Reaches before (i :: addr) path scopes where
  mirrors := h.mirrors
  fresh := fun scope name hd hs => h.fresh scope name hd ((List.suffix_cons i addr).trans hs)
  above := fun scope hs => Nat.lt_succ_of_lt (h.above scope hs)
  nodup := h.nodup

theorem refer (refs : List Reference) :
    Reaches (before ++ refersFrom path refs) addr path scopes where
  mirrors := h.mirrors.append fun _ _ _ => not_declares_refersFrom refs
  fresh := fun scope name hd =>
    h.fresh scope name ((declares_append.1 hd).resolve_right (not_declares_refersFrom refs))
  above := h.above
  nodup := h.nodup

theorem declare (x : String) (ready : Bool) :
    Reaches (before ++ declaresIn path [x]) addr path (scopes.bind x ready) where
  mirrors := h.mirrors.declare h.nodup x ready
  fresh := by
    intro scope name hd
    rcases declares_append.1 hd with hd | hd
    · exact h.fresh scope name hd
    · exact h.not_suffix (List.mem_of_mem_head? (declares_declaresIn.1 hd).1)
  above := h.above
  nodup := h.nodup

/-- A scope is entered in which nothing has been declared. -/
theorem enter (hd : ∀ name, ¬ Declares before scope name)
    (ha : scope.address.length < addr.length) (hn : scope ∉ path) :
    Reaches before addr (scope :: path) ([] :: scopes) where
  mirrors := .cons (fun name => ⟨nofun, fun h => absurd h (hd name)⟩) h.mirrors
  fresh := h.fresh
  above := List.forall_mem_cons.2 ⟨ha, h.above⟩
  nodup := List.nodup_cons.2 ⟨hn, h.nodup⟩

/-- The scope that the node itself opens, seen from one of its parts. -/
theorem opens (k : ScopeKind) (i : Nat) :
    Reaches before (i :: addr) (⟨k, addr⟩ :: path) ([] :: scopes) :=
  (h.down i).enter (fun name hd => h.fresh _ name hd (List.suffix_refl _)) (Nat.lt_succ_self _)
    fun hm => h.not_suffix hm (List.suffix_refl _)

omit h in
/-- After one part of a node its next parts are reached: two parts have no scope in common. -/
theorem after {i j : Nat} {scopes' : Scopes} (h : Reaches before (j :: addr) path scopes)
    (hij : i ≠ j) (ht : Mirrors (before ++ es) path scopes') (hw : Within (i :: addr) path es) :
    Reaches (before ++ es) (j :: addr) path scopes' where
  mirrors := ht
  fresh := by
    intro scope name hd hs
    rcases declares_append.1 hd with hd | hd
    · exact h.fresh scope name hd hs
    rcases hw scope name hd with hp | hi
    · exact h.not_suffix (List.mem_of_mem_head? hp) hs
    · have he := (List.suffix_of_suffix_length_le hi hs (Nat.le_refl _)).eq_of_length rfl
      exact hij (List.cons.inj he).1
  above := h.above
  nodup := h.nodup

end Reaches

/-- These are the references that are met, and what is recorded of them is how far away their names
were declared before. -/
structure Records (before es : List Event) (found : List Site) : Prop where
  ids : es.filterMap Event.id? = found.map Site.id
  entries : ∀ id d, (id, d) ∈ found.filterMap Site.entry? ↔
    ∃ met path ref rest, es = met ++ ⟨path, .refers ref⟩ :: rest ∧ ref.id = id ∧
      Nearest (before ++ met) path ref.name.text d

theorem records_nil : Records before [] [] where
  ids := rfl
  entries := fun id d => ⟨nofun, fun ⟨met, _, _, _, he, _⟩ => by simp at he⟩

theorem Records.append {found found' : List Site} (h : Records before es found)
    (h' : Records (before ++ es) es' found') : Records before (es ++ es') (found ++ found') := by
  refine ⟨by rw [List.filterMap_append, List.map_append, h.ids, h'.ids], fun id d => ?_⟩
  rw [List.filterMap_append, List.mem_append, h.entries, h'.entries]
  constructor
  · rintro (⟨met, path, ref, rest, rfl, hid, hd⟩ | ⟨met, path, ref, rest, rfl, hid, hd⟩)
    · exact ⟨met, path, ref, rest ++ es', by simp, hid, hd⟩
    · exact ⟨es ++ met, path, ref, rest, by simp, hid, by rwa [← List.append_assoc]⟩
  · rintro ⟨met, path, ref, rest, he, hid, hd⟩
    rcases List.append_eq_append_iff.1 he with ⟨more, rfl, he'⟩ | ⟨more, rfl, he'⟩
    · rw [← List.append_assoc] at hd
      exact .inr ⟨more, path, ref, rest, he', hid, hd⟩
    · cases more with
      | nil =>
        rw [List.nil_append] at he'
        rw [List.append_nil]
        exact .inr ⟨[], path, ref, rest, he'.symm, hid, by rwa [List.append_nil]⟩
      | cons first more =>
        obtain ⟨rfl, rfl⟩ := List.cons.inj he'
        exact .inl ⟨met, path, ref, more, rfl, hid, hd⟩

theorem records_declaresIn (names : List String) : Records before (declaresIn path names) [] where
  ids := by
    rw [List.map_nil, List.filterMap_eq_nil_iff]
    intro e he
    obtain ⟨x, -, rfl⟩ := List.mem_map.1 he
    rfl
  entries := by
    refine fun id d => ⟨nofun, fun ⟨met, outer, ref, rest, he, _⟩ => ?_⟩
    have hm : (⟨outer, .refers ref⟩ : Event) ∈ declaresIn path names := he ▸ by simp
    obtain ⟨x, -, hx⟩ := List.mem_map.1 hm
    cases hx

structure Site.Places (ctx : Context) (site : Site) (ref : Reference) : Prop where
  context : site.context = ctx
  id : site.id = ref.id
  name : site.name = ref.name.text

theorem records_reference {ctx : Context} {site : Site} {ref : Reference}
    (h : Mirrors before path ctx.scopes) (hs : site.Places ctx ref) :
    Records before [⟨path, .refers ref⟩] [site] where
  ids := by simp [Event.id?, hs.id]
  entries := by
    intro id d
    have hd : site.depth? = some d ↔ Nearest before path ref.name.text d := by
      rw [Site.depth?, hs.context, hs.name]
      exact h.depth?_eq_some
    simp only [List.mem_filterMap, List.mem_singleton, exists_eq_left, Site.entry?,
      Option.map_eq_some_iff, Prod.mk.injEq, hs.id]
    constructor
    · rintro ⟨_, hx, rfl, rfl⟩
      exact ⟨[], path, ref, [], rfl, rfl, by rw [List.append_nil]; exact hd.1 hx⟩
    · rintro ⟨met, _, _, rest, he, rfl, hx⟩
      cases met with
      | nil =>
        cases he
        rw [List.append_nil] at hx
        exact ⟨d, hd.2 hx, rfl, rfl⟩
      | cons => simp at he

/-- References do not change what is declared. -/
theorem records_refersFrom {ctx : Context} (h : Mirrors before path ctx.scopes)
    {found : List Site} {refs : List Reference} (hs : List.Forall₂ (Site.Places ctx) found refs) :
    Records before (refersFrom path refs) found := by
  induction hs generalizing before with
  | nil => exact records_nil
  | @cons site ref found refs hp hr ih =>
    have hm : Mirrors (before ++ refersFrom path [ref]) path ctx.scopes :=
      h.append fun _ _ _ => not_declares_refersFrom [ref]
    exact (records_reference h hp).append (ih hm)

mutual

theorem Expr.places (ctx : Context) (initOf : Option String) :
    (e : Expr) → List.Forall₂ (Site.Places ctx) (e.sites ctx initOf) e.references
  | .literal _ => .nil
  | .grouping e | .unary _ _ e | .get e _ => e.places ctx initOf
  | .binary _ _ e e' | .logical _ e e' | .set e' _ e | .index e _ e' =>
    List.rel_append (e.places ctx initOf) (e'.places ctx initOf)
  | .variable _ | .selfRef _ _ | .superRef _ _ _ => .cons ⟨rfl, rfl, rfl⟩ .nil
  | .assign _ e => List.rel_append (e.places ctx initOf) (.cons ⟨rfl, rfl, rfl⟩ .nil)
  | .indexSet e _ e' e'' =>
    List.rel_append (List.rel_append (e.places ctx initOf) (e'.places ctx initOf))
      (e''.places ctx initOf)
  | .call e _ es => List.rel_append (e.places ctx initOf) (Expr.placesOfAll ctx initOf es)
  | .array es => Expr.placesOfAll ctx initOf es

theorem Expr.placesOfAll (ctx : Context) (initOf : Option String) :
    (es : List Expr) →
      List.Forall₂ (Site.Places ctx) (Expr.sitesOfAll ctx initOf es) (Expr.referencesOfAll es)
  | [] => .nil
  | e :: rest => List.rel_append (e.places ctx initOf) (Expr.placesOfAll ctx initOf rest)

end

theorem Expr.placesOfOption (ctx : Context) (initOf : Option String) (e : Option Expr) :
    List.Forall₂ (Site.Places ctx) (Expr.sitesOfOption ctx initOf e)
      (Expr.referencesOfOption e) := by
  cases e with
  | none => exact .nil
  | some e => exact e.places ctx initOf

theorem places_superclass (ctx : Context) (name : Name) (superclass : Option Reference) :
    List.Forall₂ (Site.Places ctx) (sitesOfSuperclass ctx name superclass) superclass.toList := by
  cases superclass with
  | none => exact .nil
  | some ref => exact .cons ⟨rfl, rfl, rfl⟩ .nil

/-- All parameters are declared in the scope of their routine. -/
theorem Reaches.declareParams {names : Scope} (params : List Name)
    (h : Reaches before addr path (names :: scopes)) :
    Reaches (before ++ declaresIn path (params.map Name.text)) addr path
      (params.foldl (fun names p => (p.text, true) :: names) names :: scopes) := by
  induction params generalizing before names with
  | nil => simpa [declaresIn] using h
  | cons p rest ih =>
    have hp := ih (h.declare p.text true)
    rw [List.append_assoc] at hp
    exact hp

/-- The keywords of a class are declared in scopes of their own. -/
theorem Reaches.declareKeywords {ctx : Context} (h : Reaches before addr path ctx.scopes)
    (name : Name) (superclass : Option Reference) (methods : List (Routine Stmt)) (i : Nat) :
    Reaches (before ++ eventsOfKeywords addr path superclass) (i :: addr)
      (⟨.self, addr⟩ :: scopesOfSuper addr path superclass)
      ([("self", true)] :: (ctx.enterSuper name superclass methods).scopes) := by
  cases superclass with
  | none => exact (h.opens .self i).declare "self" true
  | some ref =>
    have hs := (h.opens .super i).declare "super" true
    have hself : Reaches (before ++ declaresIn (⟨.super, addr⟩ :: path) ["super"]) (i :: addr)
        (⟨.self, addr⟩ :: ⟨.super, addr⟩ :: path) ([] :: [("super", true)] :: ctx.scopes) := by
      refine hs.enter (fun x hd => ?_) (Nat.lt_succ_self _) fun hm => ?_
      · rcases declares_append.1 hd with hd | hd
        · exact h.fresh _ x hd (List.suffix_refl _)
        · cases (declares_declaresIn.1 hd).1
      · rcases List.mem_cons.1 hm with hm | hm
        · cases hm
        · exact h.not_suffix hm (List.suffix_refl _)
    have hd := hself.declare "self" true
    rw [List.append_assoc] at hd
    exact hd

theorem records_eventsOfKeywords (addr : Address) (path : List ScopeAt)
    (superclass : Option Reference) : Records before (eventsOfKeywords addr path superclass) [] :=
  (records_declaresIn _).append (records_declaresIn _)

/-- The context after a statement mirrors what was declared up to there. -/
theorem Stmt.mirrors :
    (s : Stmt) → ∀ {before : List Event} {addr : Address} {path : List ScopeAt} {ctx : Context},
      Reaches before addr path ctx.scopes →
      Mirrors (before ++ s.events addr path) path (s.sites ctx).1.scopes
  | .expr _, _, _, _, _, h | .returnWith _ _, _, _, _, _, h => (h.refer _).mirrors
  | .letVar name init, _, _, _, _, h => by
    rw [Stmt.sites, Context.scopes_bind, Stmt.events, ← List.append_assoc]
    exact ((h.declare name.text true).refer _).mirrors
  | .block body, _, addr, _, _, h =>
    h.mirrors.append (h.not_declares (Stmt.within_eventsOfAll 0 addr _ body).inside)
  | .ifThen _ s none, _, _, _, _, h | .whileDo _ s, _, _, _, _, h
  | .times _ _ s, _, _, _, _, h => by
    rw [Stmt.events, ← List.append_assoc]
    exact s.mirrors ((h.refer _).down 0)
  | .ifThen e s (some s'), _, _, _, _, h => by
    rw [Stmt.events, ← List.append_assoc, ← List.append_assoc]
    have ht := h.refer e.references
    have hs := s.mirrors (ht.down 0)
    exact s'.mirrors ((ht.down 1).after Nat.zero_ne_one hs (s.within_events _ _))
  | .breakLoop _, _, _, _, _, h => by
    rw [Stmt.events, List.append_nil]
    exact h.mirrors
  | .define r, _, addr, _, _, h => by
    rw [Stmt.sites, Context.scopes_bind, Stmt.events, ← List.append_assoc]
    have hd := h.declare r.name.text true
    exact hd.mirrors.append (hd.not_declares (Stmt.inside_eventsOfRoutine addr _ r))
  | .classDecl name superclass methods, _, addr, _, _, h => by
    rw [Stmt.sites, Context.scopes_bind, Stmt.events, ← List.append_assoc, ← List.append_assoc]
    have hd := (h.declare name.text true).refer superclass.toList
    exact hd.mirrors.append (hd.not_declares
      ((inside_eventsOfKeywords addr _ superclass).append
        (Stmt.inside_eventsOfMethods 0 addr _ methods)))

mutual

theorem Stmt.records :
    (s : Stmt) → ∀ {before : List Event} {addr : Address} {path : List ScopeAt} {ctx : Context},
      Reaches before addr path ctx.scopes → Records before (s.events addr path) (s.sites ctx).2
  | .expr e, _, _, _, ctx, h => records_refersFrom h.mirrors (e.places ctx none)
  | .returnWith _ e, _, _, _, ctx, h =>
    records_refersFrom h.mirrors (Expr.placesOfOption ctx none e)
  | .letVar name init, _, _, _, ctx, h => by
    have hd := (h.declare name.text false).mirrors
    rw [← Context.scopes_bind] at hd
    exact (records_declaresIn _).append (records_refersFrom hd (Expr.placesOfOption _ _ init))
  | .block body, _, _, _, _, h =>
    Stmt.recordsOfAll body fun j _ => h.opens .block j
  | .ifThen e s none, _, _, _, ctx, h | .whileDo e s, _, _, _, ctx, h
  | .times _ e s, _, _, _, ctx, h =>
    (records_refersFrom h.mirrors (e.places ctx none)).append (s.records ((h.refer _).down 0))
  | .ifThen e s (some s'), _, _, _, ctx, h => by
    have ht := h.refer e.references
    have hs := s.records (ht.down 0)
    have hs' := s'.records
      ((ht.down 1).after Nat.zero_ne_one (s.mirrors (ht.down 0)) (s.within_events _ _))
    rw [List.append_assoc] at hs'
    exact ((records_refersFrom h.mirrors (e.places ctx none)).append hs).append hs'
  | .breakLoop _, _, _, _, _, _ => records_nil
  | .define r, _, _, _, _, h => by
    have hd := h.declare r.name.text true
    rw [← Context.scopes_bind] at hd
    exact (records_declaresIn _).append (Stmt.recordsOfRoutine r hd)
  | .classDecl name superclass methods, before, addr, path, ctx, h => by
    have hd := h.declare name.text true
    rw [← Context.scopes_bind] at hd
    have hk := (hd.refer superclass.toList).declareKeywords name superclass methods
    refine (records_declaresIn _).append
      ((records_refersFrom hd.mirrors (places_superclass _ name superclass)).append ?_)
    exact (records_eventsOfKeywords addr path superclass).append
      (Stmt.recordsOfMethods methods fun j _ => hk j)

theorem Stmt.recordsOfAll :
    (ss : List Stmt) → ∀ {before : List Event} {i : Nat} {addr : Address} {path : List ScopeAt}
      {ctx : Context}, (∀ j, i ≤ j → Reaches before (j :: addr) path ctx.scopes) →
      Records before (Stmt.eventsOfAll i addr path ss) (Stmt.sitesOfAll ctx ss).2
  | [], _, _, _, _, _, _ => records_nil
  | s :: rest, _, i, _, _, _, h => by
    have hi := h i (Nat.le_refl i)
    refine (s.records hi).append (Stmt.recordsOfAll rest fun j hj => ?_)
    exact (h j (Nat.le_of_succ_le hj)).after (Nat.ne_of_lt hj) (s.mirrors hi) (s.within_events _ _)

theorem Stmt.recordsOfRoutine :
    (r : Routine Stmt) → ∀ {before : List Event} {addr : Address} {path : List ScopeAt}
      {ctx : Context}, Reaches before addr path ctx.scopes →
      Records before (Stmt.eventsOfRoutine addr path r) (Stmt.sitesOfRoutine ctx r)
  | ⟨_, params, body⟩, _, _, _, _, h =>
    (records_declaresIn _).append
      (Stmt.recordsOfAll body fun j _ => (h.opens .routine j).declareParams params)

theorem Stmt.recordsOfMethods :
    (rs : List (Routine Stmt)) → ∀ {before : List Event} {i : Nat} {addr : Address}
      {path : List ScopeAt} {ctx : Context},
      (∀ j, i ≤ j → Reaches before (j :: addr) path ([("self", true)] :: ctx.scopes)) →
      Records before (Stmt.eventsOfMethods i addr path rs) (Stmt.sitesOfMethods ctx rs)
  | [], _, _, _, _, _, _ => records_nil
  | r :: rest, _, i, addr, path, ctx, h => by
    have hi := h i (Nat.le_refl i)
    have hw := Stmt.inside_eventsOfRoutine (i :: addr) path r
    refine (Stmt.recordsOfRoutine r hi).append
      (Stmt.recordsOfMethods rest fun j hj => ?_)
    exact (h j (Nat.le_of_succ_le hj)).after (Nat.ne_of_lt hj)
      (hi.mirrors.append (hi.not_declares hw)) hw.within

end

theorem exists_nearest {path : List ScopeAt} :
    (∃ d, Nearest before path name d) ↔ ∃ scope ∈ path, Declares before scope name := by
  constructor
  · rintro ⟨d, inner, scope, outer, rfl, -, hd, -⟩
    exact ⟨scope, List.mem_append_right _ List.mem_cons_self, hd⟩
  · rintro ⟨scope, hs, hd⟩
    induction path with
    | nil => cases hs
    | cons first rest ih =>
      by_cases hf : Declares before first name
      · exact ⟨0, [], first, rest, rfl, rfl, hf, nofun⟩
      · have hr : scope ∈ rest := by
          rcases List.mem_cons.1 hs with rfl | hr
          · exact absurd hd hf
          · exact hr
        obtain ⟨d, inner, scope, outer, rfl, rfl, hd, hc⟩ := ih hr
        exact ⟨_, first :: inner, scope, outer, rfl, rfl, hd, List.forall_mem_cons.2 ⟨hf, hc⟩⟩

theorem mem_ids {ref : Reference} (h : ⟨path, .refers ref⟩ ∈ es) :
    ref.id ∈ es.filterMap Event.id? := List.mem_filterMap.2 ⟨_, h, rfl⟩

/-- A reference is met once if no id is met twice. -/
theorem eq_of_met {before' after after' : List Event} {path' : List ScopeAt} {ref ref' : Reference}
    (hn : (es.filterMap Event.id?).Nodup) (h : es = before ++ ⟨path, .refers ref⟩ :: after)
    (h' : es = before' ++ ⟨path', .refers ref'⟩ :: after') (hid : ref'.id = ref.id) :
    before' = before ∧ path' = path ∧ ref' = ref := by
  have hn' : ref.id ∉ before.filterMap Event.id? ∧ ref.id ∉ after.filterMap Event.id? := by
    rw [h, List.filterMap_append, List.nodup_append, List.filterMap_cons] at hn
    exact ⟨fun hb => hn.2.2 _ hb _ List.mem_cons_self rfl, (List.nodup_cons.1 hn.2.1).1⟩
  rcases List.append_eq_append_iff.1 (h.symm.trans h') with ⟨more, rfl, he⟩ | ⟨more, rfl, he⟩
  · cases more with
    | nil =>
      cases he
      exact ⟨List.append_nil _, rfl, rfl⟩
    | cons first more =>
      obtain ⟨-, rfl⟩ := List.cons.inj he
      exact absurd (mem_ids (List.mem_append_right _ List.mem_cons_self)) (hid ▸ hn'.2)
  · cases more with
    | nil =>
      cases he
      exact ⟨(List.append_nil _).symm, rfl, rfl⟩
    | cons first more =>
      obtain ⟨rfl, -⟩ := List.cons.inj he
      exact absurd (mem_ids (List.mem_append_right _ List.mem_cons_self)) (hid ▸ hn'.1)

theorem records_events (program : Program) : Records [] (events program) (sites program) :=
  Stmt.recordsOfAll program fun _ _ =>
    ⟨.nil, fun _ _ ⟨_, h⟩ => absurd h List.not_mem_nil, nofun, .nil⟩

/-- Reading a program with distinct ids from front to back meets its references one by one, and the
resolver records each one at which a scope around it has declared its name before, with the number
of scopes inside the innermost such scope. It records nothing else. -/
theorem depths_lexical {program : Program} {depths : List (Nat × Nat)}
    (hids : (Stmt.idsOfAll program).Nodup) (h : resolve program = .ok depths) :
    (events program).filterMap Event.id? = Stmt.idsOfAll program ∧
    (∀ (before : List Event) (scopes : List ScopeAt) (ref : Reference) (after : List Event),
      events program = before ++ ⟨scopes, .refers ref⟩ :: after →
      ((∃ d, (ref.id, d) ∈ depths) ↔ ∃ scope ∈ scopes, Declares before scope ref.name.text) ∧
      ∀ d, (ref.id, d) ∈ depths ↔ Nearest before scopes ref.name.text d) ∧
    ∀ id d, (id, d) ∈ depths → id ∈ Stmt.idsOfAll program := by
  have hr := records_events program
  have hi : (events program).filterMap Event.id? = Stmt.idsOfAll program :=
    hr.ids.trans (Stmt.map_id_sitesOfAll [] program)
  rw [(resolve_eq_ok h).1]
  have hd (before : List Event) (scopes : List ScopeAt) (ref : Reference) (after : List Event)
      (he : events program = before ++ ⟨scopes, .refers ref⟩ :: after) (d : Nat) :
      (ref.id, d) ∈ (sites program).filterMap Site.entry? ↔
        Nearest before scopes ref.name.text d := by
    rw [hr.entries]
    constructor
    · rintro ⟨met, path, ref', rest, he', hid, hd⟩
      obtain ⟨rfl, rfl, rfl⟩ := eq_of_met (hi ▸ hids) he he' hid
      exact hd
    · intro hd
      exact ⟨before, scopes, ref, after, he, rfl, hd⟩
  refine ⟨hi, fun before scopes ref after he => ⟨?_, hd before scopes ref after he⟩, ?_⟩
  · rw [← exists_nearest]
    exact exists_congr (hd before scopes ref after he)
  · intro id d hm
    obtain ⟨met, path, ref, rest, he, rfl, -⟩ := (hr.entries id d).1 hm
    rw [← hi, he]
    exact mem_ids (List.mem_append_right _ List.mem_cons_self)

/-- In `{ let x; def f(y) { x = y } let y }` the parameter is found right there, and `x` one scope
further out. -/
theorem depths_lexical_closure :
    let name (text : String) : Name := ⟨text, 1⟩
    let body : Stmt := .expr (.assign ⟨0, name "x"⟩ (.variable ⟨1, name "y"⟩))
    let program : Program := [.block [.letVar (name "x") none,
      .define ⟨name "f", [name "y"], [body]⟩, .letVar (name "y") none]]
    let block : ScopeAt := ⟨.block, [0]⟩
    let routine : ScopeAt := ⟨.routine, [1, 0]⟩
    let before : List Event := [⟨[block], .declares "x"⟩, ⟨[block], .declares "f"⟩,
      ⟨[routine, block], .declares "y"⟩, ⟨[routine, block], .refers ⟨1, name "y"⟩⟩]
    (Stmt.idsOfAll program).Nodup ∧ resolve program = .ok [(1, 0), (0, 1)] ∧
      events program = before ++ [⟨[routine, block], .refers ⟨0, name "x"⟩⟩,
        ⟨[block], .declares "y"⟩] ∧
      Nearest before [routine, block] "x" 1 := by
  intro name body program block routine before
  have hids : (Stmt.idsOfAll program).Nodup := by decide
  have hr : resolve program = .ok [(1, 0), (0, 1)] := by rfl
  have he : events program = before ++ ⟨[routine, block], .refers ⟨0, name "x"⟩⟩ ::
      [⟨[block], .declares "y"⟩] := rfl
  exact ⟨hids, hr, he, (((depths_lexical hids hr).2.1 before _ _ _ he).2 1).1 (by decide)⟩

end Jal
