import Jal.Proofs.Scope.Orderly
import Mathlib.Data.List.Forall2

namespace Jal

/-- What a place in a program can lie in. A method is known by its name, and the body of a class by
whether there is a superclass. -/
inductive Enclosure where
  | block
  | function
  | method (name : String)
  | classBody (hasSuperclass : Bool)
  | initializer (name : String)
deriving Repr, DecidableEq

namespace Enclosure

def isRoutine : Enclosure → Bool
  | function | method _ => true
  | _ => false

def isClass : Enclosure → Bool
  | classBody _ => true
  | _ => false

def isLocal : Enclosure → Bool
  | block | function | method _ => true
  | _ => false

end Enclosure

inductive Construct where
  | returnWith (line : Nat) (hasValue : Bool)
  | selfRef (line : Nat)
  | superRef (line : Nat)
  | read (name : Name)
  | inherits (heir parent : Name)
deriving Repr, DecidableEq

/-- A construct in its place: `around` is all that it stands in, the innermost first. -/
structure Occurrence where
  construct : Construct
  around : List Enclosure
deriving Repr, DecidableEq

namespace Occurrence

/-- The occurrence breaks a rule, which is reported like this. -/
inductive Violates : Occurrence → ScopeError → Prop where
  | returnOutsideFunction {line : Nat} {hasValue : Bool} {around : List Enclosure}
      (h : ∀ e ∈ around, e.isRoutine = false) :
      Violates ⟨.returnWith line hasValue, around⟩ (.returnOutsideFunction line)
  | returnValueFromConstructor {line : Nat} {around inner outer : List Enclosure}
      (h : around = inner ++ .method constructorName :: outer)
      (innermost : ∀ e ∈ inner, e.isRoutine = false) :
      Violates ⟨.returnWith line true, around⟩ (.returnValueFromConstructor line)
  | selfOutsideClass {line : Nat} {around : List Enclosure} (h : ∀ e ∈ around, e.isClass = false) :
      Violates ⟨.selfRef line, around⟩ (.selfOutsideClass line)
  | superOutsideClass {line : Nat} {around : List Enclosure} (h : ∀ e ∈ around, e.isClass = false) :
      Violates ⟨.superRef line, around⟩ (.superOutsideClass line)
  | superWithoutSuperclass {line : Nat} {around inner outer : List Enclosure}
      (h : around = inner ++ .classBody false :: outer)
      (innermost : ∀ e ∈ inner, e.isClass = false) :
      Violates ⟨.superRef line, around⟩ (.superWithoutSuperclass line)
  | selfReferenceInInitializer {name : Name} {around inner outer : List Enclosure}
      (h : around = inner ++ .initializer name.text :: outer)
      (notTop : ∃ e ∈ outer, e.isLocal = true) :
      Violates ⟨.read name, around⟩ (.selfReferenceInInitializer name.line name.text)
  | inheritFromSelf {heir parent : Name} {around : List Enclosure} (h : parent.text = heir.text) :
      Violates ⟨.inherits heir parent, around⟩ (.inheritFromSelf parent.line heir.text)

def Misplaced (o : Occurrence) : Prop := ∃ e, o.Violates e

end Occurrence

mutual

def Expr.occurrences (around : List Enclosure) : Expr → List Occurrence
  | .literal _ => []
  | .grouping inner => inner.occurrences around
  | .unary _ _ operand => operand.occurrences around
  | .binary _ _ left right => left.occurrences around ++ right.occurrences around
  | .logical _ left right => left.occurrences around ++ right.occurrences around
  | .variable ref => [⟨.read ref.name, around⟩]
  | .assign _ value => value.occurrences around
  | .selfRef _ line => [⟨.selfRef line, around⟩]
  | .superRef _ line _ => [⟨.superRef line, around⟩]
  | .get object _ => object.occurrences around
  | .set object _ value => value.occurrences around ++ object.occurrences around
  | .index object _ position => object.occurrences around ++ position.occurrences around
  | .indexSet object _ position value =>
    object.occurrences around ++ position.occurrences around ++ value.occurrences around
  | .call callee _ arguments =>
    callee.occurrences around ++ Expr.occurrencesOfAll around arguments
  | .array elements => Expr.occurrencesOfAll around elements

def Expr.occurrencesOfAll (around : List Enclosure) : List Expr → List Occurrence
  | [] => []
  | e :: rest => e.occurrences around ++ Expr.occurrencesOfAll around rest

end

def Expr.occurrencesOfOption (around : List Enclosure) : Option Expr → List Occurrence
  | none => []
  | some e => e.occurrences around

mutual

def Stmt.occurrences (around : List Enclosure) : Stmt → List Occurrence
  | .expr e => e.occurrences around
  | .letVar name init => Expr.occurrencesOfOption (.initializer name.text :: around) init
  | .block body => Stmt.occurrencesOfAll (.block :: around) body
  | .ifThen test consequence none =>
    test.occurrences around ++ consequence.occurrences around
  | .ifThen test consequence (some alternative) =>
    test.occurrences around ++ consequence.occurrences around ++ alternative.occurrences around
  | .whileDo test body => test.occurrences around ++ body.occurrences around
  | .times _ count body => count.occurrences around ++ body.occurrences around
  | .breakLoop _ => []
  | .define routine => Stmt.occurrencesOfRoutine (.function :: around) routine
  | .returnWith line value =>
    ⟨.returnWith line value.isSome, around⟩ :: Expr.occurrencesOfOption around value
  | .classDecl name superclass methods =>
    superclass.toList.map (fun ref => ⟨.inherits name ref.name, around⟩) ++
      Stmt.occurrencesOfMethods (.classBody superclass.isSome :: around) methods

def Stmt.occurrencesOfAll (around : List Enclosure) : List Stmt → List Occurrence
  | [] => []
  | s :: rest => s.occurrences around ++ Stmt.occurrencesOfAll around rest

def Stmt.occurrencesOfRoutine (around : List Enclosure) : Routine Stmt → List Occurrence
  | ⟨_, _, body⟩ => Stmt.occurrencesOfAll around body

def Stmt.occurrencesOfMethods (around : List Enclosure) : List (Routine Stmt) → List Occurrence
  | [] => []
  | r :: rest =>
    Stmt.occurrencesOfRoutine (.method r.name.text :: around) r ++
      Stmt.occurrencesOfMethods around rest

end

def occurrences (program : Program) : List Occurrence := Stmt.occurrencesOfAll [] program

def initializes (name : String) : List Enclosure → Bool
  | [] => false
  | e :: outer =>
    (e == .initializer name && outer.any Enclosure.isLocal) || initializes name outer

theorem initializes_iff {name : String} {around : List Enclosure} :
    initializes name around = true ↔
      ∃ inner outer, around = inner ++ .initializer name :: outer ∧
        ∃ e ∈ outer, e.isLocal = true := by
  induction around with
  | nil => simp [initializes]
  | cons e around ih =>
    simp only [initializes, Bool.or_eq_true, Bool.and_eq_true, beq_iff_eq, List.any_eq_true, ih]
    constructor
    · rintro (⟨rfl, hl⟩ | ⟨inner, outer, rfl, hl⟩)
      · exact ⟨[], around, rfl, hl⟩
      · exact ⟨e :: inner, outer, rfl, hl⟩
    · rintro ⟨inner, outer, h, hl⟩
      cases inner with
      | nil =>
        obtain ⟨rfl, rfl⟩ := List.cons.inj h
        exact .inl ⟨rfl, hl⟩
      | cons _ inner =>
        obtain ⟨rfl, rfl⟩ := List.cons.inj h
        exact .inr ⟨inner, outer, rfl, hl⟩

def routineKind (around : List Enclosure) : RoutineKind :=
  match around.find? Enclosure.isRoutine with
  | some .function => .function
  | some (.method name) => if name == constructorName then .constructor else .method
  | _ => .none

def classKind (around : List Enclosure) : ClassKind :=
  match around.find? Enclosure.isClass with
  | some (.classBody hasSuperclass) => if hasSuperclass then .derived else .base
  | _ => .none

theorem routineKind_eq_none {around : List Enclosure} :
    routineKind around = .none ↔ ∀ e ∈ around, e.isRoutine = false := by
  have hnone : around.find? Enclosure.isRoutine = none ↔ ∀ e ∈ around, e.isRoutine = false := by
    simp
  rw [← hnone, routineKind]
  cases hf : around.find? Enclosure.isRoutine with
  | none => simp
  | some e =>
    have he := List.find?_some hf
    cases e with
    | function => simp
    | method name =>
      simp only [reduceCtorEq, iff_false]
      split <;> simp
    | _ => cases he

theorem routineKind_eq_constructor {around : List Enclosure} :
    routineKind around = .constructor ↔ ∃ inner outer,
      around = inner ++ .method constructorName :: outer ∧ ∀ e ∈ inner, e.isRoutine = false := by
  have hsome : around.find? Enclosure.isRoutine = some (.method constructorName) ↔
      ∃ inner outer, around = inner ++ .method constructorName :: outer ∧
        ∀ e ∈ inner, e.isRoutine = false := by
    simp [List.find?_eq_some_iff_append, Enclosure.isRoutine]
  rw [← hsome, routineKind]
  cases around.find? Enclosure.isRoutine with
  | none => simp
  | some e => cases e <;> simp

theorem classKind_eq_none {around : List Enclosure} :
    classKind around = .none ↔ ∀ e ∈ around, e.isClass = false := by
  have hnone : around.find? Enclosure.isClass = none ↔ ∀ e ∈ around, e.isClass = false := by simp
  rw [← hnone, classKind]
  cases hf : around.find? Enclosure.isClass with
  | none => simp
  | some e =>
    have he := List.find?_some hf
    cases e with
    | classBody hasSuperclass => cases hasSuperclass <;> simp
    | _ => cases he

theorem classKind_eq_base {around : List Enclosure} :
    classKind around = .base ↔ ∃ inner outer,
      around = inner ++ .classBody false :: outer ∧ ∀ e ∈ inner, e.isClass = false := by
  have hsome : around.find? Enclosure.isClass = some (.classBody false) ↔ ∃ inner outer,
      around = inner ++ .classBody false :: outer ∧ ∀ e ∈ inner, e.isClass = false := by
    simp [List.find?_eq_some_iff_append, Enclosure.isClass]
  rw [← hsome, classKind]
  cases around.find? Enclosure.isClass with
  | none => simp
  | some e => cases e <;> simp

namespace Occurrence

def error? (o : Occurrence) : Option ScopeError :=
  match o.construct with
  | .returnWith line hasValue =>
    match routineKind o.around with
    | .none => some (.returnOutsideFunction line)
    | .constructor => if hasValue then some (.returnValueFromConstructor line) else none
    | _ => none
  | .selfRef line => if classKind o.around = .none then some (.selfOutsideClass line) else none
  | .superRef line =>
    match classKind o.around with
    | .none => some (.superOutsideClass line)
    | .base => some (.superWithoutSuperclass line)
    | .derived => none
  | .read name =>
    if initializes name.text o.around then
      some (.selfReferenceInInitializer name.line name.text)
    else none
  | .inherits heir parent =>
    if parent.text = heir.text then some (.inheritFromSelf parent.line heir.text) else none

theorem Violates.error?_eq {o : Occurrence} {e : ScopeError} (h : o.Violates e) :
    o.error? = some e := by
  cases h with
  | returnOutsideFunction h => simp only [error?, routineKind_eq_none.2 h]
  | returnValueFromConstructor h innermost =>
    simp only [error?, routineKind_eq_constructor.2 ⟨_, _, h, innermost⟩, if_true]
  | selfOutsideClass h => simp only [error?, classKind_eq_none.2 h, if_true]
  | superOutsideClass h => simp only [error?, classKind_eq_none.2 h]
  | superWithoutSuperclass h innermost =>
    simp only [error?, classKind_eq_base.2 ⟨_, _, h, innermost⟩]
  | selfReferenceInInitializer h notTop =>
    simp only [error?, initializes_iff.2 ⟨_, _, h, notTop⟩, if_true]
  | inheritFromSelf h => simp only [error?, if_pos h]

theorem violates_of_error? {o : Occurrence} {e : ScopeError} (h : o.error? = some e) :
    o.Violates e := by
  obtain ⟨construct, around⟩ := o
  cases construct with
  | returnWith line hasValue =>
    cases hk : routineKind around with
    | none =>
      simp only [error?, hk, Option.some.injEq] at h
      exact h ▸ .returnOutsideFunction (routineKind_eq_none.1 hk)
    | constructor =>
      obtain ⟨inner, outer, ha, hi⟩ := routineKind_eq_constructor.1 hk
      cases hasValue with
      | true =>
        simp only [error?, hk, if_true, Option.some.injEq] at h
        exact h ▸ .returnValueFromConstructor ha hi
      | false => simp [error?, hk] at h
    | function | method => simp [error?, hk] at h
  | selfRef line =>
    simp only [error?, Option.ite_none_right_eq_some, Option.some.injEq] at h
    exact h.2 ▸ .selfOutsideClass (classKind_eq_none.1 h.1)
  | superRef line =>
    cases hk : classKind around with
    | none =>
      simp only [error?, hk, Option.some.injEq] at h
      exact h ▸ .superOutsideClass (classKind_eq_none.1 hk)
    | base =>
      obtain ⟨inner, outer, ha, hi⟩ := classKind_eq_base.1 hk
      simp only [error?, hk, Option.some.injEq] at h
      exact h ▸ .superWithoutSuperclass ha hi
    | derived => simp [error?, hk] at h
  | read name =>
    simp only [error?, Option.ite_none_right_eq_some, Option.some.injEq] at h
    obtain ⟨inner, outer, ha, hl⟩ := initializes_iff.1 h.1
    exact h.2 ▸ .selfReferenceInInitializer ha hl
  | inherits heir parent =>
    simp only [error?, Option.ite_none_right_eq_some, Option.some.injEq] at h
    exact h.2 ▸ .inheritFromSelf h.1

theorem error?_eq_some_iff {o : Occurrence} {e : ScopeError} :
    o.error? = some e ↔ o.Violates e := ⟨violates_of_error?, Violates.error?_eq⟩

theorem isSome_error?_iff {o : Occurrence} : o.error?.isSome = true ↔ o.Misplaced := by
  simp only [Option.isSome_iff_exists, error?_eq_some_iff, Misplaced]

instance : DecidablePred Misplaced := fun _ => decidable_of_iff _ isSome_error?_iff

/-- The errors of the occurrences are those of the misplaced ones, one for each. -/
theorem forall₂_filter_iff {os : List Occurrence} {errors : List ScopeError} :
    List.Forall₂ Violates (os.filter (·.Misplaced)) errors ↔ errors = os.filterMap error? := by
  induction os generalizing errors with
  | nil => simp
  | cons o os ih =>
    cases he : o.error? with
    | none =>
      have hm : ¬o.Misplaced := by simp [← isSome_error?_iff, he]
      simp only [List.filter_cons, hm, decide_false, List.filterMap_cons, he]
      exact ih
    | some e =>
      have hm : o.Misplaced := ⟨e, violates_of_error? he⟩
      simp only [List.filter_cons, hm, decide_true, if_true, List.filterMap_cons, he,
        List.forall₂_cons_left_iff, ← error?_eq_some_iff, Option.some.injEq, ih]
      constructor
      · rintro ⟨_, _, rfl, rfl, rfl⟩
        rfl
      · rintro rfl
        exact ⟨e, _, rfl, rfl, rfl⟩

end Occurrence

/-- The resolver's view of a place: the innermost routine and class, and the variable whose
initializer is being read. -/
structure Tracks (around : List Enclosure) (tags : Surroundings) (scopes : Scopes) : Prop where
  routine : tags.routine = routineKind around
  inClass : tags.inClass = classKind around
  initializing : ∀ name, scopes.initializing name = initializes name around

/-- At a statement no initializer is being read, and only top-level code has no scopes around
it. -/
structure TracksStmt (around : List Enclosure) (tags : Surroundings) (scopes : Scopes) : Prop
    extends Tracks around tags scopes where
  isEmpty : scopes.isEmpty = !around.any Enclosure.isLocal
  settled : ∀ name, initializes name around = false

namespace TracksStmt

variable {around : List Enclosure} {tags : Surroundings} {scopes : Scopes}

theorem topLevel : TracksStmt [] .topLevel [] :=
  ⟨⟨rfl, rfl, fun _ => rfl⟩, rfl, fun _ => rfl⟩

/-- A name that is ready changes nothing. -/
theorem bind (h : TracksStmt around tags scopes) (name : String) :
    TracksStmt around tags (scopes.bind name true) := by
  refine ⟨⟨h.routine, h.inClass, fun x => ?_⟩, ?_, h.settled⟩
  · rw [← h.initializing x]
    have hx := h.initializing x
    rw [h.settled x] at hx
    cases scopes with
    | nil => rfl
    | cons scope outer =>
      by_cases he : x = name
      · rw [hx]
        simp [Scopes.bind, Scopes.initializing, he]
      · simp [Scopes.bind, Scopes.initializing, lookup_cons_of_ne he]
  · rw [← h.isEmpty]
    cases scopes <;> rfl

/-- In an initializer its variable is not ready, unless it is global. -/
theorem initializer (h : TracksStmt around tags scopes) (name : String) :
    Tracks (.initializer name :: around) tags (scopes.bind name false) := by
  refine ⟨h.routine, h.inClass, fun x => ?_⟩
  have hx := h.initializing x
  have hlocal : around.any Enclosure.isLocal = !scopes.isEmpty := by rw [h.isEmpty, Bool.not_not]
  rw [h.settled x] at hx
  rw [initializes, h.settled x, Bool.or_false, hlocal]
  cases scopes with
  | nil => simp [Scopes.bind, Scopes.initializing]
  | cons scope outer =>
    by_cases he : x = name
    · simp [Scopes.bind, Scopes.initializing, he]
    · have he' : (Enclosure.initializer name == .initializer x) = false := by
        simpa using Ne.symm he
      rw [he', Bool.false_and, ← hx]
      simp [Scopes.bind, Scopes.initializing, lookup_cons_of_ne he]

theorem block (h : TracksStmt around tags scopes) :
    TracksStmt (.block :: around) tags ([] :: scopes) :=
  ⟨⟨h.routine, h.inClass, fun x => (h.settled x).symm⟩, rfl, h.settled⟩

/-- The body of a routine has a scope of its own, whose names are ready. -/
theorem enter (hs : ∀ name, initializes name around = false) (e : Enclosure)
    (hl : e.isLocal = true) (hc : classKind (e :: around) = classKind around)
    (params : List Name) :
    TracksStmt (e :: around) ⟨routineKind (e :: around), classKind around⟩
      (scopes.enter params) := by
  have hsettled : ∀ name, initializes name (e :: around) = false := by
    intro name
    rw [initializes, hs name, Bool.or_false]
    cases e with
    | initializer x => cases hl
    | _ => rfl
  refine ⟨⟨rfl, hc.symm, fun name => ?_⟩, ?_, hsettled⟩
  · rw [hsettled name, Scopes.enter_eq]
    simpa [Scopes.initializing] using Scope.lookup_ofParams_ne params name
  · rw [Scopes.enter_eq, List.any_cons, hl]
    rfl

end TracksStmt

namespace Findings

theorem errors_none : none.errors = [] := rfl

theorem errors_error (e : ScopeError) : (error e).errors = [e] := rfl

theorem errors_reference (scopes : Scopes) (id : Nat) (name : String) :
    (reference scopes id name).errors = [] := rfl

/-- The errors of a single construct. -/
theorem errors_ite {p : Prop} [Decidable p] (e : ScopeError) (found : Findings) :
    (if p then error e else found).errors = if p then [e] else found.errors := by
  split <;> rfl

end Findings

open Findings (errors_append errors_none errors_error errors_reference errors_ite)

variable {around : List Enclosure} {tags : Surroundings} {scopes : Scopes}

mutual

theorem Expr.resolve_errors (h : Tracks around tags scopes) :
    (e : Expr) → (e.resolve tags scopes).errors =
      (e.occurrences around).filterMap Occurrence.error?
  | .literal _ => rfl
  | .grouping e | .unary _ _ e | .get e _ => e.resolve_errors h
  | .binary _ _ e e' | .logical _ e e' | .set e' _ e | .index e _ e' => by
    simp only [Expr.resolve, Expr.occurrences, errors_append, List.filterMap_append,
      e.resolve_errors h, e'.resolve_errors h]
  | .variable ref => by
    simp only [Expr.resolve, Expr.occurrences, errors_append, errors_ite, errors_none,
      errors_reference, List.append_nil, h.initializing, List.filterMap_cons, List.filterMap_nil,
      Occurrence.error?]
    split <;> simp
  | .assign _ e => by
    simp only [Expr.resolve, Expr.occurrences, errors_append, errors_reference, List.append_nil,
      e.resolve_errors h]
  | .selfRef _ _ => by
    simp only [Expr.resolve, Expr.occurrences, errors_ite, errors_reference, h.inClass,
      List.filterMap_cons, List.filterMap_nil, Occurrence.error?]
    split <;> simp
  | .superRef _ _ _ => by
    simp only [Expr.resolve, Expr.occurrences, h.inClass, List.filterMap_cons, List.filterMap_nil,
      Occurrence.error?]
    cases classKind around <;> rfl
  | .indexSet e _ e' e'' => by
    simp only [Expr.resolve, Expr.occurrences, errors_append, List.filterMap_append,
      e.resolve_errors h, e'.resolve_errors h, e''.resolve_errors h]
  | .call e _ es => by
    simp only [Expr.resolve, Expr.occurrences, errors_append, List.filterMap_append,
      e.resolve_errors h, Expr.resolveAll_errors h es]
  | .array es => Expr.resolveAll_errors h es

theorem Expr.resolveAll_errors (h : Tracks around tags scopes) :
    (es : List Expr) → (Expr.resolveAll tags scopes es).errors =
      (Expr.occurrencesOfAll around es).filterMap Occurrence.error?
  | [] => rfl
  | e :: rest => by
    simp only [Expr.resolveAll, Expr.occurrencesOfAll, errors_append, List.filterMap_append,
      e.resolve_errors h, Expr.resolveAll_errors h rest]

end

theorem Expr.resolveOption_errors (h : Tracks around tags scopes) (e : Option Expr) :
    (Expr.resolveOption tags scopes e).errors =
      (Expr.occurrencesOfOption around e).filterMap Occurrence.error? := by
  cases e with
  | none => rfl
  | some e => exact e.resolve_errors h

theorem misplacedReturn_errors (h : Tracks around tags scopes) (line : Nat) (hasValue : Bool) :
    (misplacedReturn tags line hasValue).errors =
      ([⟨.returnWith line hasValue, around⟩] : List Occurrence).filterMap Occurrence.error? := by
  simp only [misplacedReturn, h.routine, List.filterMap_cons, List.filterMap_nil,
    Occurrence.error?]
  cases routineKind around <;> cases hasValue <;> rfl

theorem resolveSuperclass_errors (scopes : Scopes) (name : Name) (superclass : Option Reference)
    (around : List Enclosure) :
    (resolveSuperclass scopes name superclass).errors =
      (superclass.toList.map fun ref =>
        (⟨.inherits name ref.name, around⟩ : Occurrence)).filterMap Occurrence.error? := by
  cases superclass with
  | none => rfl
  | some ref =>
    simp only [resolveSuperclass, errors_ite, errors_reference, Option.toList_some, List.map_cons,
      List.map_nil, List.filterMap_cons, List.filterMap_nil, Occurrence.error?]
    split <;> simp

/-- The scopes after a statement are tracked like those before it. -/
theorem Stmt.resolve_tracks : (s : Stmt) → {scopes : Scopes} → TracksStmt around tags scopes →
    TracksStmt around tags (s.resolve tags scopes).1
  | .expr _, _, h | .block _, _, h | .breakLoop _, _, h | .returnWith _ _, _, h => by
    simpa only [Stmt.resolve] using h
  | .letVar _ _, _, h | .define _, _, h | .classDecl _ _ _, _, h => by
    simpa only [Stmt.resolve] using h.bind _
  | .ifThen _ s none, _, h | .whileDo _ s, _, h | .times _ _ s, _, h => by
    simpa only [Stmt.resolve] using s.resolve_tracks h
  | .ifThen _ s (some s'), _, h => by
    simpa only [Stmt.resolve] using s'.resolve_tracks (s.resolve_tracks h)

mutual

theorem Stmt.resolve_errors : (s : Stmt) → {around : List Enclosure} → {tags : Surroundings} →
    {scopes : Scopes} → TracksStmt around tags scopes →
    (s.resolve tags scopes).2.errors = (s.occurrences around).filterMap Occurrence.error?
  | .expr e, _, _, _, h => by
    simpa only [Stmt.resolve, Stmt.occurrences] using e.resolve_errors h.toTracks
  | .letVar name e, _, _, _, h => by
    simpa only [Stmt.resolve, Stmt.occurrences] using
      Expr.resolveOption_errors (h.initializer name.text) e
  | .block body, _, _, _, h => by
    simpa only [Stmt.resolve, Stmt.occurrences] using Stmt.resolveAll_errors body h.block
  | .ifThen e s none, _, _, _, h | .whileDo e s, _, _, _, h | .times _ e s, _, _, _, h => by
    simp only [Stmt.resolve, Stmt.occurrences, errors_append, List.filterMap_append,
      e.resolve_errors h.toTracks, s.resolve_errors h]
  | .ifThen e s (some s'), _, _, _, h => by
    simp only [Stmt.resolve, Stmt.occurrences, errors_append, List.filterMap_append,
      e.resolve_errors h.toTracks, s.resolve_errors h, s'.resolve_errors (s.resolve_tracks h)]
  | .breakLoop _, _, _, _, _ => by simp only [Stmt.resolve, Stmt.occurrences]; rfl
  | .define r, around, tags, scopes, h => by
    have hkind : routineKind (.function :: around) = .function := rfl
    have hr := Stmt.resolveRoutine_errors r h.settled .function rfl rfl
      (scopes.bind r.name.text true)
    rw [hkind, ← h.inClass] at hr
    simpa only [Stmt.resolve, Stmt.occurrences] using hr
  | .returnWith line e, _, _, _, h => by
    rw [Stmt.resolve, Stmt.occurrences, errors_append, misplacedReturn_errors h.toTracks,
      Expr.resolveOption_errors h.toTracks, ← List.filterMap_append, List.singleton_append]
  | .classDecl name superclass rs, around, _, scopes, h => by
    have hs : ∀ x, initializes x (.classBody superclass.isSome :: around) = false := h.settled
    have hrs := Stmt.resolveMethods_errors rs hs
      ((scopes.bind name.text true).enterClass superclass)
    simp only [Stmt.resolve, Stmt.occurrences, errors_append, List.filterMap_append,
      resolveSuperclass_errors _ name superclass around, ← hrs]
    rfl

theorem Stmt.resolveAll_errors : (ss : List Stmt) → {around : List Enclosure} →
    {tags : Surroundings} → {scopes : Scopes} → TracksStmt around tags scopes →
    (Stmt.resolveAll tags scopes ss).2.errors =
      (Stmt.occurrencesOfAll around ss).filterMap Occurrence.error?
  | [], _, _, _, _ => by simp only [Stmt.resolveAll, Stmt.occurrencesOfAll]; rfl
  | s :: rest, _, _, _, h => by
    simp only [Stmt.resolveAll, Stmt.occurrencesOfAll, errors_append, List.filterMap_append,
      s.resolve_errors h, Stmt.resolveAll_errors rest (s.resolve_tracks h)]

theorem Stmt.resolveRoutine_errors : (r : Routine Stmt) → {around : List Enclosure} →
    (∀ name, initializes name around = false) → (e : Enclosure) → e.isLocal = true →
    classKind (e :: around) = classKind around → (scopes : Scopes) →
    (Stmt.resolveRoutine ⟨routineKind (e :: around), classKind around⟩ scopes r).errors =
      (Stmt.occurrencesOfRoutine (e :: around) r).filterMap Occurrence.error?
  | ⟨_, params, body⟩, _, hs, e, hl, hc, _ => by
    simpa only [Stmt.resolveRoutine, Stmt.occurrencesOfRoutine] using
      Stmt.resolveAll_errors body (.enter hs e hl hc params)

theorem Stmt.resolveMethods_errors : (rs : List (Routine Stmt)) → {around : List Enclosure} →
    (∀ name, initializes name around = false) → (scopes : Scopes) →
    (Stmt.resolveMethods (classKind around) scopes rs).errors =
      (Stmt.occurrencesOfMethods around rs).filterMap Occurrence.error?
  | [], _, _, _ => by simp only [Stmt.resolveMethods, Stmt.occurrencesOfMethods]; rfl
  | r :: rest, around, hs, scopes => by
    have hkind : routineKind (.method r.name.text :: around) =
        if r.isConstructor = true then .constructor else .method := rfl
    have hr := Stmt.resolveRoutine_errors r hs (.method r.name.text) rfl rfl scopes
    rw [hkind] at hr
    simp only [Stmt.resolveMethods, Stmt.occurrencesOfMethods, errors_append,
      List.filterMap_append, hr, Stmt.resolveMethods_errors rest hs scopes]

end

theorem filterMap_error?_eq_nil {os : List Occurrence} :
    os.filterMap Occurrence.error? = [] ↔ ∀ o ∈ os, ¬o.Misplaced := by
  simp only [List.filterMap_eq_nil_iff, ← Occurrence.isSome_error?_iff, Bool.not_eq_true,
    Option.isSome_eq_false_iff, Option.isNone_iff_eq_none]

theorem errors_eq (program : Program) : (Stmt.resolveAll .topLevel [] program).2.errors =
    (occurrences program).filterMap Occurrence.error? := Stmt.resolveAll_errors program .topLevel

theorem not_misplaced_of_resolve {program : Program} {depths : List (Nat × Nat)}
    (h : resolve program = .ok depths) : ∀ o ∈ occurrences program, ¬o.Misplaced := by
  simp only [resolve, errors_eq] at h
  split at h
  · rename_i hnil
    exact filterMap_error?_eq_nil.1 (List.isEmpty_iff.1 hnil)
  · cases h

/-- A program is accepted if it has no misplaced construct. Otherwise there is one error for each of
them, that of the rule which it breaks, and no other. -/
theorem resolve_reports (program : Program) :
    ((∃ depths, resolve program = .ok depths) ↔ ∀ o ∈ occurrences program, ¬o.Misplaced) ∧
      ∀ errors, resolve program = .error errors ↔ errors ≠ [] ∧
        List.Forall₂ Occurrence.Violates ((occurrences program).filter (·.Misplaced)) errors := by
  simp only [Occurrence.forall₂_filter_iff, ← filterMap_error?_eq_nil, resolve, errors_eq]
  cases (occurrences program).filterMap Occurrence.error? with
  | nil => simp
  | cons e rest =>
    simp only [List.isEmpty_cons, Bool.false_eq_true, if_false, reduceCtorEq, exists_false,
      Except.error.injEq]
    refine ⟨trivial, fun errors => ⟨?_, fun h => h.2.symm⟩⟩
    rintro rfl
    exact ⟨List.cons_ne_nil _ _, rfl⟩

-- A function inside a constructor may return a value, the constructor may not.
example : resolve [.classDecl ⟨"C", 1⟩ none [⟨⟨"constructor", 2⟩, [],
    [.define ⟨⟨"f", 3⟩, [], [.returnWith 4 (some (.literal .none))]⟩,
      .returnWith 5 (some (.literal .none))]⟩]] =
    .error [.returnValueFromConstructor 5] := rfl

end Jal
