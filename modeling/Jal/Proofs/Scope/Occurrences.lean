import Mathlib.Logic.Relation
import Jal.Proofs.Scope.Lexical

namespace Jal

structure StmtAt where
  stmt : Stmt
  address : Address
  scopes : List ScopeAt

def StmtAt.events (l : StmtAt) : List Event := l.stmt.events l.address l.scopes

inductive StmtAt.Part : StmtAt → StmtAt → Prop where
  | block {addr : Address} {path : List ScopeAt} {body : List Stmt} {i : Nat} {s : Stmt}
      (hs : body[i]? = some s) :
      Part ⟨.block body, addr, path⟩ ⟨s, i :: addr, ⟨.block, addr⟩ :: path⟩
  | consequence {addr : Address} {path : List ScopeAt} {test : Expr} {s : Stmt}
      {alternative : Option Stmt} :
      Part ⟨.ifThen test s alternative, addr, path⟩ ⟨s, 0 :: addr, path⟩
  | alternative {addr : Address} {path : List ScopeAt} {test : Expr} {s s' : Stmt} :
      Part ⟨.ifThen test s (some s'), addr, path⟩ ⟨s', 1 :: addr, path⟩
  | whileDo {addr : Address} {path : List ScopeAt} {test : Expr} {s : Stmt} :
      Part ⟨.whileDo test s, addr, path⟩ ⟨s, 0 :: addr, path⟩
  | times {addr : Address} {path : List ScopeAt} {line : Nat} {count : Expr} {s : Stmt} :
      Part ⟨.times line count s, addr, path⟩ ⟨s, 0 :: addr, path⟩
  | define {addr : Address} {path : List ScopeAt} {r : Routine Stmt} {i : Nat} {s : Stmt}
      (hs : r.body[i]? = some s) :
      Part ⟨.define r, addr, path⟩ ⟨s, i :: addr, ⟨.routine, addr⟩ :: path⟩
  | method {addr : Address} {path : List ScopeAt} {name : Name} {superclass : Option Reference}
      {methods : List (Routine Stmt)} {r : Routine Stmt} {i j : Nat} {s : Stmt}
      (hr : methods[j]? = some r) (hs : r.body[i]? = some s) :
      Part ⟨.classDecl name superclass methods, addr, path⟩ ⟨s, i :: j :: addr,
        ⟨.routine, j :: addr⟩ :: ⟨.self, addr⟩ :: scopesOfSuper addr path superclass⟩

/-- The statement is one of the program or a part of one, at any depth. -/
def Occurs (program : Program) (l : StmtAt) : Prop :=
  ∃ i s, program[i]? = some s ∧ Relation.ReflTransGen StmtAt.Part ⟨s, [i], []⟩ l

variable {es es' part part' : List Event} {addr addr' : Address} {path : List ScopeAt}
  {l l' : StmtAt}

/-- Inside the scopes of the path there are only scopes at the address or below it. -/
def Beneath (addr : Address) (path : List ScopeAt) (es : List Event) : Prop :=
  ∀ e ∈ es, ∃ inner, e.scopes = inner ++ path ∧ ∀ scope ∈ inner, addr <:+ scope.address

theorem Beneath.append (h : Beneath addr path es) (h' : Beneath addr path es') :
    Beneath addr path (es ++ es') := List.forall_mem_append.2 ⟨h, h'⟩

theorem Beneath.up {i : Nat} (h : Beneath (i :: addr) path es) : Beneath addr path es := by
  intro e he
  obtain ⟨inner, hs, hi⟩ := h e he
  exact ⟨inner, hs, fun scope hm => (List.suffix_cons i addr).trans (hi scope hm)⟩

theorem Beneath.leave {k : ScopeKind} (h : Beneath addr (⟨k, addr⟩ :: path) es) :
    Beneath addr path es := by
  intro e he
  obtain ⟨inner, hs, hi⟩ := h e he
  refine ⟨inner ++ [⟨k, addr⟩], by rw [hs, List.append_assoc]; rfl, ?_⟩
  exact List.forall_mem_append.2 ⟨hi, List.forall_mem_singleton.2 (List.suffix_refl _)⟩

/-- What belongs to the scope that a node opens is met right in it. -/
theorem Beneath.scopes_eq {k : ScopeKind} {i : Nat} {e : Event}
    (h : Beneath (i :: addr) (⟨k, addr⟩ :: path) es) (he : e ∈ es)
    (hs : e.scopes.head? = some ⟨k, addr⟩) : e.scopes = ⟨k, addr⟩ :: path := by
  obtain ⟨inner, hi, hb⟩ := h e he
  cases inner with
  | nil => exact hi
  | cons first inner =>
    rw [hi] at hs
    cases hs
    exact absurd (hb _ List.mem_cons_self).length_le (Nat.not_succ_le_self _)

theorem beneath_nil : Beneath addr path [] := fun _ he => absurd he List.not_mem_nil

theorem beneath_refersFrom (refs : List Reference) : Beneath addr path (refersFrom path refs) := by
  intro e he
  obtain ⟨ref, -, rfl⟩ := List.mem_map.1 he
  exact ⟨[], rfl, nofun⟩

theorem beneath_declaresIn (names : List String) : Beneath addr path (declaresIn path names) := by
  intro e he
  obtain ⟨name, -, rfl⟩ := List.mem_map.1 he
  exact ⟨[], rfl, nofun⟩

theorem Beneath.leaveSuper (superclass : Option Reference)
    (h : Beneath addr (scopesOfSuper addr path superclass) es) : Beneath addr path es := by
  cases superclass with
  | none => exact h
  | some ref => exact h.leave

mutual

theorem Stmt.beneath_events (addr : Address) (path : List ScopeAt) :
    (s : Stmt) → Beneath addr path (s.events addr path)
  | .expr _ | .returnWith _ _ => beneath_refersFrom _
  | .letVar _ _ => .append (beneath_declaresIn _) (beneath_refersFrom _)
  | .block body => (Stmt.beneath_eventsOfAll 0 addr _ body).leave
  | .ifThen _ s none | .whileDo _ s | .times _ _ s =>
    .append (beneath_refersFrom _) (s.beneath_events (0 :: addr) path).up
  | .ifThen _ s (some s') =>
    .append (.append (beneath_refersFrom _) (s.beneath_events (0 :: addr) path).up)
      (s'.beneath_events (1 :: addr) path).up
  | .breakLoop _ => beneath_nil
  | .define r => .append (beneath_declaresIn _) (Stmt.beneath_eventsOfRoutine addr path r)
  | .classDecl _ superclass methods =>
    .append (beneath_declaresIn _) (.append (beneath_refersFrom _)
      (.append (.append (.leaveSuper superclass (beneath_declaresIn _))
        (.leaveSuper superclass (.leave (beneath_declaresIn _))))
        (.leaveSuper superclass (Stmt.beneath_eventsOfMethods 0 addr _ methods).leave)))

theorem Stmt.beneath_eventsOfAll (i : Nat) (addr : Address) (path : List ScopeAt) :
    (ss : List Stmt) → Beneath addr path (Stmt.eventsOfAll i addr path ss)
  | [] => beneath_nil
  | s :: rest =>
    .append (s.beneath_events (i :: addr) path).up (Stmt.beneath_eventsOfAll (i + 1) addr path rest)

theorem Stmt.beneath_eventsOfRoutine (addr : Address) (path : List ScopeAt) :
    (r : Routine Stmt) → Beneath addr path (Stmt.eventsOfRoutine addr path r)
  | ⟨_, _, body⟩ =>
    .append (beneath_declaresIn _).leave (Stmt.beneath_eventsOfAll 0 addr _ body).leave

theorem Stmt.beneath_eventsOfMethods (i : Nat) (addr : Address) (path : List ScopeAt) :
    (rs : List (Routine Stmt)) → Beneath addr path (Stmt.eventsOfMethods i addr path rs)
  | [] => beneath_nil
  | r :: rest =>
    .append (Stmt.beneath_eventsOfRoutine (i :: addr) path r).up
      (Stmt.beneath_eventsOfMethods (i + 1) addr path rest)

end

/-- The scopes belong to nodes further up than the address. -/
def Above (addr : Address) (path : List ScopeAt) : Prop :=
  ∀ scope ∈ path, scope.address.length < addr.length

def Apart (addr : Address) (es : List Event) : Prop :=
  ∀ e ∈ es, ∀ scope ∈ e.scopes, ¬ addr <:+ scope.address

/-- The part is one stretch of the events, and no other event is in a scope at the address or below
it. -/
def Isolates (addr : Address) (es part : List Event) : Prop :=
  ∃ before after, es = before ++ part ++ after ∧ Apart addr before ∧ Apart addr after

theorem Above.not_suffix (h : Above addr path) {scope : ScopeAt} (hs : scope ∈ path) :
    ¬ addr <:+ scope.address :=
  fun ha => Nat.not_le_of_lt (h scope hs) ha.length_le

theorem Above.down (h : Above addr path) (i : Nat) : Above (i :: addr) path :=
  fun scope hs => Nat.lt_succ_of_lt (h scope hs)

theorem Above.opens (h : Above addr path) (k : ScopeKind) (i : Nat) :
    Above (i :: addr) (⟨k, addr⟩ :: path) :=
  List.forall_mem_cons.2 ⟨Nat.lt_succ_self _, h.down i⟩

theorem Apart.append (h : Apart addr es) (h' : Apart addr es') : Apart addr (es ++ es') :=
  List.forall_mem_append.2 ⟨h, h'⟩

theorem Apart.down (h : Apart addr es) (ha : addr <:+ addr') : Apart addr' es :=
  fun e he scope hs hb => h e he scope hs (ha.trans hb)

theorem apart_nil : Apart addr [] := fun _ he => absurd he List.not_mem_nil

theorem Above.apart_refersFrom (h : Above addr path) (refs : List Reference) :
    Apart addr (refersFrom path refs) := by
  intro e he scope hs
  obtain ⟨ref, -, rfl⟩ := List.mem_map.1 he
  exact h.not_suffix hs

theorem Above.apart_declaresIn (h : Above addr path) (names : List String) :
    Apart addr (declaresIn path names) := by
  intro e he scope hs
  obtain ⟨name, -, rfl⟩ := List.mem_map.1 he
  exact h.not_suffix hs

/-- Two parts of a node have no scope of their own in common. -/
theorem Beneath.apart {i j : Nat} (h : Beneath (i :: addr) path es) (hij : i ≠ j)
    (hp : Above (j :: addr) path) : Apart (j :: addr) es := by
  intro e he scope hs hj
  obtain ⟨inner, hi, hb⟩ := h e he
  rw [hi] at hs
  rcases List.mem_append.1 hs with hs | hs
  · have heq := (List.suffix_of_suffix_length_le (hb scope hs) hj (Nat.le_refl _)).eq_of_length rfl
    exact hij (List.cons.inj heq).1
  · exact hp.not_suffix hs hj

theorem isolates_self : Isolates addr es es := ⟨[], [], by simp, apart_nil, apart_nil⟩

theorem Isolates.trans (h : Isolates addr es part) (h' : Isolates addr' part part')
    (ha : addr <:+ addr') : Isolates addr' es part' := by
  obtain ⟨before, after, rfl, hb, ha₁⟩ := h
  obtain ⟨before', after', rfl, hb', ha₂⟩ := h'
  refine ⟨before ++ before', after' ++ after, by simp only [List.append_assoc], ?_, ?_⟩
  · exact (hb.down ha).append hb'
  · exact ha₂.append (ha₁.down ha)

theorem Isolates.appendLeft (h : Isolates addr es part) (hp : Apart addr es') :
    Isolates addr (es' ++ es) part := by
  obtain ⟨before, after, rfl, hb, ha⟩ := h
  exact ⟨es' ++ before, after, by simp only [List.append_assoc], hp.append hb, ha⟩

theorem Isolates.appendRight (h : Isolates addr es part) (hp : Apart addr es') :
    Isolates addr (es ++ es') part := by
  obtain ⟨before, after, rfl, hb, ha⟩ := h
  exact ⟨before, after ++ es', by simp only [List.append_assoc], hb, ha.append hp⟩

/-- One of several parts of a node, each with the scopes of its own. -/
theorem isolates_flatMap {α : Type} {f : Nat → α → List Event} {xs : List α} {k : Nat} {x : α}
    (hx : xs[k]? = some x) (hf : ∀ j y, Beneath (j :: addr) path (f j y))
    (hp : Above (k :: addr) path) :
    Isolates (k :: addr) (xs.zipIdx.flatMap fun y => f y.2 y.1) (f k x) := by
  -- a part with another index has its scopes at another address
  have others (ys : List α) (i : Nat) (hk : ∀ y ∈ ys.zipIdx i, y.2 ≠ k) :
      Apart (k :: addr) ((ys.zipIdx i).flatMap fun y => f y.2 y.1) := by
    intro e he
    obtain ⟨y, hy, he⟩ := List.mem_flatMap.1 he
    exact (hf y.2 y.1).apart (hk y hy) hp e he
  obtain ⟨hlt, rfl⟩ := List.getElem?_eq_some_iff.1 hx
  have hsplit : xs = xs.take k ++ xs[k] :: xs.drop (k + 1) := by simp
  have hlen : (xs.take k).length = k := List.length_take_of_le (Nat.le_of_lt hlt)
  refine ⟨(xs.take k).zipIdx.flatMap fun y => f y.2 y.1,
    ((xs.drop (k + 1)).zipIdx (k + 1)).flatMap fun y => f y.2 y.1, ?_, ?_, ?_⟩
  · conv_lhs => rw [hsplit, List.zipIdx_append, hlen, Nat.zero_add, List.zipIdx_cons]
    rw [List.flatMap_append, List.flatMap_cons, List.append_assoc]
  · refine others _ 0 fun y hy => ?_
    have := List.snd_lt_of_mem_zipIdx hy
    omega
  · refine others _ (k + 1) fun y hy => ?_
    have := List.le_snd_of_mem_zipIdx hy
    omega

theorem Stmt.eventsOfAll_eq (i : Nat) (addr : Address) (path : List ScopeAt) (ss : List Stmt) :
    Stmt.eventsOfAll i addr path ss =
      (ss.zipIdx i).flatMap fun y => y.1.events (y.2 :: addr) path := by
  induction ss generalizing i with
  | nil => rfl
  | cons s rest ih => rw [Stmt.eventsOfAll, ih, List.zipIdx_cons, List.flatMap_cons]

theorem Stmt.eventsOfMethods_eq (i : Nat) (addr : Address) (path : List ScopeAt)
    (rs : List (Routine Stmt)) :
    Stmt.eventsOfMethods i addr path rs =
      (rs.zipIdx i).flatMap fun y => Stmt.eventsOfRoutine (y.2 :: addr) path y.1 := by
  induction rs generalizing i with
  | nil => rfl
  | cons r rest ih => rw [Stmt.eventsOfMethods, ih, List.zipIdx_cons, List.flatMap_cons]

theorem isolates_eventsOfAll {ss : List Stmt} {i : Nat} {s : Stmt} (hs : ss[i]? = some s)
    (hp : Above (i :: addr) path) :
    Isolates (i :: addr) (Stmt.eventsOfAll 0 addr path ss) (s.events (i :: addr) path) := by
  rw [Stmt.eventsOfAll_eq]
  exact isolates_flatMap (f := fun j s => s.events (j :: addr) path) hs
    (fun j s => s.beneath_events (j :: addr) path) hp

theorem isolates_eventsOfMethods {rs : List (Routine Stmt)} {j : Nat} {r : Routine Stmt}
    (hr : rs[j]? = some r) (hp : Above (j :: addr) path) :
    Isolates (j :: addr) (Stmt.eventsOfMethods 0 addr path rs)
      (Stmt.eventsOfRoutine (j :: addr) path r) := by
  rw [Stmt.eventsOfMethods_eq]
  exact isolates_flatMap (f := fun j r => Stmt.eventsOfRoutine (j :: addr) path r) hr
    (fun j r => Stmt.beneath_eventsOfRoutine (j :: addr) path r) hp

theorem isolates_eventsOfRoutine {r : Routine Stmt} {i : Nat} {s : Stmt} (hs : r.body[i]? = some s)
    (hp : Above addr path) :
    Isolates (i :: addr) (Stmt.eventsOfRoutine addr path r)
      (s.events (i :: addr) (⟨.routine, addr⟩ :: path)) := by
  obtain ⟨name, params, body⟩ := r
  have ha := hp.opens .routine i
  exact (isolates_eventsOfAll hs ha).appendLeft (ha.apart_declaresIn _)

/-- The scopes around a class, with those that it opens for its keywords. -/
theorem Above.keywords (h : Above addr path) (superclass : Option Reference) (j : Nat) :
    Above (j :: addr) (⟨.self, addr⟩ :: scopesOfSuper addr path superclass) := by
  cases superclass with
  | none => exact h.opens .self j
  | some ref => exact List.forall_mem_cons.2 ⟨Nat.lt_succ_self _, h.opens .super j⟩

theorem Stmt.AllProper.getElem? {ss : List Stmt} {i : Nat} {s : Stmt} (h : Stmt.AllProper ss)
    (hs : ss[i]? = some s) : s.Proper := by
  induction ss generalizing i with
  | nil => simp at hs
  | cons first rest ih =>
    cases i with
    | zero => exact Option.some.inj hs ▸ h.1
    | succ i => exact ih h.2 hs

theorem Stmt.RoutineProper.getElem? {r : Routine Stmt} {i : Nat} {s : Stmt}
    (h : Stmt.RoutineProper r) (hs : r.body[i]? = some s) : s.Proper := by
  obtain ⟨name, params, body⟩ := r
  exact h.2.2.getElem? hs

theorem Stmt.MethodsProper.getElem? {rs : List (Routine Stmt)} {j : Nat} {r : Routine Stmt}
    (h : Stmt.MethodsProper rs) (hr : rs[j]? = some r) : Stmt.RoutineProper r := by
  induction rs generalizing j with
  | nil => simp at hr
  | cons first rest ih =>
    cases j with
    | zero => exact Option.some.inj hr ▸ h.1
    | succ j => exact ih h.2 hr

/-- The statement is proper, it is met in one stretch of the events, and the scopes around it belong
to nodes further up. -/
structure StmtAt.Stands (es : List Event) (l : StmtAt) : Prop where
  isolates : Isolates l.address es l.events
  above : Above l.address l.scopes
  proper : l.stmt.Proper

namespace StmtAt

theorem Part.address_suffix (h : Part l l') : l.address <:+ l'.address := by
  cases h with
  | block hs | define hs => exact List.suffix_cons _ _
  | consequence | alternative | whileDo | times => exact List.suffix_cons _ _
  | method hr hs => exact (List.suffix_cons _ _).trans (List.suffix_cons _ _)

theorem Part.above (h : Part l l') (ha : Above l.address l.scopes) :
    Above l'.address l'.scopes := by
  cases h with
  | block hs => exact ha.opens .block _
  | consequence | alternative | whileDo | times => exact ha.down _
  | define hs => exact ha.opens .routine _
  | method hr hs => exact (ha.keywords _ _).opens .routine _

theorem Part.proper (h : Part l l') (hp : l.stmt.Proper) : l'.stmt.Proper := by
  cases h with
  | block hs => exact Stmt.AllProper.getElem? hp hs
  | @consequence addr path test s alternative =>
    cases alternative with
    | none => exact hp.2.2
    | some s' => exact hp.2.2.1
  | alternative => exact hp.2.2.2.2
  | whileDo | times => exact hp.2.2
  | define hs => exact Stmt.RoutineProper.getElem? hp hs
  | method hr hs => exact (Stmt.MethodsProper.getElem? hp.2.2 hr).getElem? hs

theorem Part.isolates (h : Part l l') (ha : Above l.address l.scopes) :
    Isolates l'.address l.events l'.events := by
  cases h with
  | block hs => exact isolates_eventsOfAll hs (ha.opens .block _)
  | @consequence addr path test s alternative =>
    have hs : Isolates (0 :: addr) (refersFrom path test.references ++ s.events (0 :: addr) path)
        (s.events (0 :: addr) path) := isolates_self.appendLeft ((ha.down 0).apart_refersFrom _)
    cases alternative with
    | none => exact hs
    | some s' =>
      exact hs.appendRight ((s'.beneath_events (1 :: addr) path).apart Nat.one_ne_zero (ha.down 0))
  | @alternative addr path test s s' =>
    refine isolates_self.appendLeft (.append ((ha.down 1).apart_refersFrom _) ?_)
    exact (s.beneath_events (0 :: addr) path).apart Nat.zero_ne_one (ha.down 1)
  | whileDo | times => exact isolates_self.appendLeft ((ha.down 0).apart_refersFrom _)
  | define hs =>
    exact (isolates_eventsOfRoutine hs ha).appendLeft ((ha.down _).apart_declaresIn _)
  | @method addr path name superclass methods r i j s hr hs =>
    have hk := ha.keywords superclass j
    -- the routine is one of the methods, and the statement one of its body
    have hm := (isolates_eventsOfMethods hr hk).trans (isolates_eventsOfRoutine hs hk)
      (List.suffix_cons i _)
    have hself := hk.down i
    have hsuper : Above (i :: j :: addr) (scopesOfSuper addr path superclass) :=
      fun scope hm => hself scope (List.mem_cons_of_mem _ hm)
    have ha := (ha.down j).down i
    refine .appendLeft (.appendLeft (.appendLeft hm ?_) (ha.apart_refersFrom _))
      (ha.apart_declaresIn _)
    exact (hsuper.apart_declaresIn _).append (hself.apart_declaresIn _)

theorem Stands.of_part (hl : l.Stands es) (h : Part l l') : l'.Stands es where
  isolates := hl.isolates.trans (h.isolates hl.above) h.address_suffix
  above := h.above hl.above
  proper := h.proper hl.proper

end StmtAt

/-- Every statement in a program has a stretch of its own in what is met in the program. -/
theorem Occurs.stands {program : Program} (hp : Stmt.AllProper program) (h : Occurs program l) :
    l.Stands (events program) := by
  obtain ⟨i, s, hs, h⟩ := h
  induction h with
  | refl => exact ⟨isolates_eventsOfAll hs nofun, nofun, hp.getElem? hs⟩
  | tail _ hl ih => exact ih.of_part hl

end Jal
