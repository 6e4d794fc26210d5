import Jal.Proofs.Machine.Quiet
import Jal.Proofs.Machine.References

namespace Jal

variable {w : Setting} {m : Machine} {x : String}

namespace Run

theorem raises_lookUp {id : Nat} {name : Name} (h : (lookUp id name).Raises m x) :
    name.text = x ∧ ¬∃ v, lookUp id name m = .ok v m := by
  obtain ⟨line, m', h⟩ := h
  refine ⟨?_, ?_⟩
  · unfold lookUp at h
    split at h <;> cases h
    rfl
  · rintro ⟨v, hv⟩
    rw [hv] at h
    cases h

theorem raises_assign {ref : Reference} {v : Value} (h : (assign ref v).Raises m x) :
    ref.name.text = x ∧ ¬∃ m', assign ref v m = .ok v m' := by
  obtain ⟨line, m', h⟩ := h
  refine ⟨?_, ?_⟩
  · unfold assign at h
    split at h <;> cases h
    rfl
  · rintro ⟨m'', hv⟩
    rw [hv] at h
    cases h

theorem raises_superMethod {id line : Nat} {name : Name}
    (h : (superMethod id line name).Raises m x) :
    superAndSelf m id = .error (.undefinedVariable x) := by
  obtain ⟨m₁, m₂, hm, h⟩ := quiet_get.raises_bind h
  cases hm
  rcases raises_bind h with h | ⟨⟨c, i⟩, m₁, -, h⟩
  · obtain ⟨line', m', h⟩ := h
    cases hs : superAndSelf m id with
    | ok found =>
      rw [hs] at h
      cases h
    | error fault =>
      rw [hs] at h
      cases h
      rfl
  · dsimp only at h
    split at h
    · exact absurd h (quiet_boundMethod _ i m₁ x)
    · exact absurd h (quiet_failAt _ (by nofun) m₁ x)

theorem superAndSelf_of_none {id : Nat} (h : m.depths[id]? = none) :
    superAndSelf m id = .error (.undefinedVariable "super") := by
  simp only [superAndSelf, h]

theorem raises_superclass {superclass : Option Reference}
    (h : (superclass.mapM lookUpClass).Raises m x) :
    ∃ ref, superclass = some ref ∧ (lookUp ref.id ref.name).Raises m x := by
  cases superclass with
  | none => exact absurd h (quiet_pure none m x)
  | some ref =>
    refine ⟨ref, rfl, ?_⟩
    rcases raises_bind h with h | ⟨c, m₁, -, h⟩
    · rcases raises_bind h with h | ⟨v, m₁, -, h⟩
      · exact h
      · split at h
        · exact absurd h (quiet_pure _ m₁ x)
        · exact absurd h (quiet_failAt _ (by nofun) m₁ x)
    · exact absurd h (quiet_pure _ m₁ x)

/-- A class declaration can only miss its superclass. -/
theorem raises_declareClass {name : Name} {superclass : Option Reference}
    {methods : List (Routine Stmt)} (h : (declareClass name superclass methods).Raises m x) :
    ∃ ref, superclass = some ref ∧ (lookUp ref.id ref.name).Raises m x := by
  rcases raises_bind h with h | ⟨parent, m₁, -, h⟩
  · exact raises_superclass h
  · obtain ⟨-, m₂, -, h⟩ := (quiet_define _ _).raises_bind h
    obtain ⟨f, m₃, -, h⟩ := (quiet_methodFrame _).raises_bind h
    obtain ⟨stamp, m₄, -, h⟩ := (quiet_onHeap _).raises_bind h
    exact absurd h (quiet_define _ _ m₄ x)

/-- A constructor that has its `self` can give it back. -/
theorem not_raises_result {c : Closure} {flow : Flow}
    (hs : c.isConstructor = true → m.heap.has c.frame "self" = true) :
    ¬(result c flow).Raises m x := by
  intro h
  unfold result at h
  split at h
  · rename_i hc
    obtain ⟨v, hv⟩ := Option.isSome_iff_exists.1 (hs hc)
    obtain ⟨m₁, m₂, hm, h⟩ := quiet_get.raises_bind h
    cases hm
    rw [hv] at h
    exact quiet_pure v m x h
  · split at h
    · exact quiet_pure _ m x h
    · exact quiet_pure _ m x h

end Run

namespace Activity

open Run

def Raises (a : Activity) (x : String) : Prop :=
  match a.task with
  | .eval e => (eval a.fuel e).Raises a.machine x
  | .evalAll es => (evalAll a.fuel es).Raises a.machine x
  | .call callee arguments => (call a.fuel callee arguments).Raises a.machine x
  | .apply c arguments => (apply a.fuel c arguments).Raises a.machine x
  | .exec s => (exec a.fuel s).Raises a.machine x
  | .execAll body => (execAll a.fuel body).Raises a.machine x
  | .repeatWhile loop test body => (repeatWhile a.fuel loop test body).Raises a.machine x
  | .repeatTimes loop i count body => (repeatTimes a.fuel loop i count body).Raises a.machine x
  | .interpret program => (interpret a.fuel program).Raises a.machine x

/-- A part of the activity fails as `x` is undefined, or the activity evaluates a reference to `x`
itself and fails. -/
def Blames (a : Activity) (x : String) : Prop :=
  (∃ b, a.Part b ∧ b.Raises x) ∨ ∃ l, a.Refers l ∧ l.name = x ∧ ¬l.Succeeds

variable {n : Nat}

theorem blames_eval {e : Expr} (hr : Ready w ⟨n, .eval e, m⟩)
    (h : Raises ⟨n, .eval e, m⟩ x) : Blames ⟨n, .eval e, m⟩ x := by
  cases n with
  | zero => exact absurd h (quiet_outOfFuel m x)
  | succ n =>
    cases e with
    | literal value => exact absurd h (quiet_pure _ m x)
    | grouping inner => exact .inl ⟨_, .grouping, h⟩
    | unary op line operand =>
      rcases raises_bind h with h | ⟨v, m₁, -, h⟩
      · exact .inl ⟨_, .unary, h⟩
      · exact absurd h (quiet_unary op line v m₁ x)
    | binary op line left right =>
      rcases raises_bind h with h | ⟨v, m₁, hv, h⟩
      · exact .inl ⟨_, .binaryLeft, h⟩
      rcases raises_bind h with h | ⟨v', m₂, -, h⟩
      · exact .inl ⟨_, .binaryRight hv, h⟩
      · exact absurd h (quiet_binary op line v v' m₂ x)
    | logical op left right =>
      rcases raises_bind h with h | ⟨v, m₁, hv, h⟩
      · exact .inl ⟨_, .logicalLeft, h⟩
      cases ho : op.decidedBy v with
      | true =>
        simp only [ho, if_true] at h
        exact absurd h (quiet_pure v m₁ x)
      | false =>
        simp only [ho, Bool.false_eq_true, if_false] at h
        exact .inl ⟨_, .logicalRight hv ho, h⟩
    | «variable» ref =>
      obtain ⟨hx, hn⟩ := raises_lookUp h
      exact .inr ⟨_, .variable, hx, fun hs => hn (hs ref.name.line)⟩
    | assign ref value =>
      rcases raises_bind h with h | ⟨v, m₁, hv, h⟩
      · exact .inl ⟨_, .assign, h⟩
      · obtain ⟨hx, hn⟩ := raises_assign h
        exact .inr ⟨_, .assign hv, hx, fun hs => hn (hs ref.name.line v)⟩
    | selfRef id line =>
      obtain ⟨hx, hn⟩ := raises_lookUp h
      exact .inr ⟨_, .self, hx, fun hs => hn (hs line)⟩
    | superRef id line method =>
      have hs := raises_superMethod h
      -- with an entry in the table `super` would be found
      cases hd : m.depths[id]? with
      | some d =>
        obtain ⟨site, -, hf⟩ := found_super hr hd
        rcases hf.succeeds with ⟨c, i, hok⟩ | ⟨hu, -⟩
        · rw [hs] at hok
          cases hok
        · cases hu
      | none =>
        have hsuper := superAndSelf_of_none hd
        rw [hs] at hsuper
        cases hsuper
        refine .inr ⟨_, .super, rfl, ?_⟩
        rintro ⟨c, i, hok⟩
        rw [hs] at hok
        cases hok
    | get object name =>
      rcases raises_bind h with h | ⟨v, m₁, -, h⟩
      · exact .inl ⟨_, .get, h⟩
      · obtain ⟨i, m₂, -, h⟩ := (quiet_asInstance v name).raises_bind h
        exact absurd h (quiet_property i name m₂ x)
    | set object name value =>
      rcases raises_bind h with h | ⟨v, m₁, hv, h⟩
      · exact .inl ⟨_, .setObject, h⟩
      obtain ⟨i, m₂, hi, hset⟩ := (quiet_asInstance v name).raises_bind h
      obtain ⟨rfl, rfl⟩ := asInstance_eq_ok hi
      rcases raises_bind hset with h | ⟨v', m₂, -, h⟩
      · exact .inl ⟨_, .setValue hv, h⟩
      · exact absurd h (quiet_setProperty i name v' m₂ x)
    | index object line position =>
      rcases raises_bind h with h | ⟨v, m₁, hv, h⟩
      · exact .inl ⟨_, .indexObject, h⟩
      rcases raises_bind h with h | ⟨i, m₂, -, h⟩
      · exact .inl ⟨_, .indexPosition hv, h⟩
      · exact absurd h (quiet_element line v i m₂ x)
    | indexSet object line position value =>
      rcases raises_bind h with h | ⟨v, m₁, hv, h⟩
      · exact .inl ⟨_, .indexSetObject, h⟩
      rcases raises_bind h with h | ⟨i, m₂, hi, h⟩
      · exact .inl ⟨_, .indexSetPosition hv, h⟩
      rcases raises_bind h with h | ⟨v', m₃, -, h⟩
      · exact .inl ⟨_, .indexSetValue hv hi, h⟩
      · exact absurd h (quiet_setElement line v i v' m₃ x)
    | call callee line arguments =>
      rcases raises_bind h with h | ⟨v, m₁, hv, h⟩
      · exact .inl ⟨_, .callee, h⟩
      rcases raises_bind h with h | ⟨vs, m₂, hvs, h⟩
      · exact .inl ⟨_, .arguments hv, h⟩
      obtain ⟨_, m₃, hc, h⟩ := (quiet_checkCall line v vs.length).raises_bind h
      exact .inl ⟨_, .call hv hvs hc, raises_orLine h⟩
    | array elements =>
      rcases raises_bind h with h | ⟨vs, m₁, -, h⟩
      · exact .inl ⟨_, .array, h⟩
      · exact absurd h (quiet_newArray vs m₁ x)

theorem blames_evalAll {es : List Expr} (h : Raises ⟨n, .evalAll es, m⟩ x) :
    Blames ⟨n, .evalAll es, m⟩ x := by
  cases n with
  | zero => exact absurd h (quiet_outOfFuel m x)
  | succ n =>
    cases es with
    | nil => exact absurd h (quiet_pure _ m x)
    | cons e rest =>
      rcases raises_bind h with h | ⟨v, m₁, hv, h⟩
      · exact .inl ⟨_, .firstValue, h⟩
      rcases raises_bind h with h | ⟨vs, m₂, -, h⟩
      · exact .inl ⟨_, .nextValues hv, h⟩
      · exact absurd h (quiet_pure _ m₂ x)

theorem blames_call {callee : Value} {arguments : List Value}
    (h : Raises ⟨n, .call callee arguments, m⟩ x) : Blames ⟨n, .call callee arguments, m⟩ x := by
  cases n with
  | zero => exact absurd h (quiet_outOfFuel m x)
  | succ n =>
    cases callee with
    | native f => exact absurd h (quiet_callNative f arguments m x)
    | function c stamp => exact .inl ⟨_, .applyFunction, h⟩
    | classValue c =>
      obtain ⟨i, m₁, hi, h⟩ := (quiet_onHeap _).raises_bind h
      cases hc : c.constructor? with
      | none =>
        simp only [hc] at h
        exact absurd h (quiet_pure _ m₁ x)
      | some method =>
        simp only [hc] at h
        obtain ⟨bound, m₂, hb, h⟩ := (quiet_bindSelf method i).raises_bind h
        rcases raises_bind h with h | ⟨_, m₃, -, h⟩
        · exact .inl ⟨_, .construct hc hi hb, h⟩
        · exact absurd h (quiet_pure _ m₃ x)
    | none | bool b | number y | text s | array id | object id =>
      exact absurd h (quiet_fail (by nofun) m x)

theorem blames_apply {c : Closure} {arguments : List Value}
    (hr : Ready w ⟨n, .apply c arguments, m⟩) (h : Raises ⟨n, .apply c arguments, m⟩ x) :
    Blames ⟨n, .apply c arguments, m⟩ x := by
  obtain ⟨-, hc, -, -⟩ := hr
  cases n with
  | zero => exact absurd h (quiet_outOfFuel m x)
  | succ n =>
    obtain ⟨f, m₁, hf, h⟩ := (quiet_onHeap _).raises_bind h
    rcases raises_bind h with h | ⟨flow, m₂, hb, h⟩
    · obtain ⟨hd, h⟩ := raises_inCall h
      exact .inl ⟨_, .routineBody hf hd, h⟩
    · -- the frame of the closure has kept its `self` during the body
      have k₁ := (respects_newFrame respected_kept _ c.frame).ok hf
      have k₂ := (respects_inCall respected_kept f
        ((respecting respected_kept n).execAll c.routine.body)).ok hb
      have hself : c.isConstructor = true → m₂.heap.has c.frame "self" = true :=
        fun hi => (k₁.1.trans k₂.1).has (hc.self hi)
      exact absurd h (not_raises_result hself)

theorem blames_exec {s : Stmt} (h : Raises ⟨n, .exec s, m⟩ x) : Blames ⟨n, .exec s, m⟩ x := by
  cases n with
  | zero => exact absurd h (quiet_outOfFuel m x)
  | succ n =>
    cases s with
    | expr e =>
      rcases raises_bind h with h | ⟨v, m₁, -, h⟩
      · exact .inl ⟨_, .expr, h⟩
      · exact absurd h (quiet_pure _ m₁ x)
    | letVar name init =>
      cases init with
      | none =>
        obtain ⟨_, m₁, -, h⟩ := (quiet_define _ _).raises_bind h
        exact absurd h (quiet_pure _ m₁ x)
      | some init =>
        rcases raises_bind h with h | ⟨v, m₁, -, h⟩
        · exact .inl ⟨_, .letVar, h⟩
        · obtain ⟨_, m₂, -, h⟩ := (quiet_define _ _).raises_bind h
          exact absurd h (quiet_pure _ m₂ x)
    | block body =>
      obtain ⟨f, m₁, hf, h⟩ := quiet_newScope.raises_bind h
      exact .inl ⟨_, .block hf, raises_inFrame h⟩
    | ifThen test consequence alternative =>
      rcases raises_bind h with h | ⟨v, m₁, hv, h⟩
      · exact .inl ⟨_, .ifTest, h⟩
      cases ht : v.truthy with
      | true =>
        simp only [ht, if_true] at h
        exact .inl ⟨_, .consequence hv ht, h⟩
      | false =>
        simp only [ht, Bool.false_eq_true, if_false] at h
        cases alternative with
        | some s => exact .inl ⟨_, .alternative hv ht, h⟩
        | none => exact absurd h (quiet_pure _ m₁ x)
    | whileDo test body => exact .inl ⟨_, .whileDo, raises_inLoop h⟩
    | times line count body =>
      rcases raises_bind h with h | ⟨v, m₁, hv, h⟩
      · exact .inl ⟨_, .timesCount, h⟩
      · obtain ⟨y, m₂, hy, h⟩ := (quiet_repeatCount line v).raises_bind h
        exact .inl ⟨_, .times hv hy, raises_inLoop h⟩
    | breakLoop line => exact absurd h (quiet_innermostLoop line m x)
    | define r =>
      obtain ⟨_, m₁, -, h⟩ := (quiet_declareFunction r).raises_bind h
      exact absurd h (quiet_pure _ m₁ x)
    | returnWith line value =>
      cases value with
      | none => exact absurd h (quiet_pure _ m x)
      | some value =>
        rcases raises_bind h with h | ⟨v, m₁, -, h⟩
        · exact .inl ⟨_, .returnWith, h⟩
        · exact absurd h (quiet_pure _ m₁ x)
    | classDecl name superclass methods =>
      rcases raises_bind h with h | ⟨_, m₁, -, h⟩
      · obtain ⟨ref, rfl, h⟩ := raises_declareClass h
        obtain ⟨hx, hn⟩ := raises_lookUp h
        exact .inr ⟨_, .superclass, hx, fun hs => hn (hs ref.name.line)⟩
      · exact absurd h (quiet_pure _ m₁ x)

theorem blames_execAll {body : List Stmt} (h : Raises ⟨n, .execAll body, m⟩ x) :
    Blames ⟨n, .execAll body, m⟩ x := by
  cases n with
  | zero => exact absurd h (quiet_outOfFuel m x)
  | succ n =>
    cases body with
    | nil => exact absurd h (quiet_pure _ m x)
    | cons s rest =>
      rcases raises_bind h with h | ⟨flow, m₁, hf, h⟩
      · exact .inl ⟨_, .firstStmt, h⟩
      cases flow with
      | normal => exact .inl ⟨_, .nextStmts hf, h⟩
      | returned v => exact absurd h (quiet_pure _ m₁ x)
      | broke target => exact absurd h (quiet_pure _ m₁ x)

theorem quiet_ofTarget (target loop : Nat) :
    Quiet (if target = loop then pure Flow.normal else pure (Flow.broke target)) := by
  split <;> exact quiet_pure _

theorem blames_repeatWhile {loop : Nat} {test : Expr} {body : Stmt}
    (h : Raises ⟨n, .repeatWhile loop test body, m⟩ x) :
    Blames ⟨n, .repeatWhile loop test body, m⟩ x := by
  cases n with
  | zero => exact absurd h (quiet_outOfFuel m x)
  | succ n =>
    rcases raises_bind h with h | ⟨v, m₁, hv, h⟩
    · exact .inl ⟨_, .whileTest, h⟩
    cases ht : v.truthy with
    | false =>
      simp only [ht, Bool.false_eq_true, if_false] at h
      exact absurd h (quiet_pure _ m₁ x)
    | true =>
      simp only [ht, if_true] at h
      rcases raises_bind h with h | ⟨flow, m₂, hb, h⟩
      · exact .inl ⟨_, .whileBody hv ht, h⟩
      cases flow with
      | normal => exact .inl ⟨_, .whileNext hv ht hb, h⟩
      | returned v => exact absurd h (quiet_pure _ m₂ x)
      | broke target => exact absurd h (quiet_ofTarget target loop m₂ x)

theorem blames_repeatTimes {loop : Nat} {i count : Float} {body : Stmt}
    (h : Raises ⟨n, .repeatTimes loop i count body, m⟩ x) :
    Blames ⟨n, .repeatTimes loop i count body, m⟩ x := by
  cases n with
  | zero => exact absurd h (quiet_outOfFuel m x)
  | succ n =>
    simp only [Raises, repeatTimes] at h
    split at h
    · rename_i hi
      rcases raises_bind h with h | ⟨flow, m₁, hb, h⟩
      · exact .inl ⟨_, .timesBody hi, h⟩
      cases flow with
      | normal => exact .inl ⟨_, .timesNext hi hb, h⟩
      | returned v => exact absurd h (quiet_pure _ m₁ x)
      | broke target => exact absurd h (quiet_ofTarget target loop m₁ x)
    · exact absurd h (quiet_pure _ m x)

theorem blames_interpret {program : Program} (h : Raises ⟨n, .interpret program, m⟩ x) :
    Blames ⟨n, .interpret program, m⟩ x := by
  cases program with
  | nil => exact absurd h (quiet_pure _ m x)
  | cons s rest =>
    rcases raises_bind h with h | ⟨flow, m₁, hf, h⟩
    · exact .inl ⟨_, .programFirst, h⟩
    cases flow with
    | normal => exact .inl ⟨_, .programNext hf nofun, h⟩
    | returned v => exact absurd h (quiet_pure _ m₁ x)
    | broke target => exact .inl ⟨_, .programNext hf nofun, h⟩

theorem Ready.blames {a : Activity} (hr : a.Ready w) (h : a.Raises x) : a.Blames x := by
  obtain ⟨n, task, m⟩ := a
  cases task with
  | eval e => exact blames_eval hr h
  | evalAll es => exact blames_evalAll h
  | call callee arguments => exact blames_call h
  | apply c arguments => exact blames_apply hr h
  | exec s => exact blames_exec h
  | execAll body => exact blames_execAll h
  | repeatWhile loop test body => exact blames_repeatWhile h
  | repeatTimes loop i count body => exact blames_repeatTimes h
  | interpret program => exact blames_interpret h

/-- If a run fails as a variable is undefined, the evaluation of a reference to it failed. -/
theorem Ready.undefined {a : Activity} (hr : a.Ready w) (ho : a.OpensIn w) (h : a.Raises x) :
    ∃ b l, a.Includes b ∧ b.Refers l ∧ l.name = x ∧ ¬l.Succeeds := by
  induction a using wellFounded_part.induction with
  | _ a ih =>
    -- follow the failure from part to part, down to the reference
    rcases hr.blames h with ⟨b, hb, hraises⟩ | ⟨l, hl⟩
    · have hready := hr.includes ho (.single hb)
      obtain ⟨c, l, hc, hl⟩ := ih b hb hready (ho.part hb) hraises
      exact ⟨c, l, .head hb hc, hl⟩
    · exact ⟨a, l, .refl, hl⟩

end Activity

end Jal
