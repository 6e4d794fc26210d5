import Jal.Proofs.Machine.Fits

namespace Jal

open Machine (SameStanding)

variable {w : Setting} {m m' : Machine} {n : Nat}

def Machine.Kept (m m' : Machine) : Prop := m.heap.Grows m'.heap ∧ m.SameStanding m'

namespace Run

theorem respected_kept : Respected (fun _ => True) Machine.Kept where
  refl m := ⟨respected_grows.refl m, respected_sameStanding.refl m⟩
  trans h h' := ⟨respected_grows.trans h.1 h'.1, respected_sameStanding.trans h.2 h'.2⟩
  heap e hn := ⟨respected_grows.heap e hn, respected_sameStanding.heap e hn⟩
  console m c := ⟨respected_grows.console m c, respected_sameStanding.console m c⟩
  frame h := ⟨respected_grows.frame h.1, respected_sameStanding.frame h.2⟩
  loop h := ⟨respected_grows.loop h.1, respected_sameStanding.loop h.2⟩
  call h := ⟨respected_grows.call h.1, respected_sameStanding.call h.2⟩

theorem kept_eval {e : Expr} {v : Value} (h : eval n e m = .ok v m') : m.Kept m' :=
  ((respecting respected_kept n).eval e).ok h

theorem kept_evalAll {es : List Expr} {vs : List Value} (h : evalAll n es m = .ok vs m') :
    m.Kept m' := ((respecting respected_kept n).evalAll es).ok h

theorem kept_exec {s : Stmt} {flow : Flow} (h : exec n s m = .ok flow m') : m.Kept m' :=
  ((respecting respected_kept n).exec s).ok h

theorem bind_eq_ok {α β : Type} {act : Run α} {next : α → Run β} {b : β} {m'' : Machine}
    (h : (act >>= next) m = .ok b m'') : ∃ a m', act m = .ok a m' ∧ next a m' = .ok b m'' := by
  cases ha : act m with
  | ok a m' =>
    simp only [bind, EStateM.bind, ha] at h
    exact ⟨a, m', rfl, h⟩
  | error e m' =>
    simp only [bind, EStateM.bind, ha] at h
    cases h

end Run

/-- The table has only references that were accepted, each with the depth of its site. -/
def Setting.Agrees (w : Setting) (depths : Std.HashMap Nat Nat) : Prop :=
  ∀ site, w.known site → ∀ d, depths[site.id]? = some d → site.depth? = some d ∧ w.accepted site

structure Machine.Fits (w : Setting) (m : Machine) : Prop where
  heap : m.heap.Fits w
  depths : w.Agrees m.depths

structure Machine.Stands (w : Setting) (m : Machine) (ctx : Context) (found : List Site) : Prop
    extends m.Fits w where
  chain : m.heap.Chain w m.frame ctx
  known : ∀ site ∈ found, w.known site

variable {ctx : Context} {found found' : List Site}

theorem Machine.Fits.after (hm : m.Fits w) (hk : m.Kept m') (hh : m'.heap.Fits w) : m'.Fits w :=
  ⟨hh, by rw [hk.2.depths]; exact hm.depths⟩

namespace Machine.Stands

theorem mono (hs : m.Stands w ctx found) (h : found' ⊆ found) : m.Stands w ctx found' :=
  ⟨hs.toFits, hs.chain, fun site hm => hs.known site (h hm)⟩

theorem after (hs : m.Stands w ctx found) (hk : m.Kept m') (hh : m'.heap.Fits w) :
    m'.Stands w ctx found := by
  refine ⟨hs.toFits.after hk hh, ?_, hs.known⟩
  rw [hk.2.frame]
  exact hs.chain.grow hk.1

end Machine.Stands

namespace Run

theorem lookup_foldl_set {pairs : List (Name × Value)} {b : Bindings} {name : String} {v : Value}
    (h : (pairs.foldl (fun b (p, v) => Bindings.set b p.text v) b).lookup name = some v) :
    (∃ p, (p, v) ∈ pairs ∧ p.text = name) ∨ b.lookup name = some v := by
  induction pairs generalizing b with
  | nil => exact .inr h
  | cons pair rest ih =>
    obtain ⟨p, u⟩ := pair
    rcases ih h with ⟨q, hq, hn⟩ | hb
    · exact .inl ⟨q, List.mem_cons_of_mem _ hq, hn⟩
    · rw [Bindings.lookup_set] at hb
      split at hb
      · rename_i hn
        obtain rfl := Option.some.inj hb
        exact .inl ⟨p, List.mem_cons_self, hn.symm⟩
      · exact .inr hb

/-- What a parameter is bound to is one of the arguments. -/
theorem lookup_bindArguments {params : List Name} {arguments : List Value} {name : String}
    {v : Value} (h : (bindArguments params arguments).lookup name = some v) :
    v ∈ arguments ∧ ∃ p ∈ params, p.text = name := by
  rcases lookup_foldl_set h with ⟨p, hp, hn⟩ | h
  · exact ⟨(List.of_mem_zip hp).2, p, (List.of_mem_zip hp).1, hn⟩
  · cases h

theorem isSome_lookup_foldl_set {pairs : List (Name × Value)} {b : Bindings} {name : String}
    (h : (∃ p ∈ pairs.map Prod.fst, p.text = name) ∨ (b.lookup name).isSome = true) :
    ((pairs.foldl (fun b (p, v) => Bindings.set b p.text v) b).lookup name).isSome = true := by
  induction pairs generalizing b with
  | nil => exact h.resolve_left (by simp)
  | cons pair rest ih =>
    obtain ⟨p, u⟩ := pair
    refine ih ?_
    rw [Bindings.lookup_set]
    -- a later parameter of the same name changes the value, not that there is one
    by_cases hn : name = p.text
    · exact .inr (by rw [if_pos hn]; rfl)
    · rw [if_neg hn]
      rcases h with ⟨q, hq, hq'⟩ | h
      · rcases List.mem_cons.1 hq with rfl | hq
        · exact absurd hq'.symm hn
        · exact .inl ⟨q, hq, hq'⟩
      · exact .inr h

/-- Every parameter is bound, if there is an argument for each. -/
theorem isSome_lookup_bindArguments {params : List Name} {arguments : List Value}
    (hl : params.length = arguments.length) {name : String}
    (hn : (Scope.ofParams params).lookup name = some true) :
    ((bindArguments params arguments).lookup name).isSome = true := by
  refine isSome_lookup_foldl_set (.inl ?_)
  rw [List.map_fst_zip (Nat.le_of_eq hl)]
  rw [Scope.lookup_ofParams] at hn
  split at hn
  · rename_i ha
    simpa using ha
  · cases hn

theorem checkCall_eq_ok {line given : Nat} {v : Value} (h : checkCall line v given m = .ok () m') :
    m' = m ∧ v.arity? = some given := by
  cases ha : v.arity? with
  | none =>
    simp only [checkCall, ha] at h
    cases h
  | some expected =>
    simp only [checkCall, ha] at h
    by_cases he : given = expected
    · rw [if_pos he] at h
      cases h
      exact ⟨rfl, by rw [he]⟩
    · rw [if_neg he] at h
      cases h

theorem repeatCount_eq_ok {line : Nat} {v : Value} {x : Float}
    (h : repeatCount line v m = .ok x m') : m' = m := by
  unfold repeatCount at h
  split at h <;> cases h
  rfl

theorem plain_params {r : Routine Stmt} (h : Stmt.RoutineProper r) :
    ∀ p ∈ r.params, IsPlain p.text := by
  obtain ⟨name, params, body⟩ := r
  exact h.2.1

theorem keeps_argumentFrame (hm : m.heap.Fits w) {c : Closure} (hc : c.Fits w m.heap)
    {arguments : List Value} (hvs : ∀ v ∈ arguments, v.Fits w m.heap) :
    Keeps w m (newFrame (bindArguments c.routine.params arguments) c.frame) fun _ _ => True := by
  refine triple_onHeap (hm.newFrame ?_) trivial
  intro name v hv
  obtain ⟨hv, p, hp, hn⟩ := lookup_bindArguments hv
  exact (hvs v hv).as (hn ▸ plain_params hc.proper p hp)

/-- Once a statement has finished, the frames are those for the scopes after it. -/
theorem chain_after {s : Stmt} (hp : s.Proper) (hc : m.heap.Chain w m.frame ctx)
    (h : exec n s m = .ok .normal m') : m'.heap.Chain w m'.frame (s.sites ctx).1 := by
  have hk := kept_exec h
  -- only a declaration changes the scopes, and it has put its name into the frame
  cases hd : s.isDeclaration with
  | false =>
    rw [s.sites_fst_of_not_declaration hp hd, hk.2.frame]
    exact hc.grow hk.1
  | true =>
    cases n with
    | zero => cases h
    | succ n =>
      cases s with
      | letVar name init =>
        cases init with
        | none =>
          cases h
          exact hc.bind_true (.refl _)
        | some init =>
          obtain ⟨v, m₁, h₁, h⟩ := bind_eq_ok h
          have hk₁ := kept_eval h₁
          have hc₁ := hc.grow hk₁.1
          rw [← hk₁.2.frame] at hc₁
          cases h
          exact hc₁.bind_true (.refl _)
      | define r =>
        cases h
        exact (hc.grow Heap.Edit.newStamp.grows).bind_true (.refl _)
      | classDecl name superclass methods =>
        obtain ⟨_, m₁, h, h'⟩ := bind_eq_ok h
        cases h'
        obtain ⟨parent, m₁, h₁, h⟩ := bind_eq_ok h
        obtain ⟨_, m₂, h₂, h⟩ := bind_eq_ok h
        obtain ⟨f, m₃, h₃, h⟩ := bind_eq_ok h
        obtain ⟨stamp, m₄, h₄, h⟩ := bind_eq_ok h
        -- up to the last step nothing but growth is needed
        have k₁ := (respects_superclass respected_kept superclass).ok h₁
        have k₂ := (respects_define respected_kept trivial _).ok h₂
        have k₃ := (respects_methodFrame respected_kept parent).ok h₃
        have k₄ := (respects_onHeap respected_kept fun _ => .newStamp).ok h₄
        have k := respected_kept.trans (respected_kept.trans (respected_kept.trans k₁ k₂) k₃) k₄
        have hc₄ := hc.grow k.1
        rw [← k.2.frame] at hc₄
        cases h
        exact hc₄.bind_true (.refl _)
      | _ => cases hd

end Run

namespace Activity

/-- What the task asks for holds: it runs in frames for the scopes around it, and values that it is
given fit. -/
def Ready (w : Setting) (a : Activity) : Prop :=
  match a.task with
  | .eval e => e.Proper ∧ ∃ ctx initOf, a.machine.Stands w ctx (e.sites ctx initOf)
  | .evalAll es =>
    Expr.AllProper es ∧ ∃ ctx initOf, a.machine.Stands w ctx (Expr.sitesOfAll ctx initOf es)
  | .call callee arguments =>
    a.machine.Fits w ∧ callee.Fits w a.machine.heap ∧
      (∀ v ∈ arguments, v.Fits w a.machine.heap) ∧ callee.arity? = some arguments.length
  | .apply c arguments =>
    a.machine.Fits w ∧ c.Fits w a.machine.heap ∧ (∀ v ∈ arguments, v.Fits w a.machine.heap) ∧
      c.arity = arguments.length
  | .exec s => s.Proper ∧ ∃ ctx, a.machine.Stands w ctx (s.sites ctx).2
  | .execAll body =>
    Stmt.AllProper body ∧ ∃ ctx, a.machine.Stands w ctx (Stmt.sitesOfAll ctx body).2
  | .repeatWhile _ test body =>
    (Stmt.whileDo test body).Proper ∧
      ∃ ctx, a.machine.Stands w ctx ((Stmt.whileDo test body).sites ctx).2
  | .repeatTimes _ _ _ body => body.Proper ∧ ∃ ctx, a.machine.Stands w ctx (body.sites ctx).2
  | .interpret program => Stmt.AllProper program ∧ a.machine.Stands w [] (sites program)

open Run in
/-- The run of the task keeps the heap fitting and gives back what fits. -/
def Done (w : Setting) (a : Activity) : Prop :=
  match a.task with
  | .eval e => Keeps w a.machine (eval a.fuel e) (Value.Fits w)
  | .evalAll es => Keeps w a.machine (evalAll a.fuel es) fun h vs => ∀ v ∈ vs, v.Fits w h
  | .call callee arguments => Keeps w a.machine (call a.fuel callee arguments) (Value.Fits w)
  | .apply c arguments => Keeps w a.machine (apply a.fuel c arguments) (Value.Fits w)
  | .exec s => Keeps w a.machine (exec a.fuel s) (Flow.Fits w)
  | .execAll body => Keeps w a.machine (execAll a.fuel body) (Flow.Fits w)
  | .repeatWhile loop test body =>
    Keeps w a.machine (repeatWhile a.fuel loop test body) (Flow.Fits w)
  | .repeatTimes loop i count body =>
    Keeps w a.machine (repeatTimes a.fuel loop i count body) (Flow.Fits w)
  | .interpret program => Keeps w a.machine (interpret a.fuel program) fun _ _ => True

def OpensIn (w : Setting) (a : Activity) : Prop :=
  ∀ b, a.Includes b → ∀ f node, b.Opens f node → w.opened f node

theorem OpensIn.self {a : Activity} (ho : a.OpensIn w) {f : FrameId} {node : ScopeNode}
    (h : a.Opens f node) : w.opened f node := ho a .refl f node h

theorem OpensIn.part {a b : Activity} (ho : a.OpensIn w) (hp : a.Part b) : b.OpensIn w :=
  fun c hc => ho c (.head hp hc)

open Run

theorem done_eval {e : Expr} (hr : Ready w ⟨n, .eval e, m⟩) (ho : OpensIn w ⟨n, .eval e, m⟩)
    (hd : ∀ b, Part ⟨n, .eval e, m⟩ b → b.Done w) : Done w ⟨n, .eval e, m⟩ := by
  obtain ⟨hp, ctx, initOf, hs⟩ := hr
  have hm : m.heap.Fits w := hs.heap
  cases n with
  | zero => exact triple_throw hm _ fun _ _ => trivial
  | succ n =>
    cases e with
    | literal value => exact triple_pure hm (by cases value <;> trivial)
    | grouping inner => exact hd ⟨n, .eval inner, m⟩ .grouping
    | unary op line operand =>
      refine (hd _ .unary).bind ?_
      intro v m₁ _ hm₁ _
      exact keeps_unary hm₁ op line v
    | binary op line left right =>
      refine (hd _ .binaryLeft).bind ?_
      intro v m₁ h _ _
      refine (hd _ (.binaryRight h)).bind ?_
      intro v' m₂ _ hm₂ _
      exact keeps_binary hm₂ op line v v'
    | logical op left right =>
      refine (hd _ .logicalLeft).bind ?_
      intro v m₁ h hm₁ hv
      cases hv' : op.decidedBy v with
      | true =>
        simp only [if_true]
        exact triple_pure hm₁ hv
      | false =>
        simp only [Bool.false_eq_true, if_false]
        exact hd _ (.logicalRight h hv')
    | «variable» ref => exact keeps_lookUp hm ref.id ref.name
    | assign ref value =>
      refine (hd _ .assign).bind ?_
      intro v m₁ _ hm₁ hv
      exact keeps_assign hm₁ hp.1 hv
    | selfRef id line => exact keeps_lookUp hm id _
    | superRef id line method =>
      refine keeps_superMethod hm id line method ?_
      intro c i closure h hc
      exact ho.self (.superRef h hc)
    | get object name =>
      refine (hd _ .get).bind ?_
      intro v m₁ h hm₁ _
      refine (keeps_asInstance hm₁ v name).bind ?_
      rintro i m₂ hi _ rfl
      cases hi
      refine keeps_property hm₁ i name ?_
      intro o method hi hf hmethod
      exact ho.self (.get h hi hf hmethod)
    | set object name value =>
      refine (hd _ .setObject).bind ?_
      intro v m₁ h hm₁ _
      refine (keeps_asInstance hm₁ v name).bind ?_
      rintro i m₂ hi _ rfl
      cases hi
      refine (hd _ (.setValue h)).bind ?_
      intro v' m₂ _ hm₂ hv'
      exact keeps_setProperty hm₂ i name hv'
    | index object line position =>
      refine (hd _ .indexObject).bind ?_
      intro v m₁ h _ _
      refine (hd _ (.indexPosition h)).bind ?_
      intro i m₂ _ hm₂ _
      exact keeps_element hm₂ line v i
    | indexSet object line position value =>
      refine (hd _ .indexSetObject).bind ?_
      intro v m₁ h _ _
      refine (hd _ (.indexSetPosition h)).bind ?_
      intro i m₂ hi _ _
      refine (hd _ (.indexSetValue h hi)).bind ?_
      intro v' m₃ _ hm₃ hv'
      exact keeps_setElement hm₃ line v i hv'
    | call callee line arguments =>
      refine (hd _ .callee).bind ?_
      intro v m₁ h _ _
      refine (hd _ (.arguments h)).bind ?_
      intro vs m₂ hvs hm₂ _
      refine (keeps_checkCall hm₂ line v vs.length).bind ?_
      intro _ m₃ hc _ _
      exact Triple.orLine (hd _ (.call h hvs hc))
    | array elements =>
      refine (hd _ .array).bind ?_
      intro vs m₁ _ hm₁ hvs
      exact keeps_newArray hm₁ hvs

theorem done_evalAll {es : List Expr} (hr : Ready w ⟨n, .evalAll es, m⟩)
    (hd : ∀ b, Part ⟨n, .evalAll es, m⟩ b → b.Done w) : Done w ⟨n, .evalAll es, m⟩ := by
  obtain ⟨-, ctx, initOf, hs⟩ := hr
  have hm : m.heap.Fits w := hs.heap
  cases n with
  | zero => exact triple_throw hm _ fun _ _ => trivial
  | succ n =>
    cases es with
    | nil => exact triple_pure hm nofun
    | cons e rest =>
      refine (hd _ .firstValue).bind ?_
      intro v m₁ h _ hv
      refine (hd _ (.nextValues h)).bind ?_
      intro vs m₂ hvs hm₂ hfits
      refine triple_pure hm₂ ?_
      intro u hu
      -- the first value was made before the heap grew for the others
      rcases List.mem_cons.1 hu with rfl | hu
      · exact hv.grow (kept_evalAll hvs).1
      · exact hfits u hu

theorem done_call {callee : Value} {arguments : List Value}
    (hr : Ready w ⟨n, .call callee arguments, m⟩) (ho : OpensIn w ⟨n, .call callee arguments, m⟩)
    (hd : ∀ b, Part ⟨n, .call callee arguments, m⟩ b → b.Done w) :
    Done w ⟨n, .call callee arguments, m⟩ := by
  obtain ⟨⟨hm, -⟩, hv, -, -⟩ := hr
  cases n with
  | zero => exact triple_throw hm _ fun _ _ => trivial
  | succ n =>
    cases callee with
    | native f => exact keeps_callNative hm f arguments
    | function c stamp => exact hd ⟨n, .apply c arguments, m⟩ .applyFunction
    | classValue c =>
      refine (keeps_newInstance hm hv).bind ?_
      intro i m₁ hi hm₁ hc₁
      cases hc : c.constructor? with
      | none => exact triple_pure hm₁ trivial
      | some method =>
        -- an instance is no frame, so the next frame is still the same
        have hopened : w.opened m₁.nextFrame (.selfOf method.routine) := by
          cases hi
          exact ho.self (.construct hc)
        refine (keeps_bindSelf hm₁ (hc₁.method hc) hopened i).bind ?_
        intro bound m₂ hb _ _
        refine (hd _ (.construct hc hi hb)).bind ?_
        intro _ m₃ _ hm₃ _
        exact triple_pure hm₃ trivial
    | none | bool b | number x | text s | array id | object id =>
      exact triple_throw hm _ fun _ _ => trivial

theorem done_apply {c : Closure} {arguments : List Value} (hr : Ready w ⟨n, .apply c arguments, m⟩)
    (hd : ∀ b, Part ⟨n, .apply c arguments, m⟩ b → b.Done w) :
    Done w ⟨n, .apply c arguments, m⟩ := by
  obtain ⟨⟨hm, -⟩, hc, hvs, -⟩ := hr
  cases n with
  | zero => exact triple_throw hm _ fun _ _ => trivial
  | succ n =>
    refine (keeps_argumentFrame hm hc hvs).bind ?_
    intro f m₁ hf hm₁ _
    have hbody := fun hlt => hd _ (.routineBody hf hlt)
    refine Triple.bind (Triple.inCall hm₁ (fun _ => trivial) hbody fun _ => id) ?_
    intro flow m₂ _ hm₂ hflow
    exact keeps_result hm₂ hflow

theorem done_exec {s : Stmt} (hr : Ready w ⟨n, .exec s, m⟩) (ho : OpensIn w ⟨n, .exec s, m⟩)
    (hd : ∀ b, Part ⟨n, .exec s, m⟩ b → b.Done w) : Done w ⟨n, .exec s, m⟩ := by
  obtain ⟨hp, ctx, hs⟩ := hr
  have hm : m.heap.Fits w := hs.heap
  cases n with
  | zero => exact triple_throw hm _ fun _ _ => trivial
  | succ n =>
    cases s with
    | expr e =>
      refine (hd _ .expr).bind ?_
      intro _ m₁ _ hm₁ _
      exact triple_pure hm₁ trivial
    | letVar name init =>
      cases init with
      | none =>
        refine (keeps_define (v := .none) hm hp.1 trivial).bind ?_
        intro _ m₁ _ hm₁ _
        exact triple_pure hm₁ trivial
      | some init =>
        refine (hd _ .letVar).bind ?_
        intro v m₁ _ hm₁ hv
        refine (keeps_define hm₁ hp.1 (hv.grow (Heap.Edit.define _ _ v).grows)).bind ?_
        intro _ m₂ _ hm₂ _
        exact triple_pure hm₂ trivial
    | block body =>
      refine (keeps_newScope hm).bind ?_
      intro f m₁ hf _ _
      exact Triple.inFrame (hd _ (.block hf)) fun _ => id
    | ifThen test consequence alternative =>
      refine (hd _ .ifTest).bind ?_
      intro v m₁ h hm₁ _
      cases hv : v.truthy with
      | true =>
        simp only [if_true]
        exact hd _ (.consequence h hv)
      | false =>
        simp only [Bool.false_eq_true, if_false]
        cases alternative with
        | some s => exact hd _ (.alternative h hv)
        | none => exact triple_pure hm₁ trivial
    | whileDo test body => exact Triple.inLoop (hd _ .whileDo) fun _ => id
    | times line count body =>
      refine (hd _ .timesCount).bind ?_
      intro v m₁ h hm₁ _
      refine (keeps_repeatCount hm₁ line v).bind ?_
      intro x m₂ hx _ _
      exact Triple.inLoop (hd _ (.times h hx)) fun _ => id
    | breakLoop line => exact keeps_innermostLoop hm line
    | define r =>
      refine (keeps_declareFunction hm hs.chain hp hs.known).bind ?_
      intro _ m₁ _ hm₁ _
      exact triple_pure hm₁ trivial
    | returnWith line value =>
      cases value with
      | none => exact triple_pure hm trivial
      | some value =>
        refine (hd _ .returnWith).bind ?_
        intro v m₁ _ hm₁ hv
        exact triple_pure hm₁ hv
    | classDecl name superclass methods =>
      refine (keeps_declareClass hm hs.chain hp.1 hp.2.2 ?_ ?_).bind ?_
      · exact fun site hs' => hs.known site (List.mem_append_right _ hs')
      · intro ref hr c m₁ h
        cases hr
        exact ho.self (.classDecl h)
      · intro _ m₁ _ hm₁ _
        exact triple_pure hm₁ trivial

theorem done_execAll {body : List Stmt} (hr : Ready w ⟨n, .execAll body, m⟩)
    (hd : ∀ b, Part ⟨n, .execAll body, m⟩ b → b.Done w) : Done w ⟨n, .execAll body, m⟩ := by
  obtain ⟨-, ctx, hs⟩ := hr
  have hm : m.heap.Fits w := hs.heap
  cases n with
  | zero => exact triple_throw hm _ fun _ _ => trivial
  | succ n =>
    cases body with
    | nil => exact triple_pure hm trivial
    | cons s rest =>
      refine (hd _ .firstStmt).bind ?_
      intro flow m₁ h hm₁ hflow
      cases flow with
      | normal => exact hd _ (.nextStmts h)
      | returned v => exact triple_pure hm₁ hflow
      | broke target => exact triple_pure hm₁ trivial

theorem done_repeatWhile {loop : Nat} {test : Expr} {body : Stmt}
    (hr : Ready w ⟨n, .repeatWhile loop test body, m⟩)
    (hd : ∀ b, Part ⟨n, .repeatWhile loop test body, m⟩ b → b.Done w) :
    Done w ⟨n, .repeatWhile loop test body, m⟩ := by
  obtain ⟨-, ctx, hs⟩ := hr
  have hm : m.heap.Fits w := hs.heap
  cases n with
  | zero => exact triple_throw hm _ fun _ _ => trivial
  | succ n =>
    refine (hd _ .whileTest).bind ?_
    intro v m₁ h hm₁ _
    cases hv : v.truthy with
    | false => exact triple_pure hm₁ trivial
    | true =>
      refine (hd _ (.whileBody h hv)).bind ?_
      intro flow m₂ hb hm₂ hflow
      cases flow with
      | normal => exact hd _ (.whileNext h hv hb)
      | returned v => exact triple_pure hm₂ hflow
      | broke target =>
        dsimp only
        split <;> exact triple_pure hm₂ trivial

theorem done_repeatTimes {loop : Nat} {i count : Float} {body : Stmt}
    (hr : Ready w ⟨n, .repeatTimes loop i count body, m⟩)
    (hd : ∀ b, Part ⟨n, .repeatTimes loop i count body, m⟩ b → b.Done w) :
    Done w ⟨n, .repeatTimes loop i count body, m⟩ := by
  obtain ⟨-, ctx, hs⟩ := hr
  have hm : m.heap.Fits w := hs.heap
  cases n with
  | zero => exact triple_throw hm _ fun _ _ => trivial
  | succ n =>
    simp only [Done, repeatTimes]
    split
    · rename_i hi
      refine (hd _ (.timesBody hi)).bind ?_
      intro flow m₁ hb hm₁ hflow
      cases flow with
      | normal => exact hd _ (.timesNext hi hb)
      | returned v => exact triple_pure hm₁ hflow
      | broke target =>
        dsimp only
        split <;> exact triple_pure hm₁ trivial
    · exact triple_pure hm trivial

theorem done_interpret {program : Program} (hr : Ready w ⟨n, .interpret program, m⟩)
    (hd : ∀ b, Part ⟨n, .interpret program, m⟩ b → b.Done w) :
    Done w ⟨n, .interpret program, m⟩ := by
  have hm : m.heap.Fits w := hr.2.heap
  cases program with
  | nil => exact triple_pure hm trivial
  | cons s rest =>
    refine (hd _ .programFirst).bind ?_
    intro flow m₁ h hm₁ _
    cases flow with
    | normal => exact hd _ (.programNext h nofun)
    | returned v => exact triple_pure hm₁ trivial
    | broke target => exact hd _ (.programNext h nofun)

/-- What a run leaves behind and gives back, if its parts do well. -/
theorem done_of_parts {a : Activity} (hr : a.Ready w) (ho : a.OpensIn w)
    (hd : ∀ b, a.Part b → b.Done w) : a.Done w := by
  obtain ⟨n, task, m⟩ := a
  cases task with
  | eval e => exact done_eval hr ho hd
  | evalAll es => exact done_evalAll hr hd
  | call callee arguments => exact done_call hr ho hd
  | apply c arguments => exact done_apply hr hd
  | exec s => exact done_exec hr ho hd
  | execAll body => exact done_execAll hr hd
  | repeatWhile loop test body => exact done_repeatWhile hr hd
  | repeatTimes loop i count body => exact done_repeatTimes hr hd
  | interpret program => exact done_interpret hr hd

/-- Where a machine goes to begin a part of a run: nowhere, or into a frame, a loop or a call. -/
inductive Enters (m : Machine) : Machine → Prop where
  | here : Enters m m
  | frame (f : FrameId) : Enters m { m with frame := f }
  | loop : Enters m m.enterLoop
  | call (f : FrameId) (hd : m.depth < maxDepth) : Enters m (m.enterCall f)

/-- What was run before a part has left the machine where it stood. -/
theorem Part.enters {a b : Activity} (h : a.Part b) :
    ∃ m, a.machine.SameStanding m ∧ Enters m b.machine := by
  have hrefl := respected_sameStanding.refl a.machine
  cases h with
  | binaryRight h | logicalRight h | setValue h | indexPosition h | indexSetPosition h
  | arguments h | nextValues h | consequence h | alternative h | whileBody h =>
    exact ⟨_, (kept_eval h).2, .here⟩
  | indexSetValue h hi =>
    exact ⟨_, respected_sameStanding.trans (kept_eval h).2 (kept_eval hi).2, .here⟩
  | call h hvs hc =>
    obtain ⟨rfl, -⟩ := checkCall_eq_ok hc
    exact ⟨_, respected_sameStanding.trans (kept_eval h).2 (kept_evalAll hvs).2, .here⟩
  | construct hc hi hb =>
    have hi := (respects_newInstance respected_sameStanding _).ok hi
    have hb := (respects_bindSelf respected_sameStanding _ _).ok hb
    exact ⟨_, respected_sameStanding.trans hi hb, .here⟩
  | routineBody hf hd =>
    exact ⟨_, (respects_newFrame respected_sameStanding _ _).ok hf, .call _ hd⟩
  | block hf => exact ⟨_, (respects_newScope respected_sameStanding).ok hf, .frame _⟩
  | whileDo => exact ⟨_, hrefl, .loop⟩
  | times h hx =>
    obtain rfl := repeatCount_eq_ok hx
    exact ⟨_, (kept_eval h).2, .loop⟩
  | nextStmts h | timesNext _ h | programNext h => exact ⟨_, (kept_exec h).2, .here⟩
  | whileNext h _ hb =>
    exact ⟨_, respected_sameStanding.trans (kept_eval h).2 (kept_exec hb).2, .here⟩
  | _ => exact ⟨_, hrefl, .here⟩

end Activity

end Jal
