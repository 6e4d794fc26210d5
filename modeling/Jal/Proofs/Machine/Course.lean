import Jal.Proofs.Machine.Ready

namespace Jal

variable {w : Setting} {m m' : Machine} {n : Nat} {ctx : Context}

namespace Activity

open Run

theorem stands_after_eval {found : List Site} {e : Expr} {v : Value} (hs : m.Stands w ctx found)
    (hd : Done w ⟨n, .eval e, m⟩) (h : eval n e m = .ok v m') : m'.Stands w ctx found :=
  hs.after (kept_eval h) (hd.ok h).1

theorem ready_of_eval {e : Expr} {b : Activity} (hb : Part ⟨n, .eval e, m⟩ b)
    (hr : Ready w ⟨n, .eval e, m⟩) (hd : ∀ c, Part ⟨n, .eval e, m⟩ c → c.Ready w → c.Done w) :
    b.Ready w := by
  obtain ⟨hp, ctx, initOf, hs⟩ := hr
  -- a later operand is begun where the earlier ones have left the machine, hence `hd` for these
  cases hb with
  | grouping => exact ⟨hp, ctx, initOf, hs⟩
  | unary => exact ⟨hp, ctx, initOf, hs⟩
  | binaryLeft => exact ⟨hp.1, ctx, initOf, hs.mono (List.subset_append_left _ _)⟩
  | binaryRight h =>
    have hl := hd _ .binaryLeft ⟨hp.1, ctx, initOf, hs.mono (List.subset_append_left _ _)⟩
    have hs₁ := stands_after_eval hs hl h
    exact ⟨hp.2, ctx, initOf, hs₁.mono (List.subset_append_right _ _)⟩
  | logicalLeft => exact ⟨hp.1, ctx, initOf, hs.mono (List.subset_append_left _ _)⟩
  | logicalRight h =>
    have hl := hd _ .logicalLeft ⟨hp.1, ctx, initOf, hs.mono (List.subset_append_left _ _)⟩
    have hs₁ := stands_after_eval hs hl h
    exact ⟨hp.2, ctx, initOf, hs₁.mono (List.subset_append_right _ _)⟩
  | assign => exact ⟨hp.2, ctx, initOf, hs.mono (List.subset_append_left _ _)⟩
  | get => exact ⟨hp, ctx, initOf, hs⟩
  | setObject => exact ⟨hp.1, ctx, initOf, hs.mono (List.subset_append_right _ _)⟩
  | setValue h =>
    have ho := hd _ .setObject ⟨hp.1, ctx, initOf, hs.mono (List.subset_append_right _ _)⟩
    have hs₁ := stands_after_eval hs ho h
    exact ⟨hp.2, ctx, initOf, hs₁.mono (List.subset_append_left _ _)⟩
  | indexObject => exact ⟨hp.1, ctx, initOf, hs.mono (List.subset_append_left _ _)⟩
  | indexPosition h =>
    have ho := hd _ .indexObject ⟨hp.1, ctx, initOf, hs.mono (List.subset_append_left _ _)⟩
    have hs₁ := stands_after_eval hs ho h
    exact ⟨hp.2, ctx, initOf, hs₁.mono (List.subset_append_right _ _)⟩
  | indexSetObject =>
    have hs := hs.mono (List.subset_append_left _ _)
    exact ⟨hp.1, ctx, initOf, hs.mono (List.subset_append_left _ _)⟩
  | indexSetPosition h =>
    have hs := hs.mono (List.subset_append_left _ _)
    have ho := hd _ .indexSetObject ⟨hp.1, ctx, initOf, hs.mono (List.subset_append_left _ _)⟩
    have hs₁ := stands_after_eval hs ho h
    exact ⟨hp.2.1, ctx, initOf, hs₁.mono (List.subset_append_right _ _)⟩
  | indexSetValue h hi =>
    have hs' := hs.mono (List.subset_append_left _ _)
    have ho := hd _ .indexSetObject ⟨hp.1, ctx, initOf, hs'.mono (List.subset_append_left _ _)⟩
    have hs₁ := stands_after_eval hs' ho h
    have hi' := hd _ (.indexSetPosition h)
      ⟨hp.2.1, ctx, initOf, hs₁.mono (List.subset_append_right _ _)⟩
    have hs₂ := stands_after_eval (stands_after_eval hs ho h) hi' hi
    exact ⟨hp.2.2, ctx, initOf, hs₂.mono (List.subset_append_right _ _)⟩
  | callee => exact ⟨hp.1, ctx, initOf, hs.mono (List.subset_append_left _ _)⟩
  | arguments h =>
    have hc := hd _ .callee ⟨hp.1, ctx, initOf, hs.mono (List.subset_append_left _ _)⟩
    have hs₁ := stands_after_eval hs hc h
    exact ⟨hp.2, ctx, initOf, hs₁.mono (List.subset_append_right _ _)⟩
  | call h hvs hc =>
    have hcallee := hd _ .callee ⟨hp.1, ctx, initOf, hs.mono (List.subset_append_left _ _)⟩
    have hs₁ := stands_after_eval hs hcallee h
    have hall := hd _ (.arguments h)
      ⟨hp.2, ctx, initOf, hs₁.mono (List.subset_append_right _ _)⟩
    have hvs' := hall.ok hvs
    have hs₂ := hs₁.after (kept_evalAll hvs) hvs'.1
    obtain ⟨rfl, harity⟩ := checkCall_eq_ok hc
    exact ⟨hs₂.toFits, (hcallee.ok h).2.grow (kept_evalAll hvs).1, hvs'.2, harity⟩
  | array => exact ⟨hp, ctx, initOf, hs⟩

theorem ready_of_evalAll {es : List Expr} {b : Activity} (hb : Part ⟨n, .evalAll es, m⟩ b)
    (hr : Ready w ⟨n, .evalAll es, m⟩)
    (hd : ∀ c, Part ⟨n, .evalAll es, m⟩ c → c.Ready w → c.Done w) : b.Ready w := by
  obtain ⟨hp, ctx, initOf, hs⟩ := hr
  cases hb with
  | firstValue => exact ⟨hp.1, ctx, initOf, hs.mono (List.subset_append_left _ _)⟩
  | nextValues h =>
    have he := hd _ .firstValue ⟨hp.1, ctx, initOf, hs.mono (List.subset_append_left _ _)⟩
    have hs₁ := stands_after_eval hs he h
    exact ⟨hp.2, ctx, initOf, hs₁.mono (List.subset_append_right _ _)⟩

theorem ready_of_call {callee : Value} {arguments : List Value} {b : Activity}
    (hb : Part ⟨n, .call callee arguments, m⟩ b) (hr : Ready w ⟨n, .call callee arguments, m⟩)
    (ho : OpensIn w ⟨n, .call callee arguments, m⟩) : b.Ready w := by
  obtain ⟨hm, hv, hvs, harity⟩ := hr
  cases hb with
  | applyFunction => exact ⟨hm, hv, hvs, Option.some.inj harity⟩
  | @construct _ _ c _ method _ m₁ _ m₂ hc hi hb =>
    obtain ⟨hm₁, hc₁⟩ := (keeps_newInstance hm.heap hv).ok hi
    have hopened : w.opened m₁.nextFrame (.selfOf method.routine) := by
      cases hi
      exact ho.self (.construct hc)
    have hself := (keeps_bindSelf hm₁ (hc₁.method hc) hopened _).ok hb
    have hk : m.Kept m₂ := respected_kept.trans
      ((respects_newInstance respected_kept c).ok hi)
      ((respects_bindSelf respected_kept method _).ok hb)
    refine ⟨hm.after hk hself.1, hself.2.1, fun v hv => (hvs v hv).grow hk.1, ?_⟩
    rw [← Option.some.inj harity, Class.arity, hc, Closure.arity, hself.2.2]
    rfl

/-- The body of a routine runs in a frame with the arguments, around which are the frames of the
closure. -/
theorem ready_of_apply {c : Closure} {arguments : List Value} {b : Activity}
    (hb : Part ⟨n, .apply c arguments, m⟩ b) (hr : Ready w ⟨n, .apply c arguments, m⟩)
    (ho : OpensIn w ⟨n, .apply c arguments, m⟩) : b.Ready w := by
  obtain ⟨hm, hc, hvs, harity⟩ := hr
  cases hb with
  | @routineBody k _ _ _ f m₁ hf =>
    obtain ⟨hm₁, -⟩ := (keeps_argumentFrame hm.heap hc hvs).ok hf
    have hopened : w.opened m.nextFrame (.routine c.routine) := ho.self .routine
    obtain ⟨hp, -, ctx, hchain, hk⟩ := hc
    cases hf
    obtain ⟨⟨name, params, body⟩, frame, isConstructor⟩ := c
    refine ⟨hp.2.2, ctx.enter ⟨name, params, body⟩, ⟨⟨hm₁, hm.depths⟩, ?_, hk⟩⟩
    exact hchain.newFrame hopened fun name hn => isSome_lookup_bindArguments harity hn

theorem ready_of_exec {s : Stmt} {b : Activity} (hb : Part ⟨n, .exec s, m⟩ b)
    (hr : Ready w ⟨n, .exec s, m⟩) (ho : OpensIn w ⟨n, .exec s, m⟩)
    (hd : ∀ c, Part ⟨n, .exec s, m⟩ c → c.Ready w → c.Done w) : b.Ready w := by
  obtain ⟨hp, ctx, hs⟩ := hr
  cases hb with
  | expr => exact ⟨hp, ctx, none, hs⟩
  | @letVar _ _ name init =>
    -- the variable is in scope already, but not ready
    exact ⟨hp.2, ctx.bind name.text false, some name.text,
      ⟨hs.toFits, hs.chain.bind_false name.text, hs.known⟩⟩
  | @block _ _ body f m₁ hf =>
    obtain ⟨hm₁, -⟩ := (keeps_newScope hs.heap).ok hf
    have hopened : w.opened m.nextFrame (.block body) := ho.self .block
    cases hf
    exact ⟨hp, (.block body, []) :: ctx, ⟨⟨hm₁, hs.depths⟩, hs.chain.newFrame hopened nofun,
      hs.known⟩⟩
  | @ifTest _ _ test consequence alternative =>
    cases alternative with
    | none => exact ⟨hp.1, ctx, none, hs.mono (List.subset_append_left _ _)⟩
    | some alternative =>
      have hs := hs.mono (List.subset_append_left _ _)
      exact ⟨hp.1, ctx, none, hs.mono (List.subset_append_left _ _)⟩
  | @consequence _ _ test consequence alternative v m₁ h =>
    cases alternative with
    | none =>
      have ht := hd _ .ifTest ⟨hp.1, ctx, none, hs.mono (List.subset_append_left _ _)⟩
      have hs₁ := stands_after_eval hs ht h
      exact ⟨hp.2.2, ctx, hs₁.mono (List.subset_append_right _ _)⟩
    | some alternative =>
      have hs := hs.mono (List.subset_append_left _ _)
      have ht := hd _ .ifTest ⟨hp.1, ctx, none, hs.mono (List.subset_append_left _ _)⟩
      have hs₁ := stands_after_eval hs ht h
      exact ⟨hp.2.2.1, ctx, hs₁.mono (List.subset_append_right _ _)⟩
  | @alternative _ _ test consequence alternative v m₁ h =>
    have hs' := hs.mono (List.subset_append_left _ _)
    have ht := hd _ .ifTest ⟨hp.1, ctx, none, hs'.mono (List.subset_append_left _ _)⟩
    have hs₁ := (stands_after_eval hs ht h).mono (List.subset_append_right _ _)
    -- the consequence declares nothing, so the alternative has the same scopes around it
    rw [consequence.sites_fst_of_not_declaration hp.2.2.1 hp.2.1] at hs₁
    exact ⟨hp.2.2.2.2, ctx, hs₁⟩
  | whileDo => exact ⟨hp, ctx, ⟨⟨hs.heap, hs.depths⟩, hs.chain, hs.known⟩⟩
  | timesCount => exact ⟨hp.1, ctx, none, hs.mono (List.subset_append_left _ _)⟩
  | times h hx =>
    have hc := hd _ .timesCount ⟨hp.1, ctx, none, hs.mono (List.subset_append_left _ _)⟩
    have hs₁ := (stands_after_eval hs hc h).mono (List.subset_append_right _ _)
    obtain rfl := repeatCount_eq_ok hx
    exact ⟨hp.2.2, ctx, ⟨⟨hs₁.heap, hs₁.depths⟩, hs₁.chain, hs₁.known⟩⟩
  | returnWith => exact ⟨hp, ctx, none, hs⟩

theorem ready_of_execAll {body : List Stmt} {b : Activity} (hb : Part ⟨n, .execAll body, m⟩ b)
    (hr : Ready w ⟨n, .execAll body, m⟩)
    (hd : ∀ c, Part ⟨n, .execAll body, m⟩ c → c.Ready w → c.Done w) : b.Ready w := by
  obtain ⟨hp, ctx, hs⟩ := hr
  cases hb with
  | firstStmt => exact ⟨hp.1, ctx, hs.mono (List.subset_append_left _ _)⟩
  | @nextStmts _ _ s rest m₁ h =>
    have hs₁ := hd _ .firstStmt ⟨hp.1, ctx, hs.mono (List.subset_append_left _ _)⟩
    have hm₁ := hs.toFits.after (kept_exec h) (hs₁.ok h).1
    exact ⟨hp.2, (s.sites ctx).1, ⟨hm₁, chain_after hp.1 hs.chain h,
      fun site hm => hs.known site (List.mem_append_right _ hm)⟩⟩

theorem ready_of_repeatWhile {loop : Nat} {test : Expr} {body : Stmt} {b : Activity}
    (hb : Part ⟨n, .repeatWhile loop test body, m⟩ b)
    (hr : Ready w ⟨n, .repeatWhile loop test body, m⟩)
    (hd : ∀ c, Part ⟨n, .repeatWhile loop test body, m⟩ c → c.Ready w → c.Done w) :
    b.Ready w := by
  obtain ⟨hp, ctx, hs⟩ := hr
  have ht : Ready w ⟨n - 1, .eval test, m⟩ :=
    ⟨hp.1, ctx, none, hs.mono (List.subset_append_left _ _)⟩
  cases hb with
  | whileTest => exact ht
  | whileBody h =>
    have hs₁ := stands_after_eval hs (hd _ .whileTest ht) h
    exact ⟨hp.2.2, ctx, hs₁.mono (List.subset_append_right _ _)⟩
  | whileNext h hv hb =>
    have hs₁ := stands_after_eval hs (hd _ .whileTest ht) h
    have hbody := hd _ (.whileBody h hv)
      ⟨hp.2.2, ctx, hs₁.mono (List.subset_append_right _ _)⟩
    exact ⟨hp, ctx, hs₁.after (kept_exec hb) (hbody.ok hb).1⟩

theorem ready_of_repeatTimes {loop : Nat} {i count : Float} {body : Stmt} {b : Activity}
    (hb : Part ⟨n, .repeatTimes loop i count body, m⟩ b)
    (hr : Ready w ⟨n, .repeatTimes loop i count body, m⟩)
    (hd : ∀ c, Part ⟨n, .repeatTimes loop i count body, m⟩ c → c.Ready w → c.Done w) :
    b.Ready w := by
  obtain ⟨hp, ctx, hs⟩ := hr
  cases hb with
  | timesBody hi => exact ⟨hp, ctx, hs⟩
  | timesNext hi h =>
    have hbody := hd _ (.timesBody hi) ⟨hp, ctx, hs⟩
    exact ⟨hp, ctx, hs.after (kept_exec h) (hbody.ok h).1⟩

theorem ready_of_interpret {program : Program} {b : Activity}
    (hb : Part ⟨n, .interpret program, m⟩ b) (hr : Ready w ⟨n, .interpret program, m⟩)
    (hd : ∀ c, Part ⟨n, .interpret program, m⟩ c → c.Ready w → c.Done w) : b.Ready w := by
  obtain ⟨hp, hs⟩ := hr
  cases hb with
  | programFirst => exact ⟨hp.1, [], hs.mono (List.subset_append_left _ _)⟩
  | @programNext _ _ s rest flow m₁ h =>
    have hs₁ := hd _ .programFirst ⟨hp.1, [], hs.mono (List.subset_append_left _ _)⟩
    have hs₂ := hs.after (kept_exec h) (hs₁.ok h).1
    refine ⟨hp.2, hs₂.mono ?_⟩
    -- after a statement of the program there are still no scopes around
    have hnil := s.sites_fst_nil
    simp only [sites, Stmt.sitesOfAll, hnil]
    exact List.subset_append_right _ _

/-- What is begun in a run that is ready is ready, if what was begun before it did well. -/
theorem Part.ready {a b : Activity} (hb : a.Part b) (hr : a.Ready w) (ho : a.OpensIn w)
    (hd : ∀ c, a.Part c → c.Ready w → c.Done w) : b.Ready w := by
  obtain ⟨n, task, m⟩ := a
  cases task with
  | eval e => exact ready_of_eval hb hr hd
  | evalAll es => exact ready_of_evalAll hb hr hd
  | call callee arguments => exact ready_of_call hb hr ho
  | apply c arguments => exact ready_of_apply hb hr ho
  | exec s => exact ready_of_exec hb hr ho hd
  | execAll body => exact ready_of_execAll hb hr hd
  | repeatWhile loop test body => exact ready_of_repeatWhile hb hr hd
  | repeatTimes loop i count body => exact ready_of_repeatTimes hb hr hd
  | interpret program => exact ready_of_interpret hb hr hd

/-- A run that is ready keeps the heap fitting and gives back what fits. -/
theorem Ready.done {a : Activity} (hr : a.Ready w) (ho : a.OpensIn w) : a.Done w := by
  induction a using wellFounded_part.induction with
  | _ a ih =>
    -- what is begun in `a` does well as soon as it is ready, which the parts before it decide
    have hd : ∀ c, a.Part c → c.Ready w → c.Done w :=
      fun c hc hr' => ih c hc hr' (ho.part hc)
    exact done_of_parts hr ho fun b hb => hd b hb (hb.ready hr ho hd)

/-- Everything that is begun in the course of a run that is ready is ready. -/
theorem Ready.includes {a b : Activity} (hr : a.Ready w) (ho : a.OpensIn w) (hi : a.Includes b) :
    b.Ready w := by
  induction hi using Relation.ReflTransGen.head_induction_on with
  | refl => exact hr
  | head hp hi ih =>
    have hb := hp.ready hr ho fun c hc hr' => hr'.done (ho.part hc)
    exact ih hb (ho.part hp)

end Activity

end Jal
