import Jal.Proofs.Machine.Rooting
import Jal.Proofs.Session.Super

namespace Jal

/-- Frames lead to older frames and so to the global one, classes to older classes, and values to
what exists; `values` are those that are on their way, beside the ones in the heap. -/
structure Machine.LeadsBack (m : Machine) (values : List Value) : Prop where
  frames : ∀ f frame g, m.heap.frame? f = some frame → frame.outer = some g → g.index < f.index
  /-- The links end, and they do so at the global frame. -/
  chains : ∀ f frame, m.heap.frame? f = some frame → ∃ d ≤ f.index,
    m.heap.ancestor? f d = some m.globals ∧ m.heap.ancestor? f (d + 1) = none
  standing : ∃ frame, m.heap.frame? m.frame = some frame
  exist : ∀ v, m.heap.Holds v ∨ v ∈ values → v.LivesIn m.heap
  /-- The stamp of a class says when it was made. -/
  made : ∀ c, m.heap.HasClass values c → c.own.stamp < m.heap.nextStamp
  classes : ∀ c parent, m.heap.HasClass values c → c.superclass? = some parent →
    parent.own.stamp < c.own.stamp
  lookUps : ∀ c name, m.heap.HasClass values c →
    ∃ d ≤ c.own.stamp, c.LooksUp name d (c.method? name)

theorem Machine.Rooted.leadsBack {m : Machine} {values : List Value} (hm : m.Rooted)
    (hv : ∀ v ∈ values, v.LivesIn m.heap) : m.LeadsBack values where
  frames := hm.heap.links
  chains _ _ hf := hm.globals ▸ hm.heap.chain (Heap.lt_size_of_frame? hf)
  standing := Heap.exists_frame hm.frame
  exist v h := h.elim (hm.heap.values v) (hv v)
  made _ hc := (hc.livesIn hm.heap hv).stamp
  classes _ _ hc hp := (hc.livesIn hm.heap hv).superclass_lt hp
  lookUps _ name hc := (hc.livesIn hm.heap hv).looksUp name

/-- Nothing is lost in the course of an activity. -/
theorem Activity.grows (a : Activity) : a.machine.heap.Grows a.final.heap := by
  obtain ⟨n, task, m⟩ := a
  have h := Run.respecting Run.respected_grows n
  cases task with
  | eval e => exact h.eval e m
  | evalAll es => exact h.evalAll es m
  | call callee arguments => exact h.call callee arguments m
  | apply c arguments => exact h.apply c arguments m
  | exec s => exact h.exec s m
  | execAll body => exact h.execAll body m
  | repeatWhile loop test body => exact h.repeatWhile loop test body m
  | repeatTimes loop i count body => exact h.repeatTimes loop i count body m
  | interpret program => exact Run.respects_interpret Run.respected_grows n program m

namespace Session

/-- What there is at a moment of a session: its machine, and the values that something is begun with
or gives back just then. A moment is between two steps, or it is when something begins or ends in
the course of a step. -/
inductive Moment (console : Console) : Machine → List Value → Prop where
  | between (steps : List Step) : Moment console ((start console).after steps).machine []
  | begun {steps : List Step} {step : Step} {root a : Activity}
      (hroot : root ∈ ((start console).after steps).begins step) (hi : root.Includes a) :
      Moment console a.machine a.task.values
  | ended {steps : List Step} {step : Step} {root a : Activity}
      (hroot : root ∈ ((start console).after steps).begins step) (hi : root.Includes a) :
      Moment console a.final a.results

variable {s : Session} {console : Console}

theorem rooted_start (console : Console) : (start console).machine.Rooted := by
  have hframe {f : FrameId} {frame : Frame}
      (hf : (start console).machine.heap.frame? f = some frame) :
      f.index = 0 ∧ frame.outer = none := by
    obtain ⟨hlt, hframe⟩ := Array.getElem?_eq_some_iff.1 hf
    obtain ⟨_ | i⟩ := f
    · exact ⟨rfl, hframe ▸ rfl⟩
    · exact absurd hlt (Nat.not_lt.2 (Nat.le_add_left 1 i))
  refine ⟨⟨?_, fun f frame hf _ => (hframe hf).1, ?_⟩, Nat.zero_lt_one, rfl⟩
  · intro f frame g hf ho
    cases (hframe hf).2.symm.trans ho
  · intro v hv
    obtain ⟨f, rfl⟩ := holds_start hv
    trivial

theorem rooted_interpret {m : Machine} (hm : m.Rooted) (fuel : Nat) (program : Program) :
    (interpret fuel program m).2.Rooted := by
  rw [interpret_machine]
  exact (Run.roots_interpret fuel program hm).rooted

theorem rooted_step (s : Session) (step : Step) (hs : s.machine.Rooted) :
    (s.step step).machine.Rooted := by
  cases step with
  | source fuel text =>
    simp only [Session.step, run]
    split
    · exact hs
    · rename_i checked nextId _
      have hadd : (s.machine.addDepths checked.depths).Rooted :=
        ⟨hs.heap, hs.frame, hs.globals⟩
      exact rooted_interpret hadd fuel checked.program
  | unresolved fuel text => exact rooted_interpret hs fuel _
  | readLine | write text => exact ⟨hs.heap, hs.frame, hs.globals⟩

theorem rooted_after (console : Console) (steps : List Step) :
    ((start console).after steps).machine.Rooted :=
  after_induction rooted_step steps (rooted_start console)

theorem rooted_of_begins {step : Step} {root : Activity} (hs : s.machine.Rooted)
    (hroot : root ∈ s.begins step) : root.Rooted := by
  cases step with
  | source fuel text =>
    obtain ⟨checked, -, rfl⟩ := Option.map_eq_some_iff.1 hroot
    exact Activity.rooted_of_machine ⟨hs.heap, hs.frame, hs.globals⟩ rfl nofun
  | unresolved fuel text =>
    obtain rfl := Option.some.inj hroot
    exact Activity.rooted_of_machine hs rfl nofun
  | readLine | write text => cases hroot

theorem rooted_of_includes {steps : List Step} {step : Step} {root a : Activity}
    (hroot : root ∈ ((start console).after steps).begins step) (hi : root.Includes a) :
    a.Rooted := hi.rooted (rooted_of_begins (rooted_after console steps) hroot)

theorem Moment.leadsBack {m : Machine} {values : List Value} (h : Moment console m values) :
    m.LeadsBack values := by
  cases h with
  | between steps => exact (rooted_after console steps).leadsBack nofun
  | begun hroot hi =>
    have ha := rooted_of_includes hroot hi
    exact ha.machine.leadsBack ha.values
  | ended hroot hi =>
    obtain ⟨hm, hv⟩ := (rooted_of_includes hroot hi).ends
    exact hm.leadsBack hv

theorem grows_step (s : Session) (step : Step) :
    s.machine.heap.Grows (s.step step).machine.heap := by
  rcases heap_step s step with ⟨-, hheap⟩ | ⟨root, -, hheap, hfinal⟩
  · rw [hheap]
    exact .refl _
  · rw [← hheap, hfinal]
    exact root.grows

theorem grows_after (s : Session) (steps : List Step) :
    s.machine.heap.Grows (s.after steps).machine.heap :=
  after_induction (P := fun s' => s.machine.heap.Grows s'.machine.heap)
    (fun s' step h => h.trans (s'.grows_step step)) steps (.refl _)

end Session

open Session Run in
/-- The links lead back at every moment of a session. A class is declared with a stamp that no class
had until then, above a class that the heap held before. No statement and no expression loses what
there is, whatever the machine and however it ends, and so no steps of a session do. -/
theorem links_lead_back (console : Console) :
    (∀ m values, Moment console m values → m.LeadsBack values) ∧
    (∀ steps step, ∀ root ∈ ((start console).after steps).begins step,
      ∀ n name superclass methods m flow m',
        root.Includes ⟨n, .exec (.classDecl name superclass methods), m⟩ →
        exec n (.classDecl name superclass methods) m = .ok flow m' →
        ∃ c, m'.heap.get? m.frame name.text = some (.classValue c) ∧
          c.own.stamp = m.heap.nextStamp ∧ m'.heap.nextStamp = m.heap.nextStamp + 1 ∧
          ∀ parent, c.superclass? = some parent → m.heap.Holds (.classValue parent)) ∧
    (∀ n s (m : Machine), m.heap.Grows ((exec n s).final m).heap) ∧
    (∀ n e (m : Machine), m.heap.Grows ((eval n e).final m).heap) ∧
    ∀ steps more, ((start console).after steps).machine.heap.Grows
      ((start console).after (steps ++ more)).machine.heap := by
  have hgrows := respecting respected_grows
  refine ⟨fun m values h => h.leadsBack, ?_, fun n => (hgrows n).exec, fun n => (hgrows n).eval, ?_⟩
  · intro steps step root hroot n name superclass methods m flow m' hi h
    have hm : m.Rooted := (rooted_of_includes hroot hi).machine
    cases n with
    | zero => cases h
    | succ n =>
      obtain ⟨_, m₁, h, h'⟩ := bind_eq_ok h
      cases h'
      exact declareClass_makes hm h
  · intro steps more
    let s := (start console).after steps
    have hafter : (start console).after (steps ++ more) = s.after more := List.foldl_append
    rw [hafter]
    exact s.grows_after more

open Session Run in
/-- The program has not been resolved, so a class may inherit from the one whose name it takes. The
new `A` leads to the old one, where its `m` is found. -/
theorem links_lead_back_redeclared :
    ∃ text, text = "class A\x7bdef m()\x7b\x7d\x7d\nclass A inherits A\x7b\x7d\nA()" ∧
      ∃ root ∈ (start default).begins (.unresolved 9 text),
        ∃ old new before m,
          root.Includes ⟨9, .exec (.classDecl ⟨"A", 2⟩ (some ⟨0, ⟨"A", 2⟩⟩) []), before⟩ ∧
          root.Includes ⟨7, .call (.classValue new) [], m⟩ ∧
          old.own.name = "A" ∧ new.own.name = "A" ∧ new.superclass? = some old ∧
          old.own.stamp < new.own.stamp ∧ before.heap.Holds (.classValue old) ∧
          new.own.stamp = before.heap.nextStamp ∧ before.heap.Grows m.heap ∧
          (∃ d ≤ new.own.stamp, ∃ method, new.LooksUp "m" d (some method)) ∧
          ∃ d ≤ 1, m.heap.ancestor? ⟨1⟩ d = some m.globals ∧
            m.heap.ancestor? ⟨1⟩ (d + 1) = none := by
  let declA : Stmt := .classDecl ⟨"A", 1⟩ none [⟨⟨"m", 1⟩, [], []⟩]
  let redeclA : Stmt := .classDecl ⟨"A", 2⟩ (some ⟨0, ⟨"A", 2⟩⟩) []
  let callA : Stmt := .expr (.call (.variable ⟨1, ⟨"A", 3⟩⟩) 3 [])
  refine ⟨_, rfl, ?_⟩
  have hprogram : (parse 0 (scan
      "class A\x7bdef m()\x7b\x7d\x7d\nclass A inherits A\x7b\x7d\nA()").tokens).survivors =
        [declA, redeclA, callA] := by
    with_unfolding_all rfl
  generalize "class A\x7bdef m()\x7b\x7d\x7d\nclass A inherits A\x7b\x7d\nA()" = text at hprogram ⊢
  let m₀ : Machine := (start default).machine
  let root : Activity := ⟨9, .interpret [declA, redeclA, callA], m₀⟩
  have hroot : root ∈ ((start default).after []).begins (.unresolved 9 text) :=
    congrArg (fun program => some (Activity.mk 9 (.interpret program) m₀)) hprogram
  have hfound {id : Nat} {name : Name} {m : Machine} {v : Value} (hd : m.depths[id]? = none)
      (hg : m.heap.get? m.globals name.text = some v) : lookUp id name m = .ok v m := by
    simp only [lookUp, frameOf, hd, Option.bind_some, hg]
  have hglobal (id : Nat) : m₀.depths[id]? = none := by
    simp [m₀, start, Machine.start]
  let old : Class := ⟨⟨0, "A", [⟨⟨⟨"m", 1⟩, [], []⟩, ⟨0⟩, false⟩]⟩, []⟩
  let m₁ : Machine := (exec 9 declA).final m₀
  have hold : lookUpClass ⟨0, ⟨"A", 2⟩⟩ m₁ = .ok old m₁ := by
    have hvalue : lookUp 0 ⟨"A", 2⟩ m₁ = .ok (.classValue old) m₁ := hfound (hglobal 0) rfl
    simp only [lookUpClass, bind, EStateM.bind, hvalue]
    rfl
  let m₂ : Machine := declareHeir ⟨"A", 2⟩ [] old m₁
  have hredecl : exec 9 redeclA m₁ = .ok .normal m₂ := exec_classDecl hold
  let new : Class := ⟨⟨m₁.heap.nextStamp, "A", []⟩, old.layers⟩
  have hnew : eval 7 (.variable ⟨1, ⟨"A", 3⟩⟩) m₂ = .ok (.classValue new) m₂ :=
    hfound (hglobal 1) (get?_declareHeir rfl)
  have hdeclared : root.Includes ⟨9, .interpret [redeclA, callA], m₁⟩ :=
    .single (.programNext rfl (by rintro v ⟨⟩))
  have hredeclared : root.Includes ⟨9, .interpret [callA], m₂⟩ :=
    hdeclared.tail (.programNext hredecl (by rintro v ⟨⟩))
  have hcall : root.Includes ⟨7, .call (.classValue new) [], m₂⟩ :=
    ((hredeclared.tail .programFirst).tail .expr).tail (.call hnew rfl rfl)
  obtain ⟨hback, hmakes, hexec, -, -⟩ := links_lead_back default
  have hm := hback _ _ (.begun hroot hcall)
  have hclass : m₂.heap.HasClass [.classValue new] new := .atHand List.mem_cons_self
  obtain ⟨d, hd, hlook⟩ := hm.lookUps new "m" hclass
  have hmaking : root.Includes ⟨9, .exec redeclA, m₁⟩ := hdeclared.tail .programFirst
  obtain ⟨c, hc, hstamp, -, hheld⟩ := hmakes [] _ root hroot _ _ _ _ _ _ _ hmaking hredecl
  obtain rfl : new = c :=
    Value.classValue.inj (Option.some.inj ((get?_declareHeir rfl).symm.trans hc))
  have hgrows : m₁.heap.Grows m₂.heap := final_ok hredecl ▸ hexec 9 redeclA m₁
  have hlt : old.own.stamp < new.own.stamp := hm.classes new old hclass rfl
  exact ⟨root, hroot, old, new, m₁, m₂, hmaking, hcall, rfl, rfl, rfl, hlt, hheld old rfl, hstamp,
    hgrows, ⟨d, hd, _, hlook⟩, hm.chains ⟨1⟩ _ rfl⟩

end Jal
