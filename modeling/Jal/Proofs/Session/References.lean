import Jal.Proofs.Grammar.Survivors
import Jal.Proofs.Machine.Undefined
import Jal.Proofs.Session.Steps
import Mathlib.Data.List.Nodup

namespace Jal

theorem check_eq_ok {firstId : Nat} {source : String} {checked : Checked}
    (h : (check firstId source).1 = .ok checked) :
    checked.program = (parse firstId (scan source).tokens).survivors ∧
      resolve checked.program = .ok checked.depths := by
  simp only [check] at h
  split at h
  · split at h
    · rename_i depths hr
      cases h
      exact ⟨rfl, hr⟩
    · cases h
  · cases h

theorem lookup_insertMany {table : Std.HashMap Nat Nat} {entries : List (Nat × Nat)} {id d : Nat}
    (h : (table.insertMany entries)[id]? = some d) : (id, d) ∈ entries ∨ table[id]? = some d := by
  induction entries generalizing table with
  | nil => exact .inr (by simpa using h)
  | cons entry rest ih =>
    obtain ⟨id', d'⟩ := entry
    rw [Std.HashMap.insertMany_cons] at h
    rcases ih h with h | h
    · exact .inl (List.mem_cons_of_mem _ h)
    · rw [Std.HashMap.getElem?_insert] at h
      split at h
      · rename_i he
        rw [eq_of_beq he, Option.some.inj h]
        exact .inl List.mem_cons_self
      · exact .inr h

namespace Session

def accepts (s : Session) : Step → Option Checked
  | .source _ text => (check s.nextId text).1.toOption
  | _ => none

def runs (s : Session) : Step → Option Program
  | .source fuel text => (s.accepts (.source fuel text)).map Checked.program
  | .unresolved _ text => some (parse s.nextId (scan text).tokens).survivors
  | _ => none

def begins (s : Session) : Step → Option Activity
  | .source fuel text =>
    (s.accepts (.source fuel text)).map fun checked =>
      ⟨fuel, .interpret checked.program, s.machine.addDepths checked.depths⟩
  | .unresolved fuel text =>
    some ⟨fuel, .interpret (parse s.nextId (scan text).tokens).survivors, s.machine⟩
  | _ => none

/-- What `f` makes of every step, on the session as it is then. -/
def gather {β : Type} (f : Session → Step → Option β) (s : Session) : List Step → List β
  | [] => []
  | step :: rest => (f s step).toList ++ (s.step step).gather f rest

def Opened (s : Session) (steps : List Step) (f : FrameId) (node : ScopeNode) : Prop :=
  ∃ root ∈ s.gather begins steps, ∃ a, root.Includes a ∧ a.Opens f node

variable {s : Session} {step : Step} {steps : List Step}

theorem program_of_accepts {checked : Checked} (h : checked ∈ s.accepts step) :
    checked.program ∈ s.runs step := by
  cases step with
  | source fuel text => exact Option.mem_map_of_mem Checked.program h
  | _ => cases h

theorem resolve_of_accepts {checked : Checked} (h : checked ∈ s.accepts step) :
    resolve checked.program = .ok checked.depths := by
  cases step with
  | source fuel text =>
    cases hc : (check s.nextId text).1 with
    | ok found =>
      simp only [accepts, hc, Except.toOption, Option.mem_def, Option.some.injEq] at h
      exact h ▸ (check_eq_ok hc).2
    | error diagnostics =>
      simp only [accepts, hc, Except.toOption] at h
      cases h
  | _ => cases h

theorem nextId_source (s : Session) (fuel : Nat) (text : String) :
    (s.step (.source fuel text)).nextId = (parse s.nextId (scan text).tokens).nextId := by
  simp only [Session.step, run]
  rcases hc : check s.nextId text with ⟨outcome | outcome, nextId⟩ <;>
    exact (congrArg Prod.snd hc).symm

/-- A program that is run is what could be read of a source text. -/
theorem program_of_runs {program : Program} (h : program ∈ s.runs step) :
    ∃ text, program = (parse s.nextId (scan text).tokens).survivors ∧
      (s.step step).nextId = (parse s.nextId (scan text).tokens).nextId := by
  cases step with
  | source fuel text =>
    refine ⟨text, ?_, nextId_source s fuel text⟩
    cases hc : (check s.nextId text).1 with
    | ok found =>
      simp only [runs, accepts, hc, Except.toOption, Option.map_some, Option.mem_def,
        Option.some.injEq] at h
      exact h ▸ (check_eq_ok hc).1
    | error diagnostics =>
      simp only [runs, accepts, hc, Except.toOption] at h
      cases h
  | unresolved fuel text => exact ⟨text, (Option.some.inj h).symm, rfl⟩
  | _ => cases h

theorem nextId_le_step (s : Session) (step : Step) : s.nextId ≤ (s.step step).nextId := by
  cases step with
  | source fuel text =>
    rw [nextId_source]
    exact (Parsed.ids_between s.nextId (scan text).tokens).le
  | unresolved fuel text => exact (Parsed.ids_between s.nextId (scan text).tokens).le
  | readLine | write text => exact Nat.le_refl _

theorem ids_step (s : Session) (step : Step) :
    IdsBetween s.nextId (s.step step).nextId ((s.runs step).toList.flatMap Stmt.idsOfAll) := by
  cases hr : s.runs step with
  | none => exact .nil (nextId_le_step s step)
  | some program =>
    obtain ⟨text, rfl, hn⟩ := program_of_runs hr
    simp only [Option.toList_some, List.flatMap_cons, List.flatMap_nil, List.append_nil, hn]
    exact Parsed.ids_between s.nextId (scan text).tokens

/-- All references in a session have ids of their own. -/
theorem ids_gather (s : Session) (steps : List Step) :
    IdsBetween s.nextId (s.after steps).nextId
      ((s.gather runs steps).flatMap Stmt.idsOfAll) := by
  induction steps generalizing s with
  | nil => exact .nil (Nat.le_refl _)
  | cons step rest ih =>
    rw [gather, List.flatMap_append]
    exact (ids_step s step).append (ih (s.step step))

def references (s : Session) (steps : List Step) : List Site := (s.gather runs steps).flatMap sites

theorem references_distinct {site site' : Site} (h : site ∈ s.references steps)
    (h' : site' ∈ s.references steps) (hid : site.id = site'.id) : site = site' := by
  have hmap : (s.references steps).map Site.id = (s.gather runs steps).flatMap Stmt.idsOfAll := by
    simp only [references, List.map_flatMap, sites, Stmt.map_id_sitesOfAll]
  have hn := (s.ids_gather steps).nodup
  rw [← hmap] at hn
  exact List.inj_on_of_nodup_map hn h h' hid

theorem mem_references {checked : Checked} (hc : checked ∈ s.gather accepts steps) {site : Site}
    (hs : site ∈ sites checked.program) : site ∈ s.references steps := by
  induction steps generalizing s with
  | nil => cases hc
  | cons step rest ih =>
    simp only [references, gather, List.flatMap_append, List.mem_append]
    rcases List.mem_append.1 hc with hc | hc
    · have hp := Option.mem_toList.2 (program_of_accepts (Option.mem_toList.1 hc))
      exact .inl (List.mem_flatMap.2 ⟨checked.program, hp, hs⟩)
    · exact .inr (ih hc)

theorem exists_of_mem_gather {β : Type} {f : Session → Step → Option β} {b : β}
    (h : b ∈ s.gather f steps) : ∃ s' step, b ∈ f s' step := by
  induction steps generalizing s with
  | nil => cases h
  | cons step rest ih =>
    rcases List.mem_append.1 h with h | h
    · exact ⟨s, step, Option.mem_toList.1 h⟩
    · exact ih h

/-- The resolver has recorded the depth of the site. -/
theorem mem_depths {checked : Checked} (hc : checked ∈ s.gather accepts steps) {site : Site}
    (hs : site ∈ sites checked.program) {d : Nat} (hd : site.depth? = some d) :
    (site.id, d) ∈ checked.depths := by
  obtain ⟨s', step, hc⟩ := exists_of_mem_gather hc
  rw [(resolve_eq_ok (resolve_of_accepts hc)).1]
  exact List.mem_filterMap.2 ⟨site, hs, by rw [Site.entry?, hd]; rfl⟩

theorem proper_of_runs {program : Program} (h : program ∈ s.gather runs steps) :
    Stmt.AllProper program := by
  obtain ⟨s', step, h⟩ := exists_of_mem_gather h
  obtain ⟨text, rfl, -⟩ := program_of_runs h
  exact Parsed.proper_of_scan s'.nextId text

def setting (s : Session) (steps : List Step) : Setting where
  globals := s.machine.globals
  opened := s.Opened steps
  known site := site ∈ s.references steps
  accepted site := ∃ checked ∈ s.gather accepts steps, site ∈ sites checked.program
  orderly site hs := by
    obtain ⟨program, hp, hs⟩ := List.mem_flatMap.1 hs
    exact allOrderly_sites (proper_of_runs hp) site hs
  allowed site hs := by
    obtain ⟨checked, hc, hs⟩ := hs
    obtain ⟨s', step, hc⟩ := exists_of_mem_gather hc
    exact (resolve_eq_ok (resolve_of_accepts hc)).2 site hs
  distinct _ _ := references_distinct

variable {w : Setting}

/-- The session stands between two steps on a machine that fits. -/
structure Fits (w : Setting) (s : Session) : Prop extends s.machine.Fits w where
  frame : s.machine.frame = w.globals

structure Knows (w : Setting) (s : Session) (step : Step) : Prop where
  runs : ∀ program ∈ s.runs step, ∀ site ∈ sites program, w.known site
  accepts : ∀ checked ∈ s.accepts step, ∀ site ∈ sites checked.program, w.accepted site
  opens : ∀ root ∈ s.begins step, root.OpensIn w

/-- New entries in the table are for the references of a program that was accepted. -/
theorem agrees_insertMany {depths : Std.HashMap Nat Nat} (hd : w.Agrees depths)
    {checked : Checked} (hr : resolve checked.program = .ok checked.depths)
    (hk : ∀ site ∈ sites checked.program, w.known site)
    (ha : ∀ site ∈ sites checked.program, w.accepted site) :
    w.Agrees (depths.insertMany checked.depths) := by
  intro site hs d hentry
  rcases lookup_insertMany hentry with hentry | hentry
  · rw [(resolve_eq_ok hr).1] at hentry
    obtain ⟨site', hs', he⟩ := List.mem_filterMap.1 hentry
    obtain ⟨d', hd', he⟩ := Option.map_eq_some_iff.1 he
    obtain ⟨hid, rfl⟩ := Prod.mk.inj he
    -- the entry is for this very reference, since no other one has its id
    obtain rfl := w.distinct site' site (hk site' hs') hs hid
    exact ⟨hd', ha site' hs'⟩
  · exact hd site hs d hentry

theorem Fits.ready (hs : s.Fits w) (hk : Knows w s step) {root : Activity}
    (hroot : root ∈ s.begins step) : root.Ready w := by
  have hchain : s.machine.heap.Chain w s.machine.frame [] := hs.frame
  cases step with
  | source fuel text =>
    obtain ⟨checked, hc, rfl⟩ := Option.map_eq_some_iff.1 hroot
    have hsites := hk.runs _ (program_of_accepts hc)
    obtain ⟨_, hp, -⟩ := program_of_runs (program_of_accepts hc)
    have hproper : Stmt.AllProper checked.program := by
      rw [hp]
      exact Parsed.proper_of_scan s.nextId _
    have hdepths := agrees_insertMany hs.depths (resolve_of_accepts hc) hsites (hk.accepts _ hc)
    exact ⟨hproper, ⟨⟨hs.heap, hdepths⟩, hchain, hsites⟩⟩
  | unresolved fuel text =>
    obtain rfl := Option.some.inj hroot
    -- the table stays as it is: these references are known, but none was accepted
    exact ⟨Parsed.proper_of_scan s.nextId text, ⟨hs.toFits, hchain, hk.runs _ rfl⟩⟩
  | _ => cases hroot

theorem Fits.interpret {fuel : Nat} {program : Program} {m : Machine}
    (hr : Activity.Ready w ⟨fuel, .interpret program, m⟩)
    (ho : Activity.OpensIn w ⟨fuel, .interpret program, m⟩) (nextId : Nat) :
    Fits w ⟨(interpret fuel program m).2, nextId⟩ := by
  have hm : (Run.interpret fuel program).final m = (Session.interpret fuel program m).2 :=
    (interpret_machine fuel program m).symm
  have hk := Run.respects_interpret Run.respected_kept fuel program m
  have hd := hr.done ho
  have hh := hd.machine
  rw [hm] at hk hh
  exact ⟨hr.2.toFits.after hk hh, hk.2.frame.trans hr.2.chain⟩

/-- A step leaves a session that fits. -/
theorem Fits.after_step (hs : s.Fits w) (hk : Knows w s step) : (s.step step).Fits w := by
  cases step with
  | source fuel text =>
    rcases hc : check s.nextId text with ⟨outcome | checked, nextId⟩
    · simp only [Session.step, run, hc]
      exact ⟨⟨hs.heap, hs.depths⟩, hs.frame⟩
    · have hroot : (⟨fuel, .interpret checked.program, s.machine.addDepths checked.depths⟩ :
          Activity) ∈ s.begins (.source fuel text) := by
        simp only [begins, accepts, hc, Except.toOption, Option.map_some, Option.mem_def]
      simp only [Session.step, run, hc]
      exact Fits.interpret (hs.ready hk hroot) (hk.opens _ hroot) nextId
  | unresolved fuel text => exact Fits.interpret (hs.ready hk rfl) (hk.opens _ rfl) _
  | readLine | write text => exact ⟨⟨hs.heap, hs.depths⟩, hs.frame⟩

/-- All runs of a session that fits are ready. -/
theorem Fits.gather (hs : s.Fits w)
    (hruns : ∀ program ∈ s.gather runs steps, ∀ site ∈ sites program, w.known site)
    (haccepts : ∀ checked ∈ s.gather accepts steps, ∀ site ∈ sites checked.program,
      w.accepted site)
    (hopens : ∀ root ∈ s.gather begins steps, root.OpensIn w) :
    ∀ root ∈ s.gather begins steps, root.Ready w := by
  induction steps generalizing s with
  | nil => nofun
  | cons step rest ih =>
    simp only [Session.gather, List.forall_mem_append, Option.mem_toList] at hruns haccepts hopens ⊢
    have hk : Knows w s step := ⟨hruns.1, haccepts.1, hopens.1⟩
    exact ⟨fun root hroot => hs.ready hk hroot,
      ih (hs.after_step hk) hruns.2 haccepts.2 hopens.2⟩

theorem fits_start (console : Console) (hg : w.globals = (Machine.start console).globals) :
    (start console).Fits w := by
  have hnative (name : String) (v : Value)
      (hv : List.lookup name (Native.all.map fun f => (f.name, Value.native f)) = some v) :
      v.FitsAs w Heap.empty name := by
    obtain ⟨_, _, hl, -⟩ := List.lookup_eq_some_iff.1 hv
    have hm : (name, v) ∈ Native.all.map fun f => (f.name, Value.native f) := by
      rw [hl]
      exact List.mem_append_right _ List.mem_cons_self
    obtain ⟨f, -, he⟩ := List.mem_map.1 hm
    obtain ⟨rfl, rfl⟩ := Prod.mk.inj he
    exact ⟨trivial, by cases f <;> nofun, by cases f <;> nofun⟩
  have hempty : Heap.empty.Fits w :=
    ⟨by simp [Heap.empty, Heap.frame?], by simp [Heap.empty], by simp [Heap.empty, Heap.instance?],
      by simp [Heap.empty, Heap.instance?]⟩
  refine ⟨⟨hempty.newFrame hnative, ?_⟩, hg.symm⟩
  intro site _ d hd
  simp [start, Machine.start] at hd

/-- All runs of a session from its start on are ready in the setting of the session. -/
theorem ready_of_begins (console : Console) {steps : List Step} {root : Activity}
    (h : root ∈ (start console).gather begins steps) :
    root.Ready ((start console).setting steps) ∧ root.OpensIn ((start console).setting steps) := by
  have hopens : ∀ root ∈ (start console).gather begins steps,
      root.OpensIn ((start console).setting steps) :=
    fun root hroot a ha f node ho => ⟨root, hroot, a, ha, ho⟩
  refine ⟨(fits_start console rfl).gather ?_ ?_ hopens root h, hopens root h⟩
  · exact fun program hp site hs => List.mem_flatMap.2 ⟨program, hp, hs⟩
  · exact fun checked hc site hs => ⟨checked, hc, hs⟩

theorem mem_gather_append {β : Type} {f : Session → Step → Option β} {b : β} {before : List Step}
    (h : b ∈ f (s.after before) step) : b ∈ s.gather f (before ++ [step]) := by
  induction before generalizing s with
  | nil => exact List.mem_append_left _ (Option.mem_toList.2 h)
  | cons first rest ih => exact List.mem_append_right _ (ih h)

/-- A source text fails with an undefined variable when its program does. -/
theorem raises_of_run {fuel : Nat} {text : String} {line : Option Nat} {x : String}
    (h : (s.run fuel text).1 = .error (.failed ⟨line, .undefinedVariable x⟩)) :
    ∃ root ∈ s.begins (.source fuel text), root.Raises x := by
  rcases hc : check s.nextId text with ⟨outcome | checked, nextId⟩
  · simp only [run, hc] at h
    cases h
  · refine ⟨⟨fuel, .interpret checked.program, s.machine.addDepths checked.depths⟩, ?_, ?_⟩
    · simp only [begins, accepts, hc, Except.toOption, Option.map_some, Option.mem_def]
    · simp only [run, hc, Session.interpret] at h
      rcases hr : Run.interpret fuel checked.program (s.machine.addDepths checked.depths) with
        ⟨_, m'⟩ | ⟨_ | _, m'⟩ <;> simp only [hr] at h
      · cases h
      · cases h
        exact ⟨line, m', hr⟩
      · cases h

end Session

open Session

theorem found_of_entry (console : Console) {steps : List Step} {root a : Activity} {l : Lookup}
    {d : Nat} (hroot : root ∈ (start console).gather begins steps) (ha : root.Includes a)
    (hl : a.Refers l) (hd : l.machine.depths[l.id]? = some d) :
    ∃ checked ∈ (start console).gather accepts steps, ∃ site ∈ sites checked.program,
      l.Found ((start console).Opened steps) site d := by
  obtain ⟨hr, ho⟩ := ready_of_begins console hroot
  have hra := hr.includes ho ha
  obtain ⟨site, ⟨checked, hc, hs⟩, hf⟩ := hl.found hra (fun b hb => ho b (ha.trans hb)) hd
  exact ⟨checked, hc, site, hs, hf⟩

/-- Whenever a reference with an entry in the table is evaluated in the course of a session, it is
found where the resolver found it in the one place of an accepted program that it stands for. A
source text fails with an undefined variable only at a reference without an entry, or at an
assignment in the initializer of that variable. -/
theorem references_found (console : Console) (steps : List Step) :
    (∀ root ∈ (start console).gather begins steps, ∀ a l d, root.Includes a → a.Refers l →
      l.machine.depths[l.id]? = some d →
      ∃ checked ∈ (start console).gather accepts steps, ∃ site ∈ sites checked.program,
        (l.id, d) ∈ checked.depths ∧ l.Found ((start console).Opened steps) site d ∧
          ∀ site' ∈ (start console).references steps, site'.id = l.id → site' = site) ∧
    ∀ fuel text line x, (((start console).after steps).run fuel text).1 =
        .error (.failed ⟨line, .undefinedVariable x⟩) →
      ∃ root ∈ ((start console).after steps).begins (.source fuel text), ∃ a l,
        root.Includes a ∧ a.Refers l ∧ l.name = x ∧
          (l.machine.depths[l.id]? = none ∨ l.machine.depths[l.id]? = some 0 ∧ l.use = .write ∧
            ∃ checked ∈ (start console).gather accepts (steps ++ [.source fuel text]),
              ∃ site ∈ sites checked.program, site.id = l.id ∧ site.initOf = some x) := by
  refine ⟨?_, ?_⟩
  · intro root hroot a l d ha hl hd
    obtain ⟨checked, hc, site, hs, hf⟩ := found_of_entry console hroot ha hl hd
    refine ⟨checked, hc, site, hs, hf.id ▸ mem_depths hc hs hf.depth, hf, ?_⟩
    intro site' hs' hid
    exact references_distinct hs' (mem_references hc hs) (hid.trans hf.id.symm)
  · intro fuel text line x h
    obtain ⟨root, hroot, hraises⟩ := raises_of_run h
    -- the run that fails is the last one of the session with this step added
    have hroot' := mem_gather_append hroot
    obtain ⟨hr, ho⟩ := ready_of_begins console hroot'
    obtain ⟨a, l, ha, hl, hx, hn⟩ := hr.undefined ho hraises
    refine ⟨root, hroot, a, l, ha, hl, hx, ?_⟩
    cases hd : l.machine.depths[l.id]? with
    | none => exact .inl rfl
    | some d =>
      obtain ⟨checked, hc, site, hs, hf⟩ := found_of_entry console hroot' ha hl hd
      obtain ⟨hu, hi, rfl⟩ := hf.succeeds.resolve_left hn
      exact .inr ⟨rfl, hu, checked, hc, site, hs, hf.id, hx ▸ hi⟩

/-- An assignment to the variable whose initializer it stands in finds the frame without it. -/
theorem interpret_assign_early {m : Machine} (hd : m.depths[0]? = some 0) :
    (Session.interpret 7 [.block [.letVar ⟨"a", 1⟩ (some (.assign ⟨0, ⟨"a", 1⟩⟩ (.literal .none)))]]
      m).1 =
      .error (.failed ⟨some 1, .undefinedVariable "a"⟩) := by
  have hf := Heap.frame?_newFrame_self m.heap [] (some m.frame)
  simp only [Session.interpret, Run.interpret, Run.exec, Run.execAll, Run.eval, Run.newScope,
    Run.newFrame, Run.onHeap, Run.inFrame, Run.assign, Run.frameOf, bind, EStateM.bind, pure,
    EStateM.pure, hd, Heap.ancestor?, Heap.has, Heap.get?, hf, Option.filter_some,
    Option.bind_some, List.lookup_nil, Option.isSome_none, Bool.false_eq_true, if_false]
  rfl

/-- A block reads a variable of the block around it, and an initializer assigns to its own
variable. -/
theorem references_found_in_blocks :
    (∃ root ∈ (start default).gather begins [.source 7 "\x7blet a;\x7ba;\x7d\x7d"],
      ∃ a l, root.Includes a ∧ a.Refers l ∧ l.machine.depths[l.id]? = some 1 ∧
        ∃ checked ∈ (start default).gather accepts [.source 7 "\x7blet a;\x7ba;\x7d\x7d"],
          ∃ site ∈ sites checked.program,
            l.Found ((start default).Opened [.source 7 "\x7blet a;\x7ba;\x7d\x7d"]) site 1) ∧
    ((start default).run 7 "\x7blet a=a=none;\x7d").1 =
        .error (.failed ⟨some 1, .undefinedVariable "a"⟩) ∧
      ∃ root ∈ (start default).begins (.source 7 "\x7blet a=a=none;\x7d"),
        ∃ a l, root.Includes a ∧ a.Refers l ∧ l.name = "a" := by
  refine ⟨?_, ?_⟩
  · have hc : (start default).accepts (.source 7 "\x7blet a;\x7ba;\x7d\x7d") = some
        ⟨[.block [.letVar ⟨"a", 1⟩ none, .block [.expr (.variable ⟨0, ⟨"a", 1⟩⟩)]]], [(0, 1)]⟩ := by
      with_unfolding_all rfl
    let root : Activity :=
      ⟨7, .interpret [.block [.letVar ⟨"a", 1⟩ none, .block [.expr (.variable ⟨0, ⟨"a", 1⟩⟩)]]],
        (start default).machine.addDepths [(0, 1)]⟩
    have hroot : root ∈ (start default).gather begins [.source 7 "\x7blet a;\x7ba;\x7d\x7d"] := by
      simp [gather, begins, hc, root]
    have hd : ((start default).machine.addDepths [(0, 1)]).depths[0]? = some 1 := by
      simp [Machine.addDepths, start, Machine.start]
    -- from the program through the two blocks to the use of `a`
    have outer := (Relation.ReflTransGen.single .programFirst : root.Includes _).tail (.block rfl)
    have inner := ((outer.tail (.nextStmts rfl)).tail .firstStmt).tail (.block rfl)
    have ha := (inner.tail .firstStmt).tail .expr
    obtain ⟨checked, hc, site, hs, -, hf, -⟩ :=
      (references_found default _).1 root hroot _ _ _ ha .variable hd
    exact ⟨root, hroot, _, _, ha, .variable, hd, checked, hc, site, hs, hf⟩
  · have hc : check 0 "\x7blet a=a=none;\x7d" = (.ok
        ⟨[.block [.letVar ⟨"a", 1⟩ (some (.assign ⟨0, ⟨"a", 1⟩⟩ (.literal .none)))]], [(0, 0)]⟩,
          1) := by
      with_unfolding_all rfl
    have h : ((start default).run 7 "\x7blet a=a=none;\x7d").1 =
        .error (.failed ⟨some 1, .undefinedVariable "a"⟩) := by
      rw [run, show (start default).nextId = 0 from rfl, hc]
      exact interpret_assign_early (by simp [Machine.addDepths, start, Machine.start])
    obtain ⟨root, hroot, a, l, ha, hl, hx, -⟩ := (references_found default []).2 7 _ _ _ h
    exact ⟨h, root, hroot, a, l, ha, hl, hx⟩

end Jal
