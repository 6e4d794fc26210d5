import Jal.Proofs.Session.References

namespace Jal

def Parsed.ids (p : Parsed) : List Nat := Stmt.idsOfAll p.survivors

/-- Parses token lists one after the other; each parse begins with the id after those of the ones
before it. -/
def parses (firstId : Nat) : List (List Token) → List Parsed
  | [] => []
  | tokens :: rest => parse firstId tokens :: parses (parse firstId tokens).nextId rest

/-- All ids handed out by the first parse, and before it, are smaller than those of the second. -/
def Parsed.Precedes (p q : Parsed) : Prop := ∀ id ∈ q.ids, p.nextId ≤ id

/-- The ids of all parses together were handed out from `firstId` on, and from no other parse's
supply. -/
theorem ids_parses (firstId : Nat) (lists : List (List Token)) :
    (∃ last, IdsBetween firstId last ((parses firstId lists).flatMap Parsed.ids)) ∧
      (parses firstId lists).Pairwise Parsed.Precedes := by
  induction lists generalizing firstId with
  | nil => exact ⟨⟨firstId, .nil (Nat.le_refl _)⟩, .nil⟩
  | cons tokens rest ih =>
    have hfirst := Parsed.ids_between firstId tokens
    obtain ⟨⟨last, hrest⟩, hpairs⟩ := ih (parse firstId tokens).nextId
    refine ⟨⟨last, ?_⟩, List.pairwise_cons.2 ⟨?_, hpairs⟩⟩
    · rw [parses, List.flatMap_cons]
      exact hfirst.append hrest
    · intro q hq id hid
      exact (hrest.mem id (List.mem_flatMap.2 ⟨q, hq, hid⟩)).1

/-- The ids of a parse were handed out by it. -/
theorem lt_nextId_of_parses {firstId : Nat} {lists : List (List Token)} {p : Parsed}
    (h : p ∈ parses firstId lists) : ∀ id ∈ p.ids, id < p.nextId := by
  induction lists generalizing firstId with
  | nil => cases h
  | cons tokens rest ih =>
    rcases List.mem_cons.1 h with rfl | h
    · exact fun id hid => ((Parsed.ids_between firstId tokens).mem id hid).2
    · exact ih h

/-- The entries that the resolver finds are for different references of the program. -/
theorem keys_of_resolve {program : Program} {depths : List (Nat × Nat)}
    (h : resolve program = .ok depths) :
    (depths.map Prod.fst).Sublist (Stmt.idsOfAll program) := by
  have hsub (found : List Site) :
      ((found.filterMap Site.entry?).map Prod.fst).Sublist (found.map Site.id) := by
    induction found with
    | nil => exact .slnil
    | cons site rest ih =>
      cases hd : site.depth? with
      | none =>
        rw [List.filterMap_cons_none (by rw [Site.entry?, hd]; rfl)]
        exact ih.cons _
      | some d =>
        rw [List.filterMap_cons_some (b := (site.id, d)) (by rw [Site.entry?, hd]; rfl)]
        exact ih.cons_cons _
  rw [(resolve_eq_ok h).1, ← Stmt.map_id_sitesOfAll [] program]
  exact hsub (sites program)

theorem getElem?_insertMany_of_notMem {table : Std.HashMap Nat Nat} {entries : List (Nat × Nat)}
    {id : Nat} (h : id ∉ entries.map Prod.fst) : (table.insertMany entries)[id]? = table[id]? :=
  Std.HashMap.getElem?_insertMany_list_of_contains_eq_false (by simpa using h)

/-- Entries with different keys are all found again in a table that has none of them yet. -/
theorem getElem?_insertMany_of_new {table : Std.HashMap Nat Nat} {entries : List (Nat × Nat)}
    {id : Nat} (hn : (entries.map Prod.fst).Nodup) (hid : id ∉ table) :
    (table.insertMany entries)[id]? = entries.lookup id := by
  cases hl : entries.lookup id with
  | none =>
    have hmem : id ∉ entries.map Prod.fst := by
      intro hm
      obtain ⟨entry, he, rfl⟩ := List.mem_map.1 hm
      simpa using List.lookup_eq_none_iff.1 hl entry he
    rw [getElem?_insertMany_of_notMem hmem]
    exact Std.HashMap.getElem?_eq_none hid
  | some d =>
    obtain ⟨before, rest, he, -⟩ := List.lookup_eq_some_iff.1 hl
    refine Std.HashMap.getElem?_insertMany_list_of_mem (beq_self_eq_true id) ?_ ?_
    · exact (List.pairwise_map.1 hn).imp fun hne => beq_false_of_ne hne
    · rw [he]
      exact List.mem_append_right _ List.mem_cons_self

namespace Session

variable {s : Session} {step : Step}

def adds (s : Session) (step : Step) : List (Nat × Nat) :=
  ((s.accepts step).map Checked.depths).getD []

theorem depths_interpret (fuel : Nat) (program : Program) (m : Machine) :
    (interpret fuel program m).2.depths = m.depths := by
  rw [interpret_machine]
  exact (Run.respects_interpret Run.respected_sameStanding fuel program m).depths

theorem depths_step (s : Session) (step : Step) :
    (s.step step).machine.depths = s.machine.depths.insertMany (s.adds step) := by
  cases step with
  | source fuel text =>
    rcases hc : check s.nextId text with ⟨outcome | checked, nextId⟩ <;>
      simp only [Session.step, run, adds, accepts, hc, Except.toOption, Option.map_none,
        Option.map_some, Option.getD_none, Option.getD_some, Std.HashMap.insertMany_nil,
        depths_interpret, Machine.addDepths]
  | unresolved fuel text =>
    simp only [Session.step, runUnresolved, adds, accepts, Option.map_none, Option.getD_none,
      Std.HashMap.insertMany_nil, depths_interpret]
  | readLine | write text =>
    simp only [Session.step, readLine, Session.write, adds, accepts, Option.map_none,
      Option.getD_none, Std.HashMap.insertMany_nil]

/-- The ids of a text that passes the check are new. -/
theorem ids_of_accepts {checked : Checked} (h : checked ∈ s.accepts step) :
    IdsBetween s.nextId (s.step step).nextId (Stmt.idsOfAll checked.program) := by
  have hids := ids_step s step
  rw [Option.mem_def.1 (program_of_accepts h)] at hids
  simpa only [Option.toList_some, List.flatMap_cons, List.flatMap_nil, List.append_nil] using hids

theorem ids_adds (s : Session) (step : Step) :
    IdsBetween s.nextId (s.step step).nextId ((s.adds step).map Prod.fst) := by
  cases ha : s.accepts step with
  | none =>
    simp only [adds, ha]
    exact .nil (nextId_le_step s step)
  | some checked =>
    have hsub := keys_of_resolve (resolve_of_accepts ha)
    have hids := ids_of_accepts ha
    simp only [adds, ha]
    exact ⟨hids.le, hids.nodup.sublist hsub, fun id hid => hids.mem id (hsub.subset hid)⟩

def Bounded (s : Session) : Prop := ∀ id ∈ s.machine.depths, id < s.nextId

theorem bounded_start (console : Console) : (start console).Bounded := by
  intro id hid
  simp [start, Machine.start] at hid

theorem Bounded.after_step (hs : s.Bounded) (step : Step) : (s.step step).Bounded := by
  intro id hid
  rw [depths_step, Std.HashMap.mem_insertMany_list] at hid
  rcases hid with hid | hid
  · exact Nat.lt_of_lt_of_le (hs id hid) (nextId_le_step s step)
  · exact ((ids_adds s step).mem id (by simpa using hid)).2

theorem bounded_after (console : Console) (steps : List Step) :
    ((start console).after steps).Bounded :=
  after_induction (fun _ step hs => hs.after_step step) steps (bounded_start console)

theorem Bounded.new (hs : s.Bounded) {id : Nat} (h : s.nextId ≤ id) : id ∉ s.machine.depths :=
  fun hid => absurd (hs id hid) (Nat.not_lt.2 h)

/-- No step touches the entry of an id that was handed out before it. -/
theorem getElem?_depths_after {id : Nat} (h : id < s.nextId) (steps : List Step) :
    (s.after steps).machine.depths[id]? = s.machine.depths[id]? := by
  induction steps generalizing s with
  | nil => rfl
  | cons step rest ih =>
    have hkey : id ∉ (s.adds step).map Prod.fst := fun hid =>
      absurd ((ids_adds s step).mem id hid).1 (Nat.not_le.2 h)
    calc ((s.step step).after rest).machine.depths[id]?
        = (s.step step).machine.depths[id]? := ih (Nat.lt_of_lt_of_le h (nextId_le_step s step))
      _ = s.machine.depths[id]? := by rw [depths_step, getElem?_insertMany_of_notMem hkey]

/-- The table keeps what the resolver found for each text. -/
theorem Bounded.getElem?_depths {steps : List Step} (hs : s.Bounded) {checked : Checked}
    (hc : checked ∈ s.gather accepts steps) {id : Nat}
    (hid : id ∈ Stmt.idsOfAll checked.program) :
    (s.after steps).machine.depths[id]? = checked.depths.lookup id := by
  induction steps generalizing s with
  | nil => cases hc
  | cons step rest ih =>
    rcases List.mem_append.1 hc with hc | hc
    · have ha := Option.mem_toList.1 hc
      have hadds : s.adds step = checked.depths := by
        rw [adds, Option.mem_def.1 ha]
        rfl
      have hbetween := (ids_of_accepts ha).mem id hid
      calc ((s.step step).after rest).machine.depths[id]?
          = (s.step step).machine.depths[id]? := getElem?_depths_after hbetween.2 rest
        _ = (s.machine.depths.insertMany checked.depths)[id]? := by rw [depths_step, hadds]
        _ = checked.depths.lookup id :=
          getElem?_insertMany_of_new (hadds ▸ (ids_adds s step).nodup) (hs.new hbetween.1)
    · exact ih (hs.after_step step) hc

/-- A step runs with the table as it leaves it. -/
theorem depths_of_begins {root : Activity} (h : root ∈ s.begins step) :
    root.machine.depths = (s.step step).machine.depths := by
  rw [depths_step]
  cases step with
  | source fuel text =>
    obtain ⟨checked, hc, rfl⟩ := Option.map_eq_some_iff.1 h
    simp only [adds, hc, Option.map_some, Option.getD_some, Machine.addDepths]
  | unresolved fuel text =>
    obtain rfl := Option.some.inj h
    simp only [adds, accepts, Option.map_none, Option.getD_none, Std.HashMap.insertMany_nil]
  | _ => cases h

end Session

namespace Activity

open Run

/-- A run leaves the table alone. -/
theorem Part.depths_eq {a b : Activity} (h : a.Part b) :
    b.machine.depths = a.machine.depths := by
  obtain ⟨m, hs, he⟩ := h.enters
  obtain ⟨n, task, m'⟩ := b
  rw [← hs.depths]
  cases he <;> rfl

theorem Includes.depths_eq {a b : Activity} (h : a.Includes b) :
    b.machine.depths = a.machine.depths := by
  induction h with
  | refl => rfl
  | tail _ hp ih => rw [hp.depths_eq, ih]

theorem Refers.depths_eq {a : Activity} {l : Lookup} (h : a.Refers l) :
    l.machine.depths = a.machine.depths := by
  cases h with
  | assign h => exact (kept_eval h).2.depths
  | _ => rfl

end Activity

open Session in
/-- Whatever is parsed in a process, each reference that could be read has an id of its own, and
later ones have larger ids than all that were handed out before. So in a session a text that passes
the check adds entries to the table and replaces none, and a reference of this text is evaluated,
then and later, with the depth that the resolver found for it, or as a global one if it found
none. -/
theorem ids_never_collide :
    (∀ firstId lists, ((parses firstId lists).flatMap Parsed.ids).Nodup ∧
      (∀ p ∈ parses firstId lists, ∀ id ∈ p.ids, id < p.nextId) ∧
      (parses firstId lists).Pairwise Parsed.Precedes) ∧
    (∀ console steps step, ∀ checked ∈ ((start console).after steps).accepts step,
      (checked.depths.map Prod.fst).Nodup ∧
        ∀ entry ∈ checked.depths, entry.1 ∉ ((start console).after steps).machine.depths) ∧
    ∀ console steps step, ∀ root ∈ ((start console).after steps).begins step, ∀ a l,
      root.Includes a → a.Refers l → ∀ checked ∈ (start console).gather accepts (steps ++ [step]),
        l.id ∈ Stmt.idsOfAll checked.program →
        l.machine.depths[l.id]? = checked.depths.lookup l.id := by
  refine ⟨?_, ?_, ?_⟩
  · intro firstId lists
    obtain ⟨⟨last, hids⟩, hpairs⟩ := ids_parses firstId lists
    exact ⟨hids.nodup, fun p hp => lt_nextId_of_parses hp, hpairs⟩
  · intro console steps step checked hc
    have hadds : ((start console).after steps).adds step = checked.depths := by
      rw [adds, Option.mem_def.1 hc]
      rfl
    have hids := ids_adds ((start console).after steps) step
    rw [hadds] at hids
    refine ⟨hids.nodup, fun entry he => (bounded_after console steps).new ?_⟩
    exact (hids.mem entry.1 (List.mem_map_of_mem he)).1
  · intro console steps step root hroot a l ha hl checked hc hid
    have hafter : (start console).after (steps ++ [step]) =
        ((start console).after steps).step step := List.foldl_append
    rw [hl.depths_eq, ha.depths_eq, depths_of_begins hroot, ← hafter]
    exact (bounded_start console).getElem?_depths hc hid

open Session in
/-- One text twice: the second time, its reference has an id and an entry of its own. -/
theorem ids_never_collide_twice :
    ∃ checked ∈ ((start default).after [.source 7 "\x7blet a;\x7ba;\x7d\x7d"]).accepts
        (.source 7 "\x7blet a;\x7ba;\x7d\x7d"),
      (∀ entry ∈ checked.depths, entry.1 ∉
        ((start default).after [.source 7 "\x7blet a;\x7ba;\x7d\x7d"]).machine.depths) ∧
      ∃ root ∈ ((start default).after [.source 7 "\x7blet a;\x7ba;\x7d\x7d"]).begins
          (.source 7 "\x7blet a;\x7ba;\x7d\x7d"),
        ∃ a l, root.Includes a ∧ a.Refers l ∧ l.id = 1 ∧
          l.id ∈ Stmt.idsOfAll checked.program ∧
          l.machine.depths[l.id]? = checked.depths.lookup l.id ∧
          checked.depths.lookup l.id = some 1 := by
  let step : Step := .source 7 "\x7blet a;\x7ba;\x7d\x7d"
  have hcheck (id : Nat) (h : id = 0 ∨ id = 1) : check id "\x7blet a;\x7ba;\x7d\x7d" = (.ok
      ⟨[.block [.letVar ⟨"a", 1⟩ none, .block [.expr (.variable ⟨id, ⟨"a", 1⟩⟩)]]], [(id, 1)]⟩,
        id + 1) := by
    rcases h with rfl | rfl <;> with_unfolding_all rfl
  have hnext : ((start default).after [step]).nextId = 1 := by
    simp only [step, after, List.foldl_cons, List.foldl_nil, Session.step, run,
      show (start default).nextId = 0 from rfl, hcheck 0 (.inl rfl)]
  have hc : (⟨[.block [.letVar ⟨"a", 1⟩ none, .block [.expr (.variable ⟨1, ⟨"a", 1⟩⟩)]]],
      [(1, 1)]⟩ : Checked) ∈ ((start default).after [step]).accepts step := by
    simp only [step, accepts, Option.mem_def] at hnext ⊢
    rw [hnext, hcheck 1 (.inr rfl)]
    rfl
  obtain ⟨-, hnew, htable⟩ := ids_never_collide
  let root : Activity :=
    ⟨7, .interpret [.block [.letVar ⟨"a", 1⟩ none, .block [.expr (.variable ⟨1, ⟨"a", 1⟩⟩)]]],
      ((start default).after [step]).machine.addDepths [(1, 1)]⟩
  have hroot : root ∈ ((start default).after [step]).begins step := Option.mem_map_of_mem _ hc
  -- from the program through the two blocks to the use of `a`
  have outer := (Relation.ReflTransGen.single .programFirst : root.Includes _).tail (.block rfl)
  have inner := ((outer.tail (.nextStmts rfl)).tail .firstStmt).tail (.block rfl)
  have ha := (inner.tail .firstStmt).tail .expr
  have hid : 1 ∈ Stmt.idsOfAll [.block [.letVar ⟨"a", 1⟩ none,
      .block [.expr (.variable ⟨1, ⟨"a", 1⟩⟩)]]] := by decide
  refine ⟨_, hc, (hnew default [step] step _ hc).2, root, hroot, _, _, ha, .variable, rfl, hid,
    ?_, rfl⟩
  exact htable default [step] step root hroot _ _ ha .variable _ (mem_gather_append hc) hid

end Jal
