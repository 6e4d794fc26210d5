import Jal.Proofs.Grammar.NearestIf
import Jal.Proofs.Machine.ForLoop
import Jal.Proofs.Scope.ForLoop
import Jal.Proofs.Session.Identities

namespace Jal

/-- From the first cursor up to the second there is a `for` with these clauses. -/
inductive ReadsFor (init : Option Stmt) (test update : Option Expr) (body : Stmt) :
    Cursor → Cursor → Prop where
  | clauses {c d b b' d' c' : Cursor} {elseMayFollow : Bool}
      (hk : c.peek.kind = .keyword .forKw) (hl : c.advance.peek.kind = .symbol .leftParen)
      (hi : ReadsInit init c.advance.advance d) (ht : ReadsOption test d b)
      (hs : b.peek.kind = .symbol .semicolon) (hu : ReadsOption update b.advance b')
      (hr : b'.peek.kind = .symbol .rightParen) (hs' : b'.advance.Skips d')
      (hb : ReadsClause (.stmt (.body elseMayFollow) body) d' c') :
      ReadsFor init test update body c c'

/-- Where a `for` stands, nothing else is read. -/
theorem ReadsClause.exists_readsFor {c c' : Cursor} {place : Place} {s : Stmt}
    (h : ReadsClause (.stmt place s) c c') (hfor : c.peek.kind = .keyword .forKw) :
    ∃ init test update body, ReadsFor init test update body c c' ∧
      s = Parser.forLoop init test update body := by
  cases h with
  | forLoop hk hl hi ht hs hu hr hs' hb =>
    exact ⟨_, _, _, _, .clauses hk hl hi ht hs hu hr hs' hb, rfl⟩
  | expr he ht =>
    have hstart := he.startsWith.1
    rw [hfor] at hstart
    cases hstart
  | letVar hk | block hk | ifThen hk | ifElse hk | whileDo hk | times hk | breakLoop hk
  | returnWith hk | define hk | classDecl hk =>
    rw [hfor] at hk
    cases hk

/-- The body of a `for` is no declaration. -/
theorem ReadsFor.isDeclaration_body {init : Option Stmt} {test update : Option Expr} {body : Stmt}
    {c c' : Cursor} (h : ReadsFor init test update body c c') : body.isDeclaration = false := by
  cases h with
  | clauses hk hl hi ht hs hu hr hs' hb => exact hb.nests.isDeclaration

/-- Among all that a checked program declares the reference denotes this and nothing else. -/
def Checked.Resolves (checked : Checked) (use decl : Event) : Prop :=
  decl ∈ events checked.program ∧
    ∀ other ∈ events checked.program, use.Denotes checked.depths other ↔ other = decl

theorem lookup_depths {program : Program} {depths : List (Nat × Nat)} {before after : List Event}
    {scopes : List ScopeAt} {ref : Reference} {d : Nat} (hids : (Stmt.idsOfAll program).Nodup)
    (h : resolve program = .ok depths)
    (he : events program = before ++ ⟨scopes, .refers ref⟩ :: after)
    (hn : Nearest before scopes ref.name.text d) : depths.lookup ref.id = some d := by
  have hm : (ref.id, d) ∈ depths := by
    rw [(resolve_eq_ok h).1]
    exact ((records_events program).entries ref.id d).2 ⟨before, scopes, ref, after, he, rfl, hn⟩
  have hk : (depths.map Prod.fst).Nodup := (keys_of_resolve h).nodup hids
  obtain ⟨entries, entries', rfl⟩ := List.append_of_mem hm
  refine List.lookup_eq_some_iff.2 ⟨entries, entries', rfl, fun entry hentry => ?_⟩
  rw [List.map_append, List.nodup_append] at hk
  exact bne_iff_ne.2 fun heq =>
    hk.2.2 _ (List.mem_map_of_mem hentry) _ List.mem_cons_self heq.symm

section Occurrence

variable {checked : Checked} {addr : Address} {path : List ScopeAt} {test update : Option Expr}
  {body : Stmt} {x : Name} {value : Option Expr} {before after : List Event}

/-- A reference inside the loop to the name of its variable denotes it, where no scope around the
reference has declared the name since. -/
theorem ForEvents.resolves_init (hids : (Stmt.idsOfAll checked.program).Nodup)
    (hr : resolve checked.program = .ok checked.depths) (hb : Apart addr before)
    (ha : Apart addr after) {seen rest : List Event} {ref : Reference} {scopes : List ScopeAt}
    (hx : ref.name.text = x.text) :
    let met := ForEvents.ofClauses addr path (some (.letVar x value)) test update body
    events checked.program = before ++ met.all ++ after →
    met.loop = seen ++ ⟨scopes, .refers ref⟩ :: rest →
    (∀ scope ∈ scopes, ¬ Declares seen scope x.text) →
    checked.Resolves ⟨scopes, .refers ref⟩ ⟨⟨.block, addr⟩ :: path, .declares x.text⟩ := by
  intro met he hl hd
  obtain ⟨d, hscope, hn⟩ := ForEvents.nearest_init hb hl hd
  have hsplit : events checked.program =
      before ++ (met.init ++ seen) ++ ⟨scopes, .refers ref⟩ :: (rest ++ after) := by
    rw [he, ForEvents.all, hl]
    simp only [List.append_assoc, List.cons_append]
  have htarget : (checked.depths.lookup ref.id).bind (scopes[·]?) = some ⟨.block, addr⟩ := by
    rw [lookup_depths hids hr hsplit (hx ▸ hn)]
    exact hscope
  refine ⟨?_, fun other ho => ⟨?_, ?_⟩⟩
  · rw [hsplit]
    simp [met, ForEvents.ofClauses, Stmt.events, declaresIn]
  · rintro ⟨_, ⟨⟩, hname, hother⟩
    have hs := hother.symm.trans htarget
    have hout {es : List Event} (h : Apart addr es) : other ∉ es := fun hm =>
      h other hm _ (List.mem_of_mem_head? hs) (List.suffix_refl _)
    rw [he] at ho
    rcases List.mem_append.1 ho with ho | ho
    · rcases List.mem_append.1 ho with ho | ho
      · exact absurd ho (hout hb)
      · exact ForEvents.eq_of_head? ho hs (hname.trans (congrArg _ hx))
    · exact absurd ho (hout ha)
  · rintro rfl
    exact ⟨ref, rfl, congrArg _ hx.symm, htarget⟩

end Occurrence

/-- A statement that is read where a `for` stands is made from its clauses, and the body is no
declaration. It ends just as the loop that the clauses describe: in the same way, with the same heap
and the same output.

In a checked program, no reference in the condition or in the update of a `for` denotes a
declaration in its body. Where the first clause declares a variable, references to its name in the
condition and in the update denote just that, and so do those in the body around which the body has
not declared the name again. No reference outside the loop denotes it. -/
theorem for_loops_faithful :
    (∀ (n : Nat) (place : Place) (c c' : Cursor) (s : Stmt), c.peek.kind = .keyword .forKw →
      Parser.statement n place c = .ok s c' →
      ∃ init test update body, ReadsFor init test update body c c' ∧
        s = Parser.forLoop init test update body ∧ body.isDeclaration = false ∧
        ∀ (m : Machine) (r : EStateM.Result Stop Machine Flow), Run.Ended r →
          ((∃ k, Run.exec k s m = r) ↔
            ∃ k turns, Run.forDirect k turns init test update body m = r)) ∧
    ∀ (firstId : Nat) (source : String) (checked : Checked),
      (check firstId source).1 = .ok checked →
      ∀ (init : Option Stmt) (test update : Option Expr) (body : Stmt) (addr : Address)
        (path : List ScopeAt), body.isDeclaration = false →
      Occurs checked.program ⟨Parser.forLoop init test update body, addr, path⟩ →
      let met := ForEvents.ofClauses addr path init test update body
      ∃ before after, events checked.program = before ++ met.all ++ after ∧
        (∀ use ∈ met.test ++ met.update, ∀ decl ∈ met.body,
          ¬ use.Denotes checked.depths decl) ∧
        ∀ (x : Name) (value : Option Expr), init = some (.letVar x value) →
          let decl : Event := ⟨⟨.block, addr⟩ :: path, .declares x.text⟩
          (∀ scopes ref, ⟨scopes, .refers ref⟩ ∈ met.test ++ met.update →
            ref.name.text = x.text → checked.Resolves ⟨scopes, .refers ref⟩ decl) ∧
          (∀ seen scopes ref rest, met.body = seen ++ ⟨scopes, .refers ref⟩ :: rest →
            ref.name.text = x.text → (∀ scope ∈ scopes, ¬ Declares seen scope x.text) →
            checked.Resolves ⟨scopes, .refers ref⟩ decl) ∧
          ∀ use ∈ before ++ after, ¬ use.Denotes checked.depths decl := by
  refine ⟨fun n place c c' s hfor h => ?_, ?_⟩
  · obtain ⟨init, test, update, body, hread, rfl⟩ :=
      (Parser.statement_reads h).exists_readsFor hfor
    exact ⟨init, test, update, body, hread, rfl, hread.isDeclaration_body,
      fun m r hr => Run.ends_forLoop_iff hr⟩
  · intro firstId source checked hc init test update body addr path hbody hoccurs met
    obtain ⟨hprogram, hr⟩ := check_eq_ok hc
    have hids : (Stmt.idsOfAll checked.program).Nodup := by
      rw [hprogram]
      exact (Parsed.ids_between firstId (scan source).tokens).nodup
    have hproper : Stmt.AllProper checked.program := by
      rw [hprogram]
      exact Parsed.proper_of_scan firstId source
    have hstands := hoccurs.stands hproper
    have habove : Above addr path := hstands.above
    have hp : body.Proper := ForEvents.proper_body hstands.proper
    obtain ⟨before, after, he, hb, ha⟩ : Isolates addr (events checked.program) met.all := by
      rw [← ForEvents.events_forLoop]
      exact hstands.isolates
    refine ⟨before, after, he, ForEvents.not_denotes_body habove hp hbody, ?_⟩
    rintro x value rfl decl
    refine ⟨fun scopes ref hu hx => ?_, fun seen scopes ref rest hl hx hd => ?_, ?_⟩
    · obtain ⟨seen, rest, hl, hd⟩ := ForEvents.exists_loop_eq habove hp hbody _ hu
      exact ForEvents.resolves_init hids hr hb ha hx he hl fun scope hs => hd scope hs _
    · have hloop : met.loop =
          (met.test ++ seen) ++ ⟨scopes, .refers ref⟩ :: (rest ++ met.update) := by
        rw [ForEvents.loop, hl]
        simp only [List.append_assoc, List.cons_append]
      refine ForEvents.resolves_init hids hr hb ha hx he hloop fun scope hs hdecl => ?_
      -- the condition declares nothing
      exact (declares_append.1 hdecl).elim (not_declares_refersFrom _) (hd scope hs)
    · exact (hb.append ha).not_denotes rfl (List.suffix_refl _)

namespace Run

variable {m m' m₁ : Machine} {n : Nat}

theorem execAll_of_normal {s : Stmt} {rest : List Stmt} (h : exec n s m = .ok .normal m') :
    execAll (n + 1) (s :: rest) m = execAll n rest m' := bind_of_ok h

theorem exec_expr_of_ok {e : Expr} {v : Value} (h : eval n e m = .ok v m') :
    exec (n + 1) (.expr e) m = .ok .normal m' := bind_of_ok h

theorem exec_block_of_ok {body : List Stmt} {flow : Flow}
    (h : execAll n body { m with
      heap := (m.heap.newFrame [] (some m.frame)).2, frame := m.nextFrame } = .ok flow m') :
    exec (n + 1) (.block body) m = .ok flow { m' with frame := m.frame } := by
  have hscope : newScope m = .ok m.nextFrame
      { m with heap := (m.heap.newFrame [] (some m.frame)).2 } := rfl
  rw [exec, bind_of_ok hscope]
  simp only [inFrame, h]

theorem exec_whileDo_of_ok {test : Expr} {body : Stmt} {flow : Flow}
    (h : repeatWhile n m.nextLoop test body m.enterLoop = .ok flow m') :
    exec (n + 1) (.whileDo test body) m = .ok flow m'.leaveLoop := by
  simp only [exec, inLoop, h]

theorem repeatWhile_of_normal {loop : Nat} {test : Expr} {body : Stmt} {v : Value}
    (ht : eval n test m = .ok v m₁) (hv : v.truthy = true) (hb : exec n body m₁ = .ok .normal m') :
    repeatWhile (n + 1) loop test body m = repeatWhile n loop test body m' := by
  rw [repeatWhile, bind_of_ok ht, if_pos hv, bind_of_ok hb]

theorem repeatWhile_of_falsy {loop : Nat} {test : Expr} {body : Stmt} {v : Value}
    (ht : eval n test m = .ok v m₁) (hv : v.truthy = false) :
    repeatWhile (n + 1) loop test body m = .ok .normal m₁ := by
  rw [repeatWhile, bind_of_ok ht, hv]
  rfl

theorem lookUp_of_depth {id d : Nat} {name : Name} {v : Value} (h : m.depths[id]? = some d)
    (hv : (m.heap.ancestor? m.frame d).bind (m.heap.get? · name.text) = some v) :
    lookUp id name m = .ok v m := by
  simp only [lookUp, frameOf, h, hv]

theorem assign_of_depth (ref : Reference) {d : Nat} {f : FrameId} {v : Value}
    (h : m.depths[ref.id]? = some d) (hf : m.heap.ancestor? m.frame d = some f)
    (hv : m.heap.has f ref.name.text = true) :
    assign ref v m = .ok v { m with heap := m.heap.define f ref.name.text v } := by
  simp only [assign, frameOf, h, hf, Option.filter_some, hv, if_true]

/-- `for (let i; !i; i = true) { print(i); let i; i }` makes one turn. -/
theorem exec_forLoop_once {depths : Std.HashMap Nat Nat} (h₀ : depths[0]? = some 0)
    (h₁ : depths[1]? = some 1) (h₂ : depths[2]? = none) (h₃ : depths[3]? = some 2)
    (h₄ : depths[4]? = some 0) :
    let i (id : Nat) : Reference := ⟨id, ⟨"i", 1⟩⟩
    let test : Expr := .unary .not 1 (.variable (i 0))
    let update : Expr := .assign (i 1) (.literal (.bool true))
    let print : Expr := .call (.variable ⟨2, ⟨"print", 1⟩⟩) 1 [.variable (i 3)]
    let body : Stmt := .block [.expr print, .letVar ⟨"i", 1⟩ none, .expr (.variable (i 4))]
    ∃ m', exec 20 (Parser.forLoop (some (.letVar ⟨"i", 1⟩ none)) (some test) (some update) body)
        { Machine.start default with depths } = .ok .normal m' ∧
      m'.console.written = #["none"] := by
  intro i test update print body
  let m : Machine := { Machine.start default with depths }
  -- in the frame of the loop, whose variable has no value yet
  let m₁ : Machine := { m with
    heap := (m.heap.newFrame [("i", .none)] (some ⟨0⟩)).2, frame := ⟨1⟩,
    loops := [0], nextLoop := 1 }
  have htest : eval 15 test m₁ = .ok (.bool true) m₁ := by
    have hi : eval 14 (.variable (i 0)) m₁ = .ok .none m₁ := lookUp_of_depth h₀ rfl
    rw [eval, bind_of_ok hi]
    rfl
  -- in the block of the body, before and after the name is declared there
  let m₂ : Machine := { m₁ with
    heap := ((m₁.heap.newFrame [] (some ⟨1⟩)).2.newFrame [] (some ⟨2⟩)).2, frame := ⟨3⟩ }
  let m₃ : Machine := { m₂ with
    heap := m₂.heap.define ⟨3⟩ "i" .none, console := (m₂.console.write "none").2 }
  have hprint : exec 11 (.expr print) m₂ =
      .ok .normal { m₂ with console := (m₂.console.write "none").2 } := by
    have hi : eval 8 (.variable (i 3)) m₂ = .ok .none m₂ := lookUp_of_depth h₃ rfl
    have hshown : m₂.heap.render .none = "none" := by
      rw [Heap.render, Heap.renderIn]
    refine exec_expr_of_ok (v := .none) ?_
    rw [eval_print h₂ rfl hi, hshown]
    rfl
  have hinner : execAll 12 [.expr print, .letVar ⟨"i", 1⟩ none, .expr (.variable (i 4))] m₂ =
      .ok .normal m₃ := by
    have hi : eval 8 (.variable (i 4)) m₃ = .ok .none m₃ := lookUp_of_depth h₄ rfl
    have hlast : execAll 10 [.expr (.variable (i 4))] m₃ = .ok .normal m₃ :=
      (execAll_of_normal (exec_expr_of_ok hi)).trans rfl
    rw [execAll_of_normal hprint]
    exact hlast
  have hbody : exec 13 body
      { m₁ with heap := (m₁.heap.newFrame [] (some ⟨1⟩)).2, frame := ⟨2⟩ } =
        .ok .normal { m₃ with frame := ⟨2⟩ } := exec_block_of_ok hinner
  -- the update, in the frame of the turn
  have hupdate : eval 11 update { m₃ with frame := ⟨2⟩ } = .ok (.bool true)
      { m₃ with heap := m₃.heap.define ⟨1⟩ "i" (.bool true), frame := ⟨2⟩ } :=
    assign_of_depth (i 1) h₁ rfl rfl
  have hparts : execAll 14 [body, .expr update]
      { m₁ with heap := (m₁.heap.newFrame [] (some ⟨1⟩)).2, frame := ⟨2⟩ } = .ok .normal
        { m₃ with heap := m₃.heap.define ⟨1⟩ "i" (.bool true), frame := ⟨2⟩ } :=
    (execAll_of_normal hbody).trans ((execAll_of_normal (exec_expr_of_ok hupdate)).trans rfl)
  let m₄ : Machine := { m₃ with heap := m₃.heap.define ⟨1⟩ "i" (.bool true), frame := ⟨1⟩ }
  have hturn : exec 15 (.block [body, .expr update]) m₁ = .ok .normal m₄ := exec_block_of_ok hparts
  have hfails : eval 14 test m₄ = .ok (.bool false) m₄ := by
    have hi : eval 13 (.variable (i 0)) m₄ = .ok (.bool true) m₄ := lookUp_of_depth h₀ rfl
    rw [eval, bind_of_ok hi]
    rfl
  have hloop : repeatWhile 16 0 test (.block [body, .expr update]) m₁ = .ok .normal m₄ :=
    (repeatWhile_of_normal htest rfl hturn).trans (repeatWhile_of_falsy hfails rfl)
  have hwhile : exec 17 (.whileDo test (.block [body, .expr update]))
      { m₁ with loops := [], nextLoop := 0 } = .ok .normal m₄.leaveLoop := exec_whileDo_of_ok hloop
  have hall : execAll 19 [.letVar ⟨"i", 1⟩ none, .whileDo test (.block [body, .expr update])]
      { m with heap := (m.heap.newFrame [] (some m.frame)).2, frame := ⟨1⟩ } =
        .ok .normal m₄.leaveLoop :=
    (execAll_of_normal rfl).trans ((execAll_of_normal hwhile).trans rfl)
  exact ⟨_, exec_block_of_ok hall, rfl⟩

end Run

/-- The body of this loop declares the name of its variable once more, in a block of its own: the
references in the condition and in the update, and the one before that declaration, denote the
variable of the loop. The loop makes one turn, in which the body prints that variable and the update
ends the loop. -/
theorem for_loops_faithful_shadowed :
    let source := "for(let i;!i;i=true)\x7bprint(i);let i;i\x7d"
    let i (id : Nat) : Reference := ⟨id, ⟨"i", 1⟩⟩
    let loop : ScopeAt := ⟨.block, [0]⟩
    let turn : ScopeAt := ⟨.block, [0, 1, 0]⟩
    let inner : ScopeAt := ⟨.block, [0, 0, 1, 0]⟩
    let decl : Event := ⟨[loop], .declares "i"⟩
    ∃ checked, (check 0 source).1 = .ok checked ∧
      (∃ s c' init test update body,
        Parser.statement 20 .declaration (Cursor.start 0 (scan source).tokens) = .ok s c' ∧
        ReadsFor init test update body (Cursor.start 0 (scan source).tokens) c' ∧
        ∃ k turns m', Run.forDirect k turns init test update body
            ((Machine.start default).addDepths checked.depths) = .ok .normal m' ∧
          m'.console.written = #["none"]) ∧
      ¬ Event.Denotes checked.depths ⟨[turn, loop], .refers (i 1)⟩
        ⟨[inner, turn, loop], .declares "i"⟩ ∧
      checked.Resolves ⟨[loop], .refers (i 0)⟩ decl ∧
      checked.Resolves ⟨[turn, loop], .refers (i 1)⟩ decl ∧
      checked.Resolves ⟨[inner, turn, loop], .refers (i 3)⟩ decl := by
  intro source i loop turn inner decl
  let test : Expr := .unary .not 1 (.variable (i 0))
  let update : Expr := .assign (i 1) (.literal (.bool true))
  let body : Stmt :=
    .block [.expr (.call (.variable ⟨2, ⟨"print", 1⟩⟩) 1 [.variable (i 3)]),
      .letVar ⟨"i", 1⟩ none, .expr (.variable (i 4))]
  let s : Stmt := Parser.forLoop (some (.letVar ⟨"i", 1⟩ none)) (some test) (some update) body
  have hc : (check 0 "for(let i;!i;i=true)\x7bprint(i);let i;i\x7d").1 =
      .ok ⟨[s], [(0, 0), (3, 2), (4, 0), (1, 1)]⟩ := by
    with_unfolding_all rfl
  obtain ⟨hrun, hscopes⟩ := for_loops_faithful
  refine ⟨_, hc, ?_, ?_⟩
  · have hs : ∃ c', Parser.statement 20 .declaration (Cursor.start 0
        (scan "for(let i;!i;i=true)\x7bprint(i);let i;i\x7d").tokens) = .ok s c' :=
      ⟨_, by with_unfolding_all rfl⟩
    obtain ⟨c', hs⟩ := hs
    have hfor : (Cursor.start 0
        (scan "for(let i;!i;i=true)\x7bprint(i);let i;i\x7d").tokens).peek.kind =
          .keyword .forKw := by
      with_unfolding_all rfl
    obtain ⟨init, test, update, body, hread, -, -, hends⟩ := hrun _ _ _ _ _ hfor hs
    let m := (Machine.start default).addDepths [(0, 0), (3, 2), (4, 0), (1, 1)]
    have hd (id : Nat) : m.depths[id]? = [(0, 0), (3, 2), (4, 0), (1, 1)].lookup id :=
      getElem?_insertMany_of_new (by decide) (by simp [Machine.start])
    obtain ⟨m', hexec, hwritten⟩ := Run.exec_forLoop_once (hd 0) (hd 1) (hd 2) (hd 3) (hd 4)
    obtain ⟨k, turns, hk⟩ := (hends _ _ fun m h => by cases h).1 ⟨20, hexec⟩
    exact ⟨s, c', init, test, update, body, hs, hread, k, turns, m', hk, hwritten⟩
  · obtain ⟨before, after, -, hbody, hinit⟩ :=
      hscopes 0 source _ hc _ (some test) (some update) body [0] [] rfl ⟨0, s, rfl, .refl⟩
    obtain ⟨hclauses, hinner, -⟩ := hinit ⟨"i", 1⟩ none rfl
    refine ⟨hbody _ ?_ _ ?_, hclauses _ _ ?_ rfl, hclauses _ _ ?_ rfl,
      hinner [⟨[inner, turn, loop], .refers ⟨2, ⟨"print", 1⟩⟩⟩] _ _ _ rfl rfl ?_⟩
    · decide
    · decide
    · decide
    · decide
    · rintro scope - ⟨outer, hm⟩
      simp at hm

end Jal
