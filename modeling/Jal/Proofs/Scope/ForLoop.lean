import Jal.Grammar.Statement
import Jal.Proofs.Scope.Occurrences

namespace Jal

/-- The reference that is met denotes what the other event declares: that has its name, and it is in
the scope at the distance recorded or, where none is recorded, at the top level. -/
def Event.Denotes (depths : List (Nat × Nat)) (use decl : Event) : Prop :=
  ∃ ref, use.mark = .refers ref ∧ decl.mark = .declares ref.name.text ∧
    (depths.lookup ref.id).bind (use.scopes[·]?) = decl.scopes.head?

variable {depths : List (Nat × Nat)} {use decl : Event} {es : List Event} {addr : Address}
  {path : List ScopeAt} {scope : ScopeAt}

/-- A reference denotes nothing in a scope that is not around it. -/
theorem Event.Denotes.mem (h : use.Denotes depths decl) (hs : decl.scopes.head? = some scope) :
    scope ∈ use.scopes := by
  obtain ⟨ref, -, -, hd⟩ := h
  obtain ⟨d, -, hd⟩ := Option.bind_eq_some_iff.1 (hd.trans hs)
  exact List.mem_of_getElem? hd

theorem Apart.not_denotes (h : Apart addr es) (hs : decl.scopes.head? = some scope)
    (ha : addr <:+ scope.address) : ∀ use ∈ es, ¬ use.Denotes depths decl :=
  fun use hu hd => h use hu scope (hd.mem hs) ha

def Encloses (addr : Address) (es : List Event) : Prop :=
  ∀ e ∈ es, ∀ name, e.mark = .declares name →
    ∃ scope, e.scopes.head? = some scope ∧ addr <:+ scope.address

theorem Encloses.append {es' : List Event} (h : Encloses addr es) (h' : Encloses addr es') :
    Encloses addr (es ++ es') := List.forall_mem_append.2 ⟨h, h'⟩

theorem Encloses.up {i : Nat} (h : Encloses (i :: addr) es) : Encloses addr es := by
  intro e he name hm
  obtain ⟨scope, hs, ha⟩ := h e he name hm
  exact ⟨scope, hs, (List.suffix_cons i addr).trans ha⟩

theorem Encloses.inside (h : Encloses addr es) : Inside addr es := by
  rintro scope name ⟨outer, hm⟩
  obtain ⟨scope', hs, ha⟩ := h _ hm name rfl
  cases hs
  exact ha

theorem encloses_refersFrom (refs : List Reference) : Encloses addr (refersFrom path refs) := by
  intro e he name hm
  obtain ⟨ref, -, rfl⟩ := List.mem_map.1 he
  cases hm

theorem Beneath.encloses {k : ScopeKind} (h : Beneath addr (⟨k, addr⟩ :: path) es) :
    Encloses addr es := by
  intro e he name hm
  obtain ⟨inner, hs, hi⟩ := h e he
  rw [hs]
  cases inner with
  | nil => exact ⟨_, rfl, List.suffix_refl _⟩
  | cons first inner => exact ⟨first, rfl, hi first List.mem_cons_self⟩

/-- A statement that is no declaration declares nothing in the scopes around it. -/
theorem Stmt.encloses_events (addr : Address) (path : List ScopeAt) :
    (s : Stmt) → s.Proper → s.isDeclaration = false → Encloses addr (s.events addr path)
  | .expr _, _, _ | .returnWith _ _, _, _ => encloses_refersFrom _
  | .block body, _, _ => (Stmt.beneath_eventsOfAll 0 addr _ body).encloses
  | .breakLoop _, _, _ => fun _ he => absurd he List.not_mem_nil
  | .ifThen _ s none, hs, _ | .whileDo _ s, hs, _ | .times _ _ s, hs, _ =>
    .append (encloses_refersFrom _) (s.encloses_events (0 :: addr) path hs.2.2 hs.2.1).up
  | .ifThen _ s (some s'), hs, _ =>
    .append (.append (encloses_refersFrom _)
      (s.encloses_events (0 :: addr) path hs.2.2.1 hs.2.1).up)
      (s'.encloses_events (1 :: addr) path hs.2.2.2.2 hs.2.2.2.1).up

structure ForEvents where
  init : List Event
  test : List Event
  body : List Event
  update : List Event

namespace ForEvents

/-- The clauses that are run again and again, the update after the body. -/
def loop (met : ForEvents) : List Event := met.test ++ met.body ++ met.update

def all (met : ForEvents) : List Event := met.init ++ met.loop

/-- The scopes of the condition: those around the `for` and, if there is a first clause, one for the
whole loop. -/
def testScopes (addr : Address) (path : List ScopeAt) : Option Stmt → List ScopeAt
  | none => path
  | some _ => ⟨.block, addr⟩ :: path

def loopAddress (addr : Address) : Option Stmt → Address
  | none => addr
  | some _ => 1 :: addr

/-- The scopes of the body of the loop at the address. It shares one with the update, if there is an
update. -/
def bodyScopes (addr : Address) (path : List ScopeAt) : Option Expr → List ScopeAt
  | none => path
  | some _ => ⟨.block, 0 :: addr⟩ :: path

def bodyAddress (addr : Address) : Option Expr → Address
  | none => 0 :: addr
  | some _ => 0 :: 0 :: addr

def ofClauses (addr : Address) (path : List ScopeAt) (init : Option Stmt)
    (test update : Option Expr) (body : Stmt) : ForEvents where
  init := init.elim [] (Stmt.events (0 :: addr) (⟨.block, addr⟩ :: path))
  test := refersFrom (testScopes addr path init) (Expr.referencesOfOption test)
  body := body.events (bodyAddress (loopAddress addr init) update)
    (bodyScopes (loopAddress addr init) (testScopes addr path init) update)
  update := refersFrom (bodyScopes (loopAddress addr init) (testScopes addr path init) update)
    (Expr.referencesOfOption update)

variable {init : Option Stmt} {test update : Option Expr} {body : Stmt} {x : Name}
  {value : Option Expr}

/-- The loop without its first clause. -/
theorem events_loop (addr : Address) (path : List ScopeAt) (test update : Option Expr)
    (body : Stmt) :
    (Parser.forLoop none test update body).events addr path =
      (ofClauses addr path none test update body).loop := by
  have htest : (test.getD (.literal (.bool true))).references = Expr.referencesOfOption test := by
    cases test <;> rfl
  cases update with
  | none =>
    rw [Parser.forLoop, Stmt.events, htest]
    exact (List.append_nil _).symm
  | some e =>
    rw [Parser.forLoop, Stmt.events, htest, loop, List.append_assoc]
    simp only [Stmt.events, Stmt.eventsOfAll, List.append_nil]
    rfl

/-- With a first clause the loop is one scope further in. -/
theorem loop_ofClauses_some (addr : Address) (path : List ScopeAt) (s : Stmt)
    (test update : Option Expr) (body : Stmt) :
    (ofClauses addr path (some s) test update body).loop =
      (ofClauses (1 :: addr) (⟨.block, addr⟩ :: path) none test update body).loop := rfl

/-- In what is read for a `for` its clauses are met one after the other. -/
theorem events_forLoop (addr : Address) (path : List ScopeAt) (init : Option Stmt)
    (test update : Option Expr) (body : Stmt) :
    (Parser.forLoop init test update body).events addr path =
      (ofClauses addr path init test update body).all := by
  cases init with
  | none => exact events_loop addr path test update body
  | some s =>
    rw [all, loop_ofClauses_some, ← events_loop]
    simp only [Parser.forLoop, Stmt.events, Stmt.eventsOfAll, List.append_nil]
    rfl

theorem above_testScopes (h : Above addr path) (init : Option Stmt) :
    Above (loopAddress addr init) (testScopes addr path init) := by
  cases init with
  | none => exact h
  | some s => exact h.opens .block 1

theorem above_bodyScopes (h : Above addr path) (update : Option Expr) :
    Above (bodyAddress addr update) (bodyScopes addr path update) := by
  cases update with
  | none => exact h.down 0
  | some e => exact (h.down 0).opens .block 0

theorem above_bodyAddress (h : Above addr path) (update : Option Expr) :
    Above (bodyAddress addr update) path := by
  cases update with
  | none => exact h.down 0
  | some e => exact (h.down 0).down 0

theorem proper_body (h : (Parser.forLoop init test update body).Proper) : body.Proper := by
  have loop (h : (Parser.forLoop none test update body).Proper) : body.Proper := by
    cases update with
    | none => exact h.2.2
    | some e => exact h.2.2.1
  cases init with
  | none => exact loop h
  | some s => exact loop h.2.1

/-- The condition and the update are outside all scopes of the body. -/
theorem apart_clauses (h : Above addr path) (init : Option Stmt) (test update : Option Expr)
    (body : Stmt) :
    let met := ofClauses addr path init test update body
    Apart (bodyAddress (loopAddress addr init) update) (met.test ++ met.update) := by
  have ht := above_testScopes h init
  exact ((above_bodyAddress ht update).apart_refersFrom _).append
    ((above_bodyScopes ht update).apart_refersFrom _)

/-- All that is declared in the loop is declared in scopes of the body. -/
theorem encloses_loop (hp : body.Proper) (hd : body.isDeclaration = false) (addr : Address)
    (path : List ScopeAt) (init : Option Stmt) (test update : Option Expr) :
    Encloses (bodyAddress (loopAddress addr init) update)
      (ofClauses addr path init test update body).loop :=
  .append (.append (encloses_refersFrom _) (body.encloses_events _ _ hp hd)) (encloses_refersFrom _)

/-- No reference in the condition or in the update denotes a declaration in the body. -/
theorem not_denotes_body (h : Above addr path) (hp : body.Proper)
    (hd : body.isDeclaration = false) :
    let met := ofClauses addr path init test update body
    ∀ use ∈ met.test ++ met.update, ∀ decl ∈ met.body, ¬ use.Denotes depths decl := by
  rintro met use hu decl hm ⟨ref, href, hname, hden⟩
  obtain ⟨scope, hs, ha⟩ := body.encloses_events _ _ hp hd decl hm _ hname
  exact (apart_clauses h init test update body).not_denotes hs ha use hu ⟨ref, href, hname, hden⟩

/-- Around a reference in the condition or in the update nothing has been declared in the loop. -/
theorem exists_loop_eq (h : Above addr path) (hp : body.Proper)
    (hd : body.isDeclaration = false) :
    let met := ofClauses addr path init test update body
    ∀ use ∈ met.test ++ met.update, ∃ seen rest, met.loop = seen ++ use :: rest ∧
      ∀ scope ∈ use.scopes, ∀ name, ¬ Declares seen scope name := by
  intro met use hu
  have hm : use ∈ met.loop := by
    rcases List.mem_append.1 hu with hu | hu
    · exact List.mem_append_left _ (List.mem_append_left _ hu)
    · exact List.mem_append_right _ hu
  obtain ⟨seen, rest, hl⟩ := List.append_of_mem hm
  refine ⟨seen, rest, hl, fun scope hs name hdecl => ?_⟩
  have hloop : Declares met.loop scope name := by
    rw [hl]
    exact declares_append.2 (.inl hdecl)
  have ha := (encloses_loop hp hd addr path init test update).inside scope name hloop
  exact apart_clauses h init test update body use hu scope hs ha

theorem beneath_loop (addr : Address) (path : List ScopeAt) (s : Stmt) (test update : Option Expr)
    (body : Stmt) :
    Beneath (1 :: addr) (⟨.block, addr⟩ :: path)
      (ofClauses addr path (some s) test update body).loop := by
  rw [loop_ofClauses_some, ← events_loop]
  exact Stmt.beneath_events (1 :: addr) _ _

/-- What the scope of the loop declares is declared right in it. -/
theorem eq_of_head? {s : Stmt} {e : Event} {name : String}
    (he : e ∈ (ofClauses addr path (some s) test update body).all)
    (hs : e.scopes.head? = some ⟨.block, addr⟩) (hm : e.mark = .declares name) :
    e = ⟨⟨.block, addr⟩ :: path, .declares name⟩ := by
  have hscopes : e.scopes = ⟨.block, addr⟩ :: path := by
    rcases List.mem_append.1 he with he | he
    · exact (s.beneath_events (0 :: addr) _).scopes_eq he hs
    · exact (beneath_loop addr path s test update body).scopes_eq he hs
  cases e
  cases hscopes
  cases hm
  rfl

/-- Where no scope around a reference in the loop has declared the name of the variable since, the
nearest one that has declared it is the scope of the loop. -/
theorem nearest_init {before seen rest : List Event} {ref : Reference} {scopes : List ScopeAt}
    (hb : Apart addr before) :
    let met := ofClauses addr path (some (.letVar x value)) test update body
    met.loop = seen ++ ⟨scopes, .refers ref⟩ :: rest →
    (∀ scope ∈ scopes, ¬ Declares seen scope x.text) →
    ∃ d, scopes[d]? = some ⟨.block, addr⟩ ∧
      Nearest (before ++ (met.init ++ seen)) scopes x.text d := by
  intro met hl hd
  have hm : ⟨scopes, .refers ref⟩ ∈ met.loop := hl ▸ List.mem_append_right _ List.mem_cons_self
  obtain ⟨inner, hs, hi⟩ := beneath_loop addr path _ test update body _ hm
  obtain rfl : scopes = inner ++ ⟨.block, addr⟩ :: path := hs
  have hinit : Declares met.init ⟨.block, addr⟩ x.text :=
    declares_append.2 (.inl (declares_declaresIn.2 ⟨rfl, List.mem_cons_self⟩))
  refine ⟨inner.length, by simp, inner, _, path, rfl, rfl, ?_, fun closer hc hdecl => ?_⟩
  · exact declares_append.2 (.inr (declares_append.2 (.inl hinit)))
  · have hbelow := hi closer hc
    rcases declares_append.1 hdecl with ⟨outer, hm⟩ | hdecl
    · exact hb _ hm closer List.mem_cons_self ((List.suffix_cons 1 addr).trans hbelow)
    rcases declares_append.1 hdecl with hdecl | hdecl
    · rcases declares_append.1 hdecl with hdecl | hdecl
      · -- the variable belongs to the scope of the loop, and that is further out
        cases (declares_declaresIn.1 hdecl).1
        exact Nat.not_succ_le_self _ hbelow.length_le
      · exact not_declares_refersFrom _ hdecl
    · exact hd closer (List.mem_append_left _ hc) hdecl

end ForEvents

end Jal
