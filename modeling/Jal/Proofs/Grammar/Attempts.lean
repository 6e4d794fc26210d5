import Jal.Proofs.Grammar.Bounds

namespace Jal

/-- An attempt at a declaration: the variable and the cursor when it began, and where it ended. -/
structure Attempt where
  elseMayFollow : Bool
  start : Cursor
  stop : Cursor

/-- Where reading stands, with the variable and the attempts so far, the latest first. -/
structure Journal where
  cursor : Cursor
  elseMayFollow : Bool
  attempts : List Attempt

abbrev Journaled := EStateM ParseError Journal

namespace Journaled

variable {α β : Type}

def readWith (p : Bool → Parser α) : Journaled α := fun j =>
  match p j.elseMayFollow j.cursor with
  | .ok a c => .ok a { j with cursor := c }
  | .error e c => .error e { j with cursor := c }

def read (p : Parser α) : Journaled α := readWith fun _ => p

/-- Runs `q` with another value of the variable, which is put back however `q` ends. -/
def allowing (elseMayFollow : Bool) (q : Journaled α) : Journaled α := fun j =>
  match q { j with elseMayFollow } with
  | .ok a j' => .ok a { j' with elseMayFollow := j.elseMayFollow }
  | .error e j' => .error e { j' with elseMayFollow := j.elseMayFollow }

/-- Attempts a declaration and writes that down; after an error reading goes on behind it. -/
def attempt (q : Journaled α) : Journaled (Option α) := fun j =>
  match q j with
  | .ok a j' =>
    .ok (some a) { j' with attempts := ⟨j.elseMayFollow, j.cursor, j'.cursor⟩ :: j'.attempts }
  | .error e j' =>
    let c := j.cursor.synchronize (j'.cursor.withError e)
    .ok none { j' with cursor := c, attempts := ⟨j.elseMayFollow, j.cursor, c⟩ :: j'.attempts }

structure Readers where
  declaration : Journaled Stmt
  plain : Journaled Stmt

open Jal.Parser

def blockItems (readers : Readers) : Nat → Journaled (List Stmt)
  | 0 => read exhausted
  | n + 1 => do
    read skipEols
    let c ← read get
    if c.nextIs (TokenKind.isSymbol .rightBrace) || c.atEnd then return []
    let slot ← attempt readers.declaration
    let others ← blockItems readers n
    return slot.toList ++ others

def block (bound : Nat) (readers : Readers) : Journaled (List Stmt) :=
  allowing false do
    let body ← blockItems readers bound
    let _ ← read (expectSymbol .rightBrace "'\x7d' after block")
    return body

def ifStatement (bound : Nat) (readers : Readers) : Journaled Stmt := do
  let test ← read (expression bound)
  let _ ← read (expectKeyword .thenKw "'then' after if condition")
  read acceptEol
  let consequence ← allowing true readers.plain
  if ← read (acceptKeyword .elseKw) then
    read acceptEol
    let alternative ← readers.plain
    return .ifThen test consequence (some alternative)
  else return .ifThen test consequence none

def whileStatement (bound : Nat) (readers : Readers) : Journaled Stmt := do
  let test ← read (expression bound)
  let _ ← read (expectKeyword .doKw "'do' after while condition")
  read acceptEol
  return .whileDo test (← readers.plain)

def timesStatement (bound line : Nat) (readers : Readers) : Journaled Stmt := do
  let count ← read (expression bound)
  let _ ← read (expectKeyword .timesKw "'times' after repeat count")
  read acceptEol
  return .times line count (← readers.plain)

def forStatement (bound : Nat) (readers : Readers) : Journaled Stmt := do
  let _ ← read (expectSymbol .leftParen "'(' after 'for'")
  let init ← read (forInit bound)
  let test ← read (expressionUnless bound .semicolon)
  let _ ← read (expectSymbol .semicolon "';' after loop condition")
  let update ← read (expressionUnless bound .rightParen)
  let _ ← read (expectSymbol .rightParen "')' after for clauses")
  read acceptEol
  return forLoop init test update (← readers.plain)

def routine (bound : Nat) (readers : Readers) : Journaled (Routine Stmt) := do
  let routineName ← read (name "function name")
  let _ ← read (expectSymbol .leftParen "'(' after function name")
  let params ← read (itemsUpTo bound .rightParen (name "parameter name"))
  let _ ← read (expectSymbol .rightParen "')' after parameters")
  let _ ← read (expectSymbol .leftBrace "'\x7b' before function body")
  let body ← block bound readers
  readWith terminator
  return ⟨routineName, params, body⟩

def methods (bound : Nat) (readers : Readers) : Nat → Journaled (List (Routine Stmt))
  | 0 => read exhausted
  | n + 1 => do
    read skipEols
    let c ← read get
    if c.nextIs (TokenKind.isSymbol .rightBrace) || c.atEnd then return []
    let _ ← read (expectKeyword .defKw "'def' in class body")
    let first ← routine bound readers
    let others ← methods bound readers n
    return first :: others

def classDeclaration (bound : Nat) (readers : Readers) : Journaled Stmt := do
  let className ← read (name "class name")
  let parent ← read superclass
  let _ ← read (expectSymbol .leftBrace "'\x7b' before class body")
  let members ← methods bound readers bound
  let _ ← read (expectSymbol .rightBrace "'\x7d' after class body")
  readWith terminator
  return .classDecl className parent members

def bodyStatement (bound : Nat) (readers : Readers) : Journaled Stmt := do
  let t ← read peek
  match t.kind with
  | .symbol .leftBrace =>
    let _ ← read next
    let body ← block bound readers
    readWith terminator
    return .block body
  | .keyword .ifKw =>
    let _ ← read next
    ifStatement bound readers
  | .keyword .elseKw => throw (.elseWithoutIf t.line)
  | .keyword .whileKw =>
    let _ ← read next
    whileStatement bound readers
  | .keyword .doKw =>
    let _ ← read next
    timesStatement bound t.line readers
  | .keyword .forKw =>
    let _ ← read next
    forStatement bound readers
  | .keyword .breakKw =>
    let _ ← read next
    readWith terminator
    return .breakLoop t.line
  | .keyword .returnKw =>
    let _ ← read next
    readWith (returnStatement bound t.line)
  | _ =>
    let e ← read (expression bound)
    readWith terminator
    return .expr e

def declaration (bound : Nat) (readers : Readers) : Journaled Stmt := do
  if ← read (acceptKeyword .letKw) then
    let s ← read (letClause bound)
    readWith terminator
    return s
  if ← read (acceptKeyword .defKw) then return .define (← routine bound readers)
  if ← read (acceptKeyword .classKw) then return ← classDeclaration bound readers
  bodyStatement bound readers

def readers : Nat → Readers
  | 0 => ⟨read exhausted, read exhausted⟩
  | n + 1 => ⟨declaration (n + 1) (readers n), bodyStatement (n + 1) (readers n)⟩

def slots (bound : Nat) : Nat → Journaled (List (Option Stmt))
  | 0 => return []
  | n + 1 => do
    read skipEols
    if (← read get).atEnd then return []
    let slot ← attempt (readers bound).declaration
    let others ← slots bound n
    return slot :: others

/-- Reads a token list. At first no `else` may follow. -/
def run (firstId : Nat) (tokens : List Token) :
    EStateM.Result ParseError Journal (List (Option Stmt)) :=
  let c := Cursor.start firstId tokens
  let bound := c.rest.length + 1
  slots bound bound ⟨c, false, []⟩

end Journaled

structure Attempt.Between (a : Attempt) (c c' : Cursor) : Prop where
  elseMayFollow : a.elseMayFollow = false
  progress : a.start.rest ≠ [] → a.stop.rest.length < a.start.rest.length
  before : c.Advances a.start
  during : a.start.Advances a.stop
  after : a.stop.Advances c'

theorem Attempt.Between.widen {a : Attempt} {c d d' c' : Cursor} (h : a.Between d d')
    (hd : c.Advances d) (hd' : d'.Advances c') : a.Between c c' :=
  ⟨h.elseMayFollow, h.progress, hd.trans h.before, h.during, h.after.trans hd'⟩

namespace Journaled

variable {α β : Type}

def outcome (elseMayFollow : Bool) (attempts : List Attempt) :
    EStateM.Result ParseError Cursor α → EStateM.Result ParseError Journal α
  | .ok a c => .ok a ⟨c, elseMayFollow, attempts⟩
  | .error e c => .error e ⟨c, elseMayFollow, attempts⟩

/-- Begun with this value of the variable, `q` does what `p` does and leaves the value as it was;
the attempts it makes are on the way. -/
structure Follows (elseMayFollow : Bool) (q : Journaled α) (p : Parser α) : Prop where
  advancing : Parser.Advancing p
  run : ∀ c log, ∃ made : List Attempt, (∀ a ∈ made, a.Between c (p.final c)) ∧
    q ⟨c, elseMayFollow, log⟩ = outcome elseMayFollow (made ++ log) (p c)

section Steps

variable {f : Bool} {q : Journaled α} {p : Parser α}

theorem follows_readWith {p : Bool → Parser α} (hp : Parser.Advancing (p f)) :
    Follows f (readWith p) (p f) := by
  refine ⟨hp, fun c log => ⟨[], List.forall_mem_nil _, ?_⟩⟩
  unfold readWith
  cases p f c <;> rfl

theorem follows_read (hp : Parser.Advancing p) : Follows f (read p) p :=
  follows_readWith hp

theorem follows_pure (a : α) : Follows f (pure a) (pure a) :=
  ⟨Parser.advancing_pure a, fun _ _ => ⟨[], List.forall_mem_nil _, rfl⟩⟩

theorem follows_throw (e : ParseError) :
    Follows f (throw e : Journaled α) (throw e : Parser α) :=
  ⟨Parser.advancing_throw e, fun _ _ => ⟨[], List.forall_mem_nil _, rfl⟩⟩

theorem follows_bind {q' : α → Journaled β} {p' : α → Parser β} (h : Follows f q p)
    (h' : ∀ a, Follows f (q' a) (p' a)) : Follows f (q >>= q') (p >>= p') := by
  refine ⟨Parser.advancing_bind h.advancing fun a => (h' a).advancing, fun c log => ?_⟩
  obtain ⟨made, hmade, hq⟩ := h.run c log
  cases hp : p c with
  | ok a d =>
    have hd := h.advancing.of_ok hp
    obtain ⟨made', hmade', hq'⟩ := (h' a).run d (made ++ log)
    have hf : (p >>= p').final c = (p' a).final d := by
      simp only [Parser.final, bind, EStateM.bind, hp]
    have hm : p.final c = d := by simp only [Parser.final, hp]
    refine ⟨made' ++ made, fun b hb => ?_, ?_⟩
    · rw [hf]
      rcases List.mem_append.1 hb with hb | hb
      · exact (hmade' b hb).widen hd (.refl _)
      · exact (hm ▸ hmade b hb).widen (.refl _) ((h' a).advancing d)
    · rw [hp] at hq
      simp only [bind, EStateM.bind, hq, hp, outcome]
      rw [hq', List.append_assoc]
      rfl
  | error e d =>
    have hf : (p >>= p').final c = p.final c := by
      simp only [Parser.final, bind, EStateM.bind, hp]
    refine ⟨made, fun b hb => hf ▸ hmade b hb, ?_⟩
    rw [hp] at hq
    simp only [bind, EStateM.bind, hq, hp, outcome]

theorem follows_ite {P : Prop} [Decidable P] {q' : Journaled α} {p' : Parser α}
    (h : Follows f q p) (h' : Follows f q' p') :
    Follows f (if P then q else q') (if P then p else p') := by
  by_cases hP : P
  · rwa [if_pos hP, if_pos hP]
  · rwa [if_neg hP, if_neg hP]

theorem follows_allowing {g : Bool} (h : Follows g q p) : Follows f (allowing g q) p := by
  refine ⟨h.advancing, fun c log => ?_⟩
  obtain ⟨made, hmade, hq⟩ := h.run c log
  refine ⟨made, hmade, ?_⟩
  unfold allowing
  dsimp only
  rw [hq]
  cases p c <;> rfl

/-- A declaration is attempted only where no `else` may follow. -/
theorem follows_attempt (h : Follows false q p) (hp : Parser.Consuming p) :
    Follows false (attempt q) (Parser.recovering p) := by
  have ha := Parser.advancing_recovering h.advancing
  refine ⟨ha, fun c log => ?_⟩
  obtain ⟨made, hmade, hq⟩ := h.run c log
  obtain ⟨slot, d, hd⟩ := Parser.recovering_eq_ok p c
  have hf : (Parser.recovering p).final c = d := by simp only [Parser.final, hd]
  have hfirst : Attempt.Between ⟨false, c, d⟩ c d :=
    ⟨rfl, fun hne => Parser.length_lt_of_recovering h.advancing hp hne hd, .refl c,
      ha.of_ok hd, .refl d⟩
  rw [hf]
  cases hr : p c with
  | ok a e =>
    rw [Parser.recovering, hr] at hd
    cases hd
    refine ⟨_ :: made, List.forall_mem_cons.2 ⟨hfirst, fun b hb => ?_⟩, ?_⟩
    · have hb := hmade b hb
      rwa [Parser.final, hr] at hb
    · simp only [attempt, hq, hr, outcome, Parser.recovering, List.cons_append]
  | error err e =>
    rw [Parser.recovering, hr] at hd
    cases hd
    refine ⟨_ :: made, List.forall_mem_cons.2 ⟨hfirst, fun b hb => ?_⟩, ?_⟩
    · have hb := hmade b hb
      rw [Parser.final, hr] at hb
      exact hb.widen (.refl c) ((e.advances_withError err).trans (c.advances_synchronize _))
    · simp only [attempt, hq, hr, outcome, Parser.recovering, List.cons_append, Cursor.withError]

end Steps

section Grammar

open Jal.Parser

variable {bound k : Nat} {f : Bool} {rs : Readers} {item : Place → Parser Stmt}
  (hd : Follows false rs.declaration (item .declaration)) (hc : Consuming (item .declaration))
  (hp : ∀ f, Follows f rs.plain (item (.body f)))

include hd hc in
theorem follows_blockItems : Follows false (blockItems rs k) (Parser.blockItems item k) := by
  induction k with
  | zero => exact follows_read advancing_exhausted
  | succ k ih =>
    refine follows_bind (follows_read advancing_skipEols) fun _ => ?_
    refine follows_bind (follows_read advancing_get) fun c => ?_
    refine follows_ite (follows_pure _) ?_
    refine follows_bind (follows_attempt hd hc) fun slot => ?_
    exact follows_bind ih fun _ => follows_pure _

include hd hc in
theorem follows_block : Follows f (block bound rs) (Parser.block bound item) := by
  refine follows_allowing (follows_bind (follows_blockItems hd hc) fun _ => ?_)
  exact follows_bind (follows_read (advancing_expect _ _)) fun _ => follows_pure _

include hp in
theorem follows_ifStatement :
    Follows f (ifStatement bound rs) (Parser.ifStatement bound f item) := by
  refine follows_bind (follows_read (advancing_expression bound)) fun _ => ?_
  refine follows_bind (follows_read (advancing_expect _ _)) fun _ => ?_
  refine follows_bind (follows_read advancing_acceptEol) fun _ => ?_
  refine follows_bind (follows_allowing (hp true)) fun _ => ?_
  refine follows_bind (follows_read (advancing_accept _)) fun _ => follows_ite ?_ (follows_pure _)
  refine follows_bind (follows_read advancing_acceptEol) fun _ => ?_
  exact follows_bind (hp f) fun _ => follows_pure _

include hp in
theorem follows_whileStatement :
    Follows f (whileStatement bound rs) (Parser.whileStatement bound f item) := by
  refine follows_bind (follows_read (advancing_expression bound)) fun _ => ?_
  refine follows_bind (follows_read (advancing_expect _ _)) fun _ => ?_
  refine follows_bind (follows_read advancing_acceptEol) fun _ => ?_
  exact follows_bind (hp f) fun _ => follows_pure _

include hp in
theorem follows_timesStatement (line : Nat) :
    Follows f (timesStatement bound line rs) (Parser.timesStatement bound line f item) := by
  refine follows_bind (follows_read (advancing_expression bound)) fun _ => ?_
  refine follows_bind (follows_read (advancing_expect _ _)) fun _ => ?_
  refine follows_bind (follows_read advancing_acceptEol) fun _ => ?_
  exact follows_bind (hp f) fun _ => follows_pure _

include hp in
theorem follows_forStatement :
    Follows f (forStatement bound rs) (Parser.forStatement bound f item) := by
  refine follows_bind (follows_read (advancing_expect _ _)) fun _ => ?_
  refine follows_bind (follows_read (advancing_forInit bound)) fun _ => ?_
  refine follows_bind (follows_read (advancing_expressionUnless bound _)) fun _ => ?_
  refine follows_bind (follows_read (advancing_expect _ _)) fun _ => ?_
  refine follows_bind (follows_read (advancing_expressionUnless bound _)) fun _ => ?_
  refine follows_bind (follows_read (advancing_expect _ _)) fun _ => ?_
  refine follows_bind (follows_read advancing_acceptEol) fun _ => ?_
  exact follows_bind (hp f) fun _ => follows_pure _

theorem follows_terminator : Follows f (readWith terminator) (terminator f) :=
  follows_readWith (advancing_terminator f)

include hd hc in
theorem follows_routine : Follows false (routine bound rs) (Parser.routine bound item) := by
  refine follows_bind (follows_read (advancing_name _)) fun _ => ?_
  refine follows_bind (follows_read (advancing_expect _ _)) fun _ => ?_
  refine follows_bind (follows_read (advancing_itemsUpTo bound _ (advancing_name _))) fun _ => ?_
  refine follows_bind (follows_read (advancing_expect _ _)) fun _ => ?_
  refine follows_bind (follows_read (advancing_expect _ _)) fun _ => ?_
  refine follows_bind (follows_block hd hc) fun _ => ?_
  exact follows_bind follows_terminator fun _ => follows_pure _

include hd hc in
theorem follows_methods : Follows false (methods bound rs k) (Parser.methods bound item k) := by
  induction k with
  | zero => exact follows_read advancing_exhausted
  | succ k ih =>
    refine follows_bind (follows_read advancing_skipEols) fun _ => ?_
    refine follows_bind (follows_read advancing_get) fun c => ?_
    refine follows_ite (follows_pure _) ?_
    refine follows_bind (follows_read (advancing_expect _ _)) fun _ => ?_
    refine follows_bind (follows_routine hd hc) fun _ => ?_
    exact follows_bind ih fun _ => follows_pure _

include hd hc in
theorem follows_classDeclaration :
    Follows false (classDeclaration bound rs) (Parser.classDeclaration bound item) := by
  refine follows_bind (follows_read (advancing_name _)) fun _ => ?_
  refine follows_bind (follows_read advancing_superclass) fun _ => ?_
  refine follows_bind (follows_read (advancing_expect _ _)) fun _ => ?_
  refine follows_bind (follows_methods hd hc) fun _ => ?_
  refine follows_bind (follows_read (advancing_expect _ _)) fun _ => ?_
  exact follows_bind follows_terminator fun _ => follows_pure _

include hd hc hp in
theorem follows_bodyStatement :
    Follows f (bodyStatement bound rs) (Parser.bodyStatement bound f item) := by
  refine follows_bind (follows_read advancing_peek) fun t => ?_
  have next {q : Journaled Stmt} {p : Parser Stmt} (h : Follows f q p) :
      Follows f (do let _ ← read next; q) (do let _ ← next; p) :=
    follows_bind (follows_read advancing_next) fun _ => h
  generalize t.kind = kind
  split
  · refine next (follows_bind (follows_block hd hc) fun _ => ?_)
    exact follows_bind follows_terminator fun _ => follows_pure _
  · exact next (follows_ifStatement hp)
  · exact follows_throw _
  · exact next (follows_whileStatement hp)
  · exact next (follows_timesStatement hp _)
  · exact next (follows_forStatement hp)
  · exact next (follows_bind follows_terminator fun _ => follows_pure _)
  · exact next (follows_readWith (advancing_returnStatement _ _ _))
  · -- no other keyword: on the other side it is an expression too
    split
    case h_9 =>
      refine follows_bind (follows_read (advancing_expression bound)) fun _ => ?_
      exact follows_bind follows_terminator fun _ => follows_pure _
    all_goals contradiction

include hd hc hp in
theorem follows_declaration :
    Follows false (declaration bound rs) (Parser.declaration bound item) := by
  refine follows_bind (follows_read (advancing_accept _)) fun _ => follows_ite ?_ ?_
  · refine follows_bind (follows_read (advancing_letClause bound)) fun _ => ?_
    exact follows_bind follows_terminator fun _ => follows_pure _
  refine follows_bind (follows_read (advancing_accept _)) fun _ => follows_ite ?_ ?_
  · exact follows_bind (follows_routine hd hc) fun _ => follows_pure _
  refine follows_bind (follows_read (advancing_accept _)) fun _ => follows_ite ?_ ?_
  · exact follows_classDeclaration hd hc
  · exact follows_bodyStatement hd hc hp

end Grammar

theorem follows_readers (n : Nat) :
    Follows false (readers n).declaration (Parser.statement n .declaration) ∧
      ∀ f, Follows f (readers n).plain (Parser.statement n (.body f)) := by
  induction n with
  | zero =>
    exact ⟨follows_read Parser.advancing_exhausted,
      fun _ => follows_read Parser.advancing_exhausted⟩
  | succ n ih =>
    have hc := Parser.consuming_statement n .declaration
    exact ⟨follows_declaration ih.1 hc ih.2, fun _ => follows_bodyStatement ih.1 hc ih.2⟩

theorem follows_slots (bound k : Nat) : Follows false (slots bound k) (Parser.slots bound k) := by
  induction k with
  | zero => exact follows_pure _
  | succ k ih =>
    have hd := (follows_readers bound).1
    have hc := Parser.consuming_statement bound .declaration
    refine follows_bind (follows_read Parser.advancing_skipEols) fun _ => ?_
    refine follows_bind (follows_read Parser.advancing_get) fun c => ?_
    refine follows_ite (follows_pure _) ?_
    refine follows_bind (follows_attempt hd hc) fun slot => ?_
    exact follows_bind ih fun _ => follows_pure _

end Journaled

/-- Parsing ends at an `eof` without using up its bound. On the way, every attempt at a declaration,
at the top or in a block, begins where no `else` may follow and moves on if there is a token to
come; reading never goes back, and it keeps to the tokens before the first `eof`. -/
theorem parse_progresses (firstId : Nat) (tokens : List Token) :
    (∀ n c slot c', Parser.recovering (Parser.statement n .declaration) c = .ok slot c' →
      c.rest ≠ [] → c'.rest.length < c.rest.length) ∧
    (∀ n place, Parser.Advancing (Parser.statement n place)) ∧
    (∀ n, Parser.Advancing (Parser.expression n)) ∧
    ∃ found c attempts,
      Journaled.run firstId tokens = .ok found ⟨c, false, attempts⟩ ∧
      parse firstId tokens = ⟨found, c.errors.reverse, c.nextId⟩ ∧
      c.peek.kind = .eof ∧
      (∀ e ∈ c.errors, ¬ e.AtLimit) ∧
      ∀ a ∈ attempts, a.Between (Cursor.start firstId tokens) c ∧
        a.start.rest <:+ tokens.takeWhile fun t => !t.kind.isEof := by
  refine ⟨?_, Parser.advancing_statement, Parser.advancing_expression, ?_⟩
  · intro n c slot c' h hc
    have ha := Parser.advancing_statement n .declaration
    exact Parser.length_lt_of_recovering ha (Parser.consuming_statement n _) hc h
  · have hlt := Nat.lt_succ_self (Cursor.start firstId tokens).rest.length
    obtain ⟨found, c, hs, hend, hlimit⟩ := Parser.slots_ends hlt hlt
    obtain ⟨made, hmade, hrun⟩ :=
      (Journaled.follows_slots _ _).run (Cursor.start firstId tokens) []
    rw [hs, List.append_nil] at hrun
    refine ⟨found, c, made, hrun, ?_, ?_, ?_, ?_⟩
    · simp only [parse, hs]
    · rw [Cursor.peek, hend]
      rfl
    · -- at the start there is no error at all
      intro e he hl
      exact List.not_mem_nil (hlimit e he hl)
    · intro a ha
      have hb := hmade a ha
      rw [Parser.final, hs] at hb
      exact ⟨hb, hb.before.rest⟩

/-- A block that is not closed around an `else` of no `if`: the inner attempt fails and steps over
the `else`, the outer one fails at the end. -/
example :
    (match Journaled.run 0 [⟨.symbol .leftBrace, "\x7b", 1⟩, ⟨.keyword .elseKw, "else", 1⟩] with
      | .ok _ j => j.attempts.map fun a => (a.start.rest.length, a.stop.rest.length)
      | .error .. => []) = [(2, 0), (1, 0)] := by
  cbv

end Jal
