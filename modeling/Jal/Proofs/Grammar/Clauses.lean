import Mathlib.Data.List.TakeWhile
import Jal.Proofs.Grammar.Advances

namespace Jal

namespace Cursor

/-- From `c` up to `c'` there are only ends of lines and of statements. -/
structure Skips (c c' : Cursor) : Prop where
  rest : ∃ ts, c.rest = ts ++ c'.rest ∧ ∀ t ∈ ts, t.kind = .eol ∨ t.kind = .symbol .semicolon
  errors : c'.errors = c.errors
  nextId : c'.nextId = c.nextId

theorem Skips.refl (c : Cursor) : c.Skips c := ⟨⟨[], rfl, nofun⟩, rfl, rfl⟩

theorem Skips.trans {c d d' : Cursor} (h : c.Skips d) (h' : d.Skips d') : c.Skips d' := by
  obtain ⟨ts, hts, hk⟩ := h.rest
  obtain ⟨ts', hts', hk'⟩ := h'.rest
  refine ⟨⟨ts ++ ts', by rw [hts, hts', List.append_assoc], ?_⟩, h'.errors.trans h.errors,
    h'.nextId.trans h.nextId⟩
  intro t ht
  exact (List.mem_append.1 ht).elim (hk t) (hk' t)

theorem skips_advance {c : Cursor} (h : c.peek.kind = .eol ∨ c.peek.kind = .symbol .semicolon) :
    c.Skips c.advance := by
  have hne : c.peek.kind ≠ .eof := by
    rcases h with h | h <;> simp [h]
  refine ⟨⟨[c.peek], rest_eq_of_peek hne, ?_⟩, errors_advance c, nextId_advance c⟩
  intro t ht
  rwa [List.mem_singleton.1 ht]

theorem skips_skipEols (c : Cursor) : c.Skips c.skipEols := by
  refine ⟨⟨c.rest.takeWhile (·.kind.isEol), ?_, ?_⟩, rfl, rfl⟩
  · simp only [skipEols, List.span_eq_takeWhile_dropWhile, List.takeWhile_append_dropWhile]
  · intro t ht
    have hk := List.mem_takeWhile_imp ht
    exact .inl (TokenKind.isEol_iff.1 hk)

theorem Skips.advances {c c' : Cursor} (h : c.Skips c') : c.Advances c' := by
  obtain ⟨ts, hts, -⟩ := h.rest
  exact ⟨⟨ts, hts.symm⟩, h.errors.symm ▸ List.suffix_refl _, Nat.le_of_eq h.nextId.symm⟩

end Cursor

inductive ReadsLet : Stmt → Cursor → Cursor → Prop where
  | bare {c : Cursor} (hn : c.peek.kind = .ident) :
      ReadsLet (.letVar c.nextName none) c c.advance
  | init {c d : Cursor} {e : Expr} (hn : c.peek.kind = .ident)
      (ha : c.advance.peek.kind = .symbol .assign) (he : Reads (.expr 0 e) c.advance.advance d) :
      ReadsLet (.letVar c.nextName (some e)) c d

inductive ReadsOption : Option Expr → Cursor → Cursor → Prop where
  | none {c : Cursor} : ReadsOption none c c
  | some {c d : Cursor} {e : Expr} (he : Reads (.expr 0 e) c d) : ReadsOption (some e) c d

inductive ReadsInit : Option Stmt → Cursor → Cursor → Prop where
  | none {c : Cursor} (hs : c.peek.kind = .symbol .semicolon) : ReadsInit none c c.advance
  | letVar {c d : Cursor} {s : Stmt} (hk : c.peek.kind = .keyword .letKw)
      (hl : ReadsLet s c.advance d) (hs : d.peek.kind = .symbol .semicolon) :
      ReadsInit (some s) c d.advance
  | expr {c d : Cursor} {e : Expr} (he : Reads (.expr 0 e) c d)
      (hs : d.peek.kind = .symbol .semicolon) : ReadsInit (some (.expr e)) c d.advance

inductive ReadsNames : List Name → Cursor → Cursor → Prop where
  | none {c : Cursor} : ReadsNames [] c c
  | one {c : Cursor} (hn : c.peek.kind = .ident) : ReadsNames [c.nextName] c c.advance
  | more {c d : Cursor} {names : List Name} (hn : c.peek.kind = .ident)
      (hc : c.advance.peek.kind = .symbol .comma) (hs : ReadsNames names c.advance.advance d) :
      ReadsNames (c.nextName :: names) c d

inductive ReadsSuperclass : Option Reference → Cursor → Cursor → Prop where
  | none {c : Cursor} : ReadsSuperclass none c c
  | some {c : Cursor} (hk : c.peek.kind = .keyword .inheritsKw)
      (hn : c.advance.peek.kind = .ident) :
      ReadsSuperclass (some ⟨c.nextId, c.advance.nextName⟩) c c.advance.advance.nextFresh

/-- What the grammar of statements speaks of: a statement in its place, the declarations of a
block or of a program, a routine after its `def`, and the methods of a class. -/
inductive Clause where
  | stmt (place : Place) (s : Stmt)
  | items (ss : List Stmt)
  | routine (r : Routine Stmt)
  | methods (rs : List (Routine Stmt))

open Cursor in
inductive ReadsClause : Clause → Cursor → Cursor → Prop where
  | expr {c d c' : Cursor} {place : Place} {e : Expr} (he : Reads (.expr 0 e) c d)
      (ht : d.Skips c') : ReadsClause (.stmt place (.expr e)) c c'
  | letVar {c d c' : Cursor} {s : Stmt} (hk : c.peek.kind = .keyword .letKw)
      (hs : ReadsLet s c.advance d) (ht : d.Skips c') :
      ReadsClause (.stmt .declaration s) c c'
  | block {c d c' : Cursor} {place : Place} {body : List Stmt}
      (hl : c.peek.kind = .symbol .leftBrace) (hb : ReadsClause (.items body) c.advance d)
      (hr : d.peek.kind = .symbol .rightBrace) (ht : d.advance.Skips c') :
      ReadsClause (.stmt place (.block body)) c c'
  -- without an `else` only where none stands: it belongs to the nearest `if`
  | ifThen {c d d' c' : Cursor} {place : Place} {test : Expr} {consequence : Stmt}
      (hk : c.peek.kind = .keyword .ifKw) (ht : Reads (.expr 0 test) c.advance d)
      (hd : d.peek.kind = .keyword .thenKw) (hs : d.advance.Skips d')
      (hc : ReadsClause (.stmt (.body true) consequence) d' c')
      (hn : c'.peek.kind ≠ .keyword .elseKw) :
      ReadsClause (.stmt place (.ifThen test consequence none)) c c'
  | ifElse {c d d' b b' c' : Cursor} {place : Place} {f : Bool} {test : Expr}
      {consequence alternative : Stmt} (hk : c.peek.kind = .keyword .ifKw)
      (ht : Reads (.expr 0 test) c.advance d) (hd : d.peek.kind = .keyword .thenKw)
      (hs : d.advance.Skips d') (hc : ReadsClause (.stmt (.body true) consequence) d' b)
      (hn : b.peek.kind = .keyword .elseKw) (hs' : b.advance.Skips b')
      (ha : ReadsClause (.stmt (.body f) alternative) b' c') :
      ReadsClause (.stmt place (.ifThen test consequence (some alternative))) c c'
  | whileDo {c d d' c' : Cursor} {place : Place} {f : Bool} {test : Expr} {body : Stmt}
      (hk : c.peek.kind = .keyword .whileKw) (ht : Reads (.expr 0 test) c.advance d)
      (hd : d.peek.kind = .keyword .doKw) (hs : d.advance.Skips d')
      (hb : ReadsClause (.stmt (.body f) body) d' c') :
      ReadsClause (.stmt place (.whileDo test body)) c c'
  | times {c d d' c' : Cursor} {place : Place} {f : Bool} {count : Expr} {body : Stmt}
      (hk : c.peek.kind = .keyword .doKw) (ht : Reads (.expr 0 count) c.advance d)
      (hd : d.peek.kind = .keyword .timesKw) (hs : d.advance.Skips d')
      (hb : ReadsClause (.stmt (.body f) body) d' c') :
      ReadsClause (.stmt place (.times c.peek.line count body)) c c'
  -- there are no `for` loops in a program: they are read as loops with `while`
  | forLoop {c d b b' d' c' : Cursor} {place : Place} {f : Bool} {init : Option Stmt}
      {test update : Option Expr} {body : Stmt} (hk : c.peek.kind = .keyword .forKw)
      (hl : c.advance.peek.kind = .symbol .leftParen)
      (hi : ReadsInit init c.advance.advance d) (ht : ReadsOption test d b)
      (hs : b.peek.kind = .symbol .semicolon) (hu : ReadsOption update b.advance b')
      (hr : b'.peek.kind = .symbol .rightParen) (hs' : b'.advance.Skips d')
      (hb : ReadsClause (.stmt (.body f) body) d' c') :
      ReadsClause (.stmt place (Parser.forLoop init test update body)) c c'
  | breakLoop {c c' : Cursor} {place : Place} (hk : c.peek.kind = .keyword .breakKw)
      (ht : c.advance.Skips c') : ReadsClause (.stmt place (.breakLoop c.peek.line)) c c'
  | returnWith {c d c' : Cursor} {place : Place} {value : Option Expr}
      (hk : c.peek.kind = .keyword .returnKw) (hv : ReadsOption value c.advance d)
      (ht : d.Skips c') : ReadsClause (.stmt place (.returnWith c.peek.line value)) c c'
  | define {c c' : Cursor} {r : Routine Stmt} (hk : c.peek.kind = .keyword .defKw)
      (hr : ReadsClause (.routine r) c.advance c') :
      ReadsClause (.stmt .declaration (.define r)) c c'
  | classDecl {c d d' c' : Cursor} {superclass : Option Reference}
      {rs : List (Routine Stmt)} (hk : c.peek.kind = .keyword .classKw)
      (hn : c.advance.peek.kind = .ident) (hs : ReadsSuperclass superclass c.advance.advance d)
      (hl : d.peek.kind = .symbol .leftBrace) (hm : ReadsClause (.methods rs) d.advance d')
      (hr : d'.peek.kind = .symbol .rightBrace) (ht : d'.advance.Skips c') :
      ReadsClause (.stmt .declaration (.classDecl c.advance.nextName superclass rs)) c c'
  | noItems {c c' : Cursor} (hs : c.Skips c') : ReadsClause (.items []) c c'
  | item {c d d' c' : Cursor} {s : Stmt} {rest : List Stmt} (hs : c.Skips d)
      (hi : ReadsClause (.stmt .declaration s) d d') (hr : ReadsClause (.items rest) d' c') :
      ReadsClause (.items (s :: rest)) c c'
  /-- A declaration that could not be read is reported and leaves nothing. -/
  | failed {c d d' c' : Cursor} {rest : List Stmt} (hs : c.Skips d) (ha : d.Advances d')
      (he : d.errors.length < d'.errors.length) (hr : ReadsClause (.items rest) d' c') :
      ReadsClause (.items rest) c c'
  | routine {c d d' c' : Cursor} {params : List Name} {body : List Stmt}
      (hn : c.peek.kind = .ident) (hl : c.advance.peek.kind = .symbol .leftParen)
      (hp : ReadsNames params c.advance.advance d) (hr : d.peek.kind = .symbol .rightParen)
      (hb : d.advance.peek.kind = .symbol .leftBrace)
      (hbody : ReadsClause (.items body) d.advance.advance d')
      (he : d'.peek.kind = .symbol .rightBrace) (ht : d'.advance.Skips c') :
      ReadsClause (.routine ⟨c.nextName, params, body⟩) c c'
  | noMethods {c c' : Cursor} (hs : c.Skips c') : ReadsClause (.methods []) c c'
  | method {c d d' c' : Cursor} {r : Routine Stmt} {rest : List (Routine Stmt)} (hs : c.Skips d)
      (hk : d.peek.kind = .keyword .defKw) (hm : ReadsClause (.routine r) d.advance d')
      (hr : ReadsClause (.methods rest) d' c') : ReadsClause (.methods (r :: rest)) c c'

namespace Parser

open Cursor

variable {c c' : Cursor} {bound : Nat} {elseMayFollow : Bool}

theorem accept_eq_ok {p : TokenKind → Bool} {b : Bool} :
    accept p c = .ok b c' ↔
      p c.peek.kind = true ∧ b = true ∧ c' = c.advance ∨
        p c.peek.kind = false ∧ b = false ∧ c' = c := by
  rw [accept_apply]
  cases p c.peek.kind with
  | true =>
    simp only [if_true, EStateM.Result.ok.injEq, Bool.true_eq_false, false_and, or_false, true_and]
    exact ⟨fun h => ⟨h.1.symm, h.2.symm⟩, fun h => ⟨h.1.symm, h.2.symm⟩⟩
  | false =>
    simp only [Bool.false_eq_true, if_false, EStateM.Result.ok.injEq, false_and, false_or, true_and]
    exact ⟨fun h => ⟨h.1.symm, h.2.symm⟩, fun h => ⟨h.1.symm, h.2.symm⟩⟩

theorem expectKeyword_eq_ok {k : Keyword} {what : String} {t : Token} :
    expectKeyword k what c = .ok t c' ↔ c.peek.kind = .keyword k ∧ t = c.peek ∧ c' = c.advance := by
  rw [expectKeyword, expect_eq_ok, TokenKind.isKeyword_iff]

theorem acceptEol_skips (h : acceptEol c = .ok () c') : c.Skips c' := by
  simp only [acceptEol, bind_eq_ok, accept_eq_ok, pure_eq_ok] at h
  obtain ⟨_, _, ⟨hk, -, rfl⟩ | ⟨-, -, rfl⟩, -, rfl⟩ := h
  · exact skips_advance (.inl (TokenKind.isEol_iff.1 hk))
  · exact .refl _

theorem get_eq_ok {d : Cursor} : (get : Parser Cursor) c = .ok d c' ↔ d = c ∧ c' = c := by
  constructor
  · rintro ⟨⟩
    exact ⟨rfl, rfl⟩
  · rintro ⟨rfl, rfl⟩
    rfl

theorem skipEols_eq_ok {u : Unit} : skipEols c = .ok u c' ↔ c' = c.skipEols := by
  constructor
  · rintro ⟨⟩
    rfl
  · rintro rfl
    rfl

theorem recovering_eq_some {α : Type} {p : Parser α} {a : α} :
    recovering p c = .ok (some a) c' ↔ p c = .ok a c' := by
  unfold recovering
  cases h : p c with
  | ok b d => simp
  | error e d => simp

theorem terminator_skips (h : terminator elseMayFollow c = .ok () c') : c.Skips c' := by
  simp only [terminator, acceptSymbol, bind_eq_ok, accept_eq_ok] at h
  -- the end of a line, a semicolon, or something that ends the statement without being used up
  obtain ⟨_, _, ⟨hk, rfl, rfl⟩ | ⟨-, rfl, rfl⟩, h⟩ := h
  · simp only [if_true, pure_eq_ok] at h
    rw [h.2]
    exact skips_advance (.inl (TokenKind.isEol_iff.1 hk))
  · simp only [Bool.false_eq_true, if_false, bind_eq_ok, accept_eq_ok] at h
    obtain ⟨_, _, ⟨hk, rfl, rfl⟩ | ⟨-, rfl, rfl⟩, h⟩ := h
    · simp only [if_true, bind_eq_ok, pure_eq_ok] at h
      obtain ⟨_, _, he, -, rfl⟩ := h
      exact (skips_advance (.inr (TokenKind.isSymbol_iff.1 hk))).trans (acceptEol_skips he)
    · simp only [Bool.false_eq_true, if_false, bind_eq_ok, get_eq_ok] at h
      obtain ⟨_, _, ⟨rfl, rfl⟩, h⟩ := h
      split at h
      · rw [pure_eq_ok] at h
        rw [h.2]
        exact .refl _
      · cases h

theorem letClause_reads {s : Stmt} (h : letClause bound c = .ok s c') : ReadsLet s c c' := by
  simp only [letClause, acceptSymbol, bind_eq_ok, name_eq_ok, accept_eq_ok] at h
  obtain ⟨_, _, ⟨hn, rfl, rfl⟩, _, _, ⟨hk, rfl, rfl⟩ | ⟨-, rfl, rfl⟩, h⟩ := h
  · simp only [if_true, bind_eq_ok, pure_eq_ok] at h
    obtain ⟨e, d, he, rfl, rfl⟩ := h
    exact .init hn (TokenKind.isSymbol_iff.1 hk) (expression_reads _ _ _ _ he)
  · simp only [Bool.false_eq_true, if_false, pure_eq_ok] at h
    obtain ⟨rfl, rfl⟩ := h
    exact .bare hn

theorem map_eq_ok {α β : Type} {p : Parser α} {f : α → β} {b : β} :
    (f <$> p) c = .ok b c' ↔ ∃ a, p c = .ok a c' ∧ b = f a := by
  simp only [Functor.map, EStateM.map]
  cases h : p c with
  | ok a d =>
    constructor
    · rintro ⟨⟩
      exact ⟨a, rfl, rfl⟩
    · rintro ⟨a', ⟨⟩, rfl⟩
      rfl
  | error e d => simp

theorem forInit_reads {init : Option Stmt} (h : forInit bound c = .ok init c') :
    ReadsInit init c c' := by
  simp only [forInit, acceptSymbol, acceptKeyword, bind_eq_ok, accept_eq_ok] at h
  obtain ⟨_, _, ⟨hk, rfl, rfl⟩ | ⟨-, rfl, rfl⟩, h⟩ := h
  · simp only [if_true, pure_eq_ok] at h
    obtain ⟨rfl, rfl⟩ := h
    -- the semicolon stands first: there is no such clause
    exact .none (TokenKind.isSymbol_iff.1 hk)
  · simp only [Bool.false_eq_true, if_false, bind_eq_ok, accept_eq_ok] at h
    obtain ⟨_, _, ⟨hk, rfl, rfl⟩ | ⟨-, rfl, rfl⟩, h⟩ := h
    · simp only [if_true, bind_eq_ok, expectSymbol_eq_ok, pure_eq_ok] at h
      obtain ⟨s, d, hs, _, _, ⟨hd, rfl, rfl⟩, rfl, rfl⟩ := h
      exact .letVar (TokenKind.isKeyword_iff.1 hk) (letClause_reads hs) hd
    · simp only [Bool.false_eq_true, if_false, bind_eq_ok, map_eq_ok, expectSymbol_eq_ok,
        pure_eq_ok] at h
      obtain ⟨s, d, ⟨e, he, rfl⟩, _, _, ⟨hd, rfl, rfl⟩, rfl, rfl⟩ := h
      exact .expr (expression_reads _ _ _ _ he) hd

theorem expressionUnless_reads {stop : Symbol} {e : Option Expr}
    (h : expressionUnless bound stop c = .ok e c') : ReadsOption e c c' := by
  simp only [expressionUnless, checkSymbol, bind_eq_ok, check_apply] at h
  obtain ⟨_, _, ⟨⟩, h⟩ := h
  split at h
  · rw [pure_eq_ok] at h
    obtain ⟨rfl, rfl⟩ := h
    exact .none
  · simp only [bind_eq_ok, pure_eq_ok] at h
    obtain ⟨e, d, he, rfl, rfl⟩ := h
    exact .some (expression_reads _ _ _ _ he)

theorem names_reads {what : String} {n : Nat} {names : List Name}
    (h : commaSeparated (name what) n c = .ok names c') : ReadsNames names c c' := by
  induction n generalizing c names with
  | zero => exact absurd h not_exhausted
  | succ n ih =>
    simp only [commaSeparated, acceptSymbol, bind_eq_ok, name_eq_ok, accept_eq_ok] at h
    obtain ⟨_, _, ⟨hn, rfl, rfl⟩, _, _, ⟨hk, rfl, rfl⟩ | ⟨-, rfl, rfl⟩, h⟩ := h
    · simp only [if_true, bind_eq_ok, pure_eq_ok] at h
      obtain ⟨others, d, ho, rfl, rfl⟩ := h
      exact .more hn (TokenKind.isSymbol_iff.1 hk) (ih ho)
    · simp only [Bool.false_eq_true, if_false, pure_eq_ok] at h
      obtain ⟨rfl, rfl⟩ := h
      exact .one hn

theorem params_reads {what : String} {stop : Symbol} {params : List Name}
    (h : itemsUpTo bound stop (name what) c = .ok params c') : ReadsNames params c c' := by
  simp only [itemsUpTo, checkSymbol, bind_eq_ok, check_apply] at h
  obtain ⟨_, _, ⟨⟩, h⟩ := h
  split at h
  · rw [pure_eq_ok] at h
    obtain ⟨rfl, rfl⟩ := h
    exact .none
  · exact names_reads h

theorem superclass_reads {parent : Option Reference} (h : superclass c = .ok parent c') :
    ReadsSuperclass parent c c' := by
  simp only [superclass, acceptKeyword, bind_eq_ok, accept_eq_ok] at h
  obtain ⟨_, _, ⟨hk, rfl, rfl⟩ | ⟨-, rfl, rfl⟩, h⟩ := h
  · simp only [if_true, bind_eq_ok, name_eq_ok, freshId_apply, pure_eq_ok] at h
    obtain ⟨_, _, ⟨hn, rfl, rfl⟩, _, _, ⟨⟩, rfl, rfl⟩ := h
    rw [nextId_advance, nextId_advance]
    exact .some (TokenKind.isKeyword_iff.1 hk) hn
  · simp only [Bool.false_eq_true, if_false, pure_eq_ok] at h
    obtain ⟨rfl, rfl⟩ := h
    exact .none

section Items

variable {item : Place → Parser Stmt}
  (hi : ∀ place c s c', item place c = .ok s c' → ReadsClause (.stmt place s) c c')
  (ha : ∀ place, Advancing (item place))

include hi ha

theorem blockItems_reads {n : Nat} {body : List Stmt} (h : blockItems item n c = .ok body c') :
    ReadsClause (.items body) c c' := by
  induction n generalizing c body with
  | zero => exact absurd h not_exhausted
  | succ n ih =>
    simp only [blockItems, bind_eq_ok, skipEols_eq_ok, get_eq_ok] at h
    obtain ⟨_, _, rfl, _, _, ⟨rfl, rfl⟩, h⟩ := h
    split at h
    · rw [pure_eq_ok] at h
      obtain ⟨rfl, rfl⟩ := h
      exact .noItems (skips_skipEols c)
    · simp only [bind_eq_ok, pure_eq_ok] at h
      obtain ⟨slot, d, hs, others, d', ho, rfl, rfl⟩ := h
      cases slot with
      | some s => exact .item (skips_skipEols c) (hi _ _ _ _ (recovering_eq_some.1 hs)) (ih ho)
      | none =>
        -- all that is known of the tokens that were skipped is that reading went on
        obtain ⟨had, he⟩ := advances_of_recovering (ha _) hs
        exact .failed (skips_skipEols c) had he (ih ho)

theorem block_reads {body : List Stmt} (h : block bound item c = .ok body c') :
    ∃ d, ReadsClause (.items body) c d ∧ d.peek.kind = .symbol .rightBrace ∧ c' = d.advance := by
  simp only [block, bind_eq_ok, expectSymbol_eq_ok, pure_eq_ok] at h
  obtain ⟨_, d, hb, _, _, ⟨hr, rfl, rfl⟩, rfl, rfl⟩ := h
  exact ⟨d, blockItems_reads hi ha hb, hr, rfl⟩

theorem routine_reads {r : Routine Stmt} (h : routine bound item c = .ok r c') :
    ReadsClause (.routine r) c c' := by
  simp only [routine, bind_eq_ok, name_eq_ok, expectSymbol_eq_ok, pure_eq_ok] at h
  obtain ⟨_, _, ⟨hn, rfl, rfl⟩, _, _, ⟨hl, rfl, rfl⟩, params, d, hp, _, _, ⟨hr, rfl, rfl⟩, _, _,
    ⟨hb, rfl, rfl⟩, body, d', hbody, _, _, ht, rfl, rfl⟩ := h
  obtain ⟨b, hitems, he, rfl⟩ := block_reads hi ha hbody
  exact .routine hn hl (params_reads hp) hr hb hitems he (terminator_skips ht)

theorem methods_reads {n : Nat} {rs : List (Routine Stmt)}
    (h : methods bound item n c = .ok rs c') : ReadsClause (.methods rs) c c' := by
  induction n generalizing c rs with
  | zero => exact absurd h not_exhausted
  | succ n ih =>
    simp only [methods, bind_eq_ok, skipEols_eq_ok, get_eq_ok] at h
    obtain ⟨_, _, rfl, _, _, ⟨rfl, rfl⟩, h⟩ := h
    split at h
    · rw [pure_eq_ok] at h
      obtain ⟨rfl, rfl⟩ := h
      exact .noMethods (skips_skipEols c)
    · simp only [bind_eq_ok, expectKeyword_eq_ok, pure_eq_ok] at h
      obtain ⟨_, _, ⟨hk, rfl, rfl⟩, r, d, hr, others, d', ho, rfl, rfl⟩ := h
      exact .method (skips_skipEols c) hk (routine_reads hi ha hr) (ih ho)

omit ha in
theorem ifStatement_reads (hk : c.peek.kind = .keyword .ifKw) {s : Stmt}
    (h : ifStatement bound elseMayFollow item c.advance = .ok s c') (place : Place) :
    ReadsClause (.stmt place s) c c' := by
  simp only [ifStatement, acceptKeyword, bind_eq_ok, expectKeyword_eq_ok, accept_eq_ok] at h
  obtain ⟨test, d, ht, _, _, ⟨hd, rfl, rfl⟩, _, d', hs, consequence, b, hc, _, _,
    ⟨hn, rfl, rfl⟩ | ⟨hn, rfl, rfl⟩, h⟩ := h
  · simp only [if_true, bind_eq_ok, pure_eq_ok] at h
    obtain ⟨_, b', hs', alternative, _, halt, rfl, rfl⟩ := h
    exact .ifElse hk (expression_reads _ _ _ _ ht) hd (acceptEol_skips hs) (hi _ _ _ _ hc)
      (TokenKind.isKeyword_iff.1 hn) (acceptEol_skips hs') (hi _ _ _ _ halt)
  · simp only [Bool.false_eq_true, if_false, pure_eq_ok] at h
    obtain ⟨rfl, rfl⟩ := h
    refine .ifThen hk (expression_reads _ _ _ _ ht) hd (acceptEol_skips hs) (hi _ _ _ _ hc) ?_
    exact fun hk => Bool.false_ne_true (hn.symm.trans (TokenKind.isKeyword_iff.2 hk))

omit ha in
theorem forStatement_reads (hk : c.peek.kind = .keyword .forKw) {s : Stmt}
    (h : forStatement bound elseMayFollow item c.advance = .ok s c') (place : Place) :
    ReadsClause (.stmt place s) c c' := by
  simp only [forStatement, bind_eq_ok, expectSymbol_eq_ok, pure_eq_ok] at h
  obtain ⟨_, _, ⟨hl, rfl, rfl⟩, init, d, hinit, test, b, ht, _, _, ⟨hs, rfl, rfl⟩, update, b', hu,
    _, _, ⟨hr, rfl, rfl⟩, _, d', hs', body, _, hb, rfl, rfl⟩ := h
  exact .forLoop hk hl (forInit_reads hinit) (expressionUnless_reads ht) hs
    (expressionUnless_reads hu) hr (acceptEol_skips hs') (hi _ _ _ _ hb)

omit hi ha in
theorem returnStatement_reads (hk : c.peek.kind = .keyword .returnKw) {s : Stmt}
    (h : returnStatement bound c.peek.line elseMayFollow c.advance = .ok s c') (place : Place) :
    ReadsClause (.stmt place s) c c' := by
  simp only [returnStatement, bind_eq_ok, get_eq_ok] at h
  obtain ⟨_, _, ⟨rfl, rfl⟩, h⟩ := h
  split at h
  · simp only [bind_eq_ok, pure_eq_ok] at h
    obtain ⟨_, _, ht, rfl, rfl⟩ := h
    exact .returnWith hk .none (terminator_skips ht)
  · simp only [bind_eq_ok, pure_eq_ok] at h
    obtain ⟨value, d, hv, _, _, ht, rfl, rfl⟩ := h
    exact .returnWith hk (.some (expression_reads _ _ _ _ hv)) (terminator_skips ht)

theorem bodyStatement_reads {s : Stmt}
    (h : bodyStatement bound elseMayFollow item c = .ok s c') (place : Place) :
    ReadsClause (.stmt place s) c c' := by
  simp only [bodyStatement, bind_eq_ok, peek_apply] at h
  obtain ⟨_, _, ⟨⟩, h⟩ := h
  generalize hk : c.peek.kind = kind at h
  split at h
  case h_2 => exact absurd h nofun
  all_goals simp only [bind_eq_ok, next_apply, pure_eq_ok] at h
  -- by the keyword that stands first; without one it is a block or an expression
  · obtain ⟨_, _, ⟨⟩, h⟩ := h
    exact ifStatement_reads hi hk h place
  · obtain ⟨_, _, ⟨⟩, h⟩ := h
    simp only [whileStatement, bind_eq_ok, expectKeyword_eq_ok, pure_eq_ok] at h
    obtain ⟨test, d, ht, _, _, ⟨hd, rfl, rfl⟩, _, d', hs, body, _, hb, rfl, rfl⟩ := h
    exact .whileDo hk (expression_reads _ _ _ _ ht) hd (acceptEol_skips hs) (hi _ _ _ _ hb)
  · obtain ⟨_, _, ⟨⟩, h⟩ := h
    simp only [timesStatement, bind_eq_ok, expectKeyword_eq_ok, pure_eq_ok] at h
    obtain ⟨count, d, ht, _, _, ⟨hd, rfl, rfl⟩, _, d', hs, body, _, hb, rfl, rfl⟩ := h
    exact .times hk (expression_reads _ _ _ _ ht) hd (acceptEol_skips hs) (hi _ _ _ _ hb)
  · obtain ⟨_, _, ⟨⟩, h⟩ := h
    exact forStatement_reads hi hk h place
  · obtain ⟨_, _, ⟨⟩, _, _, ht, rfl, rfl⟩ := h
    exact .breakLoop hk (terminator_skips ht)
  · obtain ⟨_, _, ⟨⟩, h⟩ := h
    exact returnStatement_reads hk h place
  · obtain ⟨_, _, ⟨⟩, body, d, hb, _, _, ht, rfl, rfl⟩ := h
    obtain ⟨b, hitems, hr, rfl⟩ := block_reads hi ha hb
    exact .block hk hitems hr (terminator_skips ht)
  · obtain ⟨e, d, he, _, _, ht, rfl, rfl⟩ := h
    exact .expr (expression_reads _ _ _ _ he) (terminator_skips ht)

theorem classDeclaration_reads (hk : c.peek.kind = .keyword .classKw) {s : Stmt}
    (h : classDeclaration bound item c.advance = .ok s c') :
    ReadsClause (.stmt .declaration s) c c' := by
  simp only [classDeclaration, bind_eq_ok, name_eq_ok, expectSymbol_eq_ok, pure_eq_ok] at h
  obtain ⟨_, _, ⟨hn, rfl, rfl⟩, parent, d, hp, _, _, ⟨hl, rfl, rfl⟩, rs, d', hm, _, _,
    ⟨hr, rfl, rfl⟩, _, _, ht, rfl, rfl⟩ := h
  exact .classDecl hk hn (superclass_reads hp) hl (methods_reads hi ha hm) hr (terminator_skips ht)

theorem declaration_reads {s : Stmt} (h : declaration bound item c = .ok s c') :
    ReadsClause (.stmt .declaration s) c c' := by
  simp only [declaration, acceptKeyword, bind_eq_ok, accept_eq_ok] at h
  obtain ⟨_, _, ⟨hk, rfl, rfl⟩ | ⟨-, rfl, rfl⟩, h⟩ := h
  · simp only [if_true, bind_eq_ok, pure_eq_ok] at h
    obtain ⟨s, d, hs, _, _, ht, rfl, rfl⟩ := h
    exact .letVar (TokenKind.isKeyword_iff.1 hk) (letClause_reads hs) (terminator_skips ht)
  simp only [Bool.false_eq_true, if_false, bind_eq_ok, accept_eq_ok] at h
  obtain ⟨_, _, ⟨hk, rfl, rfl⟩ | ⟨-, rfl, rfl⟩, h⟩ := h
  · simp only [if_true, bind_eq_ok, pure_eq_ok] at h
    obtain ⟨r, d, hr, rfl, rfl⟩ := h
    exact .define (TokenKind.isKeyword_iff.1 hk) (routine_reads hi ha hr)
  simp only [Bool.false_eq_true, if_false, bind_eq_ok, accept_eq_ok] at h
  obtain ⟨_, _, ⟨hk, rfl, rfl⟩ | ⟨-, rfl, rfl⟩, h⟩ := h
  · rw [if_pos rfl] at h
    exact classDeclaration_reads hi ha (TokenKind.isKeyword_iff.1 hk) h
  · rw [if_neg Bool.false_ne_true] at h
    exact bodyStatement_reads hi ha h .declaration

end Items

theorem statement_reads {n : Nat} {place : Place} {s : Stmt}
    (h : statement n place c = .ok s c') : ReadsClause (.stmt place s) c c' := by
  induction n generalizing place c s c' with
  | zero => exact absurd h not_exhausted
  | succ n ih =>
    have hi : ∀ place c s c', statement n place c = .ok s c' → ReadsClause (.stmt place s) c c' :=
      fun _ _ _ _ h => ih h
    cases place with
    | declaration => exact declaration_reads hi (advancing_statement n) h
    | body elseMayFollow => exact bodyStatement_reads hi (advancing_statement n) h _

/-- The declarations that could be read, in order. -/
theorem slots_reads {n : Nat} {found : List (Option Stmt)} (h : slots bound n c = .ok found c') :
    ReadsClause (.items (found.filterMap id)) c c' := by
  induction n generalizing c found with
  | zero =>
    rw [slots, pure_eq_ok] at h
    obtain ⟨rfl, rfl⟩ := h
    exact .noItems (.refl _)
  | succ n ih =>
    simp only [slots, bind_eq_ok, skipEols_eq_ok, get_eq_ok] at h
    obtain ⟨_, _, rfl, _, _, ⟨rfl, rfl⟩, h⟩ := h
    split at h
    · rw [pure_eq_ok] at h
      obtain ⟨rfl, rfl⟩ := h
      exact .noItems (skips_skipEols c)
    · simp only [bind_eq_ok, pure_eq_ok] at h
      obtain ⟨slot, d, hs, others, d', ho, rfl, rfl⟩ := h
      cases slot with
      | some s =>
        exact .item (skips_skipEols c) (statement_reads (recovering_eq_some.1 hs)) (ih ho)
      | none =>
        obtain ⟨had, he⟩ := advances_of_recovering (advancing_statement _ _) hs
        have hr : ReadsClause (.items (others.filterMap id)) d c' := ih ho
        exact .failed (skips_skipEols c) had he hr

end Parser

end Jal
