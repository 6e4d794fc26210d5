import Mathlib.Data.List.TakeDrop
import Jal.Grammar.Program
import Jal.Proofs.Grammar.Readback

namespace Jal

open Cursor

def Word.nextKind : List Word → TokenKind
  | [] => .eof
  | w :: _ => w.kind

theorem Cursor.kind_peek (c : Cursor) : c.peek.kind = Word.nextKind c.ahead := by
  unfold peek ahead
  cases c.rest with
  | nil => rfl
  | cons t rest => exact (Token.kind_word t).symm

theorem Cursor.atEnd_eq_false {c : Cursor} {w : Word} {ws : List Word} (h : c.ahead = w :: ws) :
    c.atEnd = false := by
  unfold ahead at h
  unfold atEnd
  cases hr : c.rest with
  | nil => simp [hr] at h
  | cons t rest => rfl

theorem Cursor.previous_advance {c : Cursor} {w : Word} {ws : List Word} (h : c.ahead = w :: ws) :
    c.advance.previous = some w.kind := by
  unfold ahead at h
  unfold advance
  cases hr : c.rest with
  | nil => simp [hr] at h
  | cons t rest =>
    rw [hr, List.map_cons, List.cons.injEq] at h
    rw [← h.1, Token.kind_word]

theorem Cursor.skipEols_of_ne {c : Cursor} (h : c.peek.kind ≠ .eol) : c.skipEols = c := by
  unfold peek at h
  obtain ⟨previous, rest, endLine, errors, nextId⟩ := c
  cases rest with
  | nil => rfl
  | cons t rest =>
    have ht : t.kind.isEol = false := Bool.eq_false_iff.2 (mt TokenKind.isEol_iff.1 h)
    simp [skipEols, List.span_eq_takeWhile_dropWhile, ht]

namespace Parser

variable {c d d' d'' : Cursor} {k : Keyword} {what : String}

theorem expectKeyword_of_kind (h : c.peek.kind = .keyword k) :
    expectKeyword k what c = .ok c.peek c.advance := by
  rw [expectKeyword, expect_eq_ok, TokenKind.isKeyword_iff]
  exact ⟨h, rfl, rfl⟩

theorem acceptKeyword_of_kind (h : c.peek.kind = .keyword k) :
    acceptKeyword k c = .ok true c.advance := by
  rw [acceptKeyword, accept_apply, TokenKind.isKeyword_iff.2 h, if_pos rfl]

theorem acceptKeyword_of_ne (h : c.peek.kind ≠ .keyword k) :
    acceptKeyword k c = .ok false c := by
  have hf : c.peek.kind.isKeyword k = false := Bool.eq_false_iff.2 (mt TokenKind.isKeyword_iff.1 h)
  rw [acceptKeyword, accept_apply, hf, if_neg Bool.false_ne_true]

theorem accept_eol_of_ne (h : c.peek.kind ≠ .eol) : accept TokenKind.isEol c = .ok false c := by
  have hf : c.peek.kind.isEol = false := Bool.eq_false_iff.2 (mt TokenKind.isEol_iff.1 h)
  rw [accept_apply, hf, if_neg Bool.false_ne_true]

theorem acceptEol_of_ne (h : c.peek.kind ≠ .eol) : acceptEol c = .ok () c := by
  rw [acceptEol, bind_of_ok (accept_eol_of_ne h)]
  rfl

theorem skipEols_of_ne (h : c.peek.kind ≠ .eol) : skipEols c = .ok () c := by
  have hs : skipEols c = .ok () c.skipEols := rfl
  rw [hs, Cursor.skipEols_of_ne h]

theorem get_apply (c : Cursor) : (get : Parser Cursor) c = .ok c c := rfl

theorem terminator_semicolon {elseMayFollow : Bool} (h : c.peek.kind = .symbol .semicolon)
    (hn : c.advance.peek.kind ≠ .eol) : terminator elseMayFollow c = .ok () c.advance := by
  have he : c.peek.kind ≠ .eol := by
    rw [h]
    nofun
  rw [terminator, bind_of_ok (accept_eol_of_ne he)]
  simp only [Bool.false_eq_true, if_false]
  rw [bind_of_ok (acceptSymbol_of_kind h)]
  simp only [if_true]
  rw [bind_of_ok (acceptEol_of_ne hn)]
  rfl

/-- Right after a closing brace a statement has ended. -/
theorem terminator_brace {elseMayFollow : Bool} (h : c.previous = some (.symbol .rightBrace))
    (he : c.peek.kind ≠ .eol) (hs : c.peek.kind ≠ .symbol .semicolon) :
    terminator elseMayFollow c = .ok () c := by
  have hp : c.previousIs (TokenKind.isSymbol .rightBrace) = true := by
    rw [previousIs, h]
    rfl
  rw [terminator, bind_of_ok (accept_eol_of_ne he)]
  simp only [Bool.false_eq_true, if_false]
  rw [bind_of_ok (acceptSymbol_of_ne hs)]
  simp only [Bool.false_eq_true, if_false]
  rw [bind_of_ok (get_apply c), hp]
  simp only [Bool.or_true, Bool.true_or, if_true]
  rfl

section Constructs

variable {bound n : Nat} {elseMayFollow : Bool} {item : Place → Parser Stmt}

theorem block_of_items {body : List Stmt} (h : blockItems item bound c = .ok body d)
    (hd : d.peek.kind = .symbol .rightBrace) : block bound item c = .ok body d.advance := by
  rw [block, bind_of_ok h, bind_of_ok (expectSymbol_of_kind hd)]
  rfl

theorem blockItems_stop (h : c.peek.kind = .symbol .rightBrace) :
    blockItems item (n + 1) c = .ok [] c := by
  have hs : c.nextIs (TokenKind.isSymbol .rightBrace) = true := TokenKind.isSymbol_iff.2 h
  rw [blockItems, bind_of_ok (skipEols_of_ne (by rw [h]; nofun)), bind_of_ok (get_apply c), hs]
  rfl

theorem blockItems_step {s : Stmt} {others : List Stmt} {w : Word} {ws : List Word}
    (h : c.ahead = w :: ws) (he : w.kind ≠ .eol) (hb : w.kind ≠ .symbol .rightBrace)
    (hi : item .declaration c = .ok s d) (ho : blockItems item n d = .ok others d') :
    blockItems item (n + 1) c = .ok (s :: others) d' := by
  have hk : c.peek.kind = w.kind := kind_of_ahead h
  have hs : c.nextIs (TokenKind.isSymbol .rightBrace) = false :=
    Bool.eq_false_iff.2 (mt TokenKind.isSymbol_iff.1 (hk ▸ hb))
  have hr : recovering (item .declaration) c = .ok (some s) d := by rw [recovering, hi]
  rw [blockItems, bind_of_ok (skipEols_of_ne (hk ▸ he)), bind_of_ok (get_apply c), hs,
    atEnd_eq_false h]
  simp only [Bool.or_self, Bool.false_eq_true, if_false]
  rw [bind_of_ok hr, bind_of_ok ho]
  rfl

theorem bodyStatement_if {test : Expr} {consequence : Stmt}
    (hk : c.peek.kind = .keyword .ifKw) (ht : expression bound c.advance = .ok test d)
    (hd : d.peek.kind = .keyword .thenKw) (he : d.advance.peek.kind ≠ .eol)
    (hb : item (.body true) d.advance = .ok consequence d')
    (hn : d'.peek.kind ≠ .keyword .elseKw) :
    bodyStatement bound elseMayFollow item c = .ok (.ifThen test consequence none) d' := by
  rw [bodyStatement, bind_of_ok (peek_apply c)]
  simp only [hk]
  rw [bind_of_ok (next_apply c), ifStatement, bind_of_ok ht, bind_of_ok (expectKeyword_of_kind hd),
    bind_of_ok (acceptEol_of_ne he), bind_of_ok hb, bind_of_ok (acceptKeyword_of_ne hn)]
  rfl

theorem bodyStatement_ifElse {test : Expr} {consequence alternative : Stmt}
    (hk : c.peek.kind = .keyword .ifKw) (ht : expression bound c.advance = .ok test d)
    (hd : d.peek.kind = .keyword .thenKw) (he : d.advance.peek.kind ≠ .eol)
    (hb : item (.body true) d.advance = .ok consequence d')
    (hn : d'.peek.kind = .keyword .elseKw) (he' : d'.advance.peek.kind ≠ .eol)
    (ha : item (.body elseMayFollow) d'.advance = .ok alternative d'') :
    bodyStatement bound elseMayFollow item c =
      .ok (.ifThen test consequence (some alternative)) d'' := by
  rw [bodyStatement, bind_of_ok (peek_apply c)]
  simp only [hk]
  rw [bind_of_ok (next_apply c), ifStatement, bind_of_ok ht, bind_of_ok (expectKeyword_of_kind hd),
    bind_of_ok (acceptEol_of_ne he), bind_of_ok hb, bind_of_ok (acceptKeyword_of_kind hn)]
  simp only [if_true]
  rw [bind_of_ok (acceptEol_of_ne he'), bind_of_ok ha]
  rfl

theorem bodyStatement_while {test : Expr} {body : Stmt}
    (hk : c.peek.kind = .keyword .whileKw) (ht : expression bound c.advance = .ok test d)
    (hd : d.peek.kind = .keyword .doKw) (he : d.advance.peek.kind ≠ .eol)
    (hb : item (.body elseMayFollow) d.advance = .ok body d') :
    bodyStatement bound elseMayFollow item c = .ok (.whileDo test body) d' := by
  rw [bodyStatement, bind_of_ok (peek_apply c)]
  simp only [hk]
  rw [bind_of_ok (next_apply c), whileStatement, bind_of_ok ht,
    bind_of_ok (expectKeyword_of_kind hd), bind_of_ok (acceptEol_of_ne he), bind_of_ok hb]
  rfl

theorem bodyStatement_times {count : Expr} {body : Stmt}
    (hk : c.peek.kind = .keyword .doKw) (ht : expression bound c.advance = .ok count d)
    (hd : d.peek.kind = .keyword .timesKw) (he : d.advance.peek.kind ≠ .eol)
    (hb : item (.body elseMayFollow) d.advance = .ok body d') :
    bodyStatement bound elseMayFollow item c = .ok (.times c.peek.line count body) d' := by
  rw [bodyStatement, bind_of_ok (peek_apply c)]
  simp only [hk]
  rw [bind_of_ok (next_apply c), timesStatement, bind_of_ok ht,
    bind_of_ok (expectKeyword_of_kind hd), bind_of_ok (acceptEol_of_ne he), bind_of_ok hb]
  rfl

theorem bodyStatement_break (hk : c.peek.kind = .keyword .breakKw)
    (ht : terminator elseMayFollow c.advance = .ok () d) :
    bodyStatement bound elseMayFollow item c = .ok (.breakLoop c.peek.line) d := by
  rw [bodyStatement, bind_of_ok (peek_apply c)]
  simp only [hk]
  rw [bind_of_ok (next_apply c), bind_of_ok ht]
  rfl

theorem bodyStatement_return (hk : c.peek.kind = .keyword .returnKw)
    (hs : c.advance.atTerminator elseMayFollow = true)
    (ht : terminator elseMayFollow c.advance = .ok () d) :
    bodyStatement bound elseMayFollow item c = .ok (.returnWith c.peek.line none) d := by
  rw [bodyStatement, bind_of_ok (peek_apply c)]
  simp only [hk]
  rw [bind_of_ok (next_apply c), returnStatement, bind_of_ok (get_apply _), if_pos hs,
    bind_of_ok ht]
  rfl

theorem bodyStatement_returnValue {value : Expr} (hk : c.peek.kind = .keyword .returnKw)
    (hs : c.advance.atTerminator elseMayFollow = false)
    (hv : expression bound c.advance = .ok value d)
    (ht : terminator elseMayFollow d = .ok () d') :
    bodyStatement bound elseMayFollow item c = .ok (.returnWith c.peek.line (some value)) d' := by
  rw [bodyStatement, bind_of_ok (peek_apply c)]
  simp only [hk]
  rw [bind_of_ok (next_apply c), returnStatement, bind_of_ok (get_apply _), hs,
    if_neg Bool.false_ne_true, bind_of_ok hv, bind_of_ok ht]
  rfl

theorem bodyStatement_block {body : List Stmt} (hk : c.peek.kind = .symbol .leftBrace)
    (hb : block bound item c.advance = .ok body d)
    (ht : terminator elseMayFollow d = .ok () d') :
    bodyStatement bound elseMayFollow item c = .ok (.block body) d' := by
  rw [bodyStatement, bind_of_ok (peek_apply c)]
  simp only [hk]
  rw [bind_of_ok (next_apply c), bind_of_ok hb, bind_of_ok ht]
  rfl

theorem bodyStatement_expr {e : Expr} (hk : startsExpression c.peek.kind = true)
    (he : expression bound c = .ok e d) (ht : terminator elseMayFollow d = .ok () d') :
    bodyStatement bound elseMayFollow item c = .ok (.expr e) d' := by
  rw [bodyStatement, bind_of_ok (peek_apply c)]
  generalize c.peek.kind = kind at hk
  split
  -- no keyword of a statement and no brace begins an expression
  case h_9 =>
    rw [bind_of_ok he, bind_of_ok ht]
    rfl
  all_goals exact absurd hk (by decide)

theorem declaration_let {s : Stmt} (hk : c.peek.kind = .keyword .letKw)
    (hs : letClause bound c.advance = .ok s d) (ht : terminator false d = .ok () d') :
    declaration bound item c = .ok s d' := by
  rw [declaration, bind_of_ok (acceptKeyword_of_kind hk)]
  simp only [if_true]
  rw [bind_of_ok hs, bind_of_ok ht]
  rfl

theorem declaration_define {r : Routine Stmt} (hk : c.peek.kind = .keyword .defKw)
    (hr : routine bound item c.advance = .ok r d) :
    declaration bound item c = .ok (.define r) d := by
  rw [declaration, bind_of_ok (acceptKeyword_of_ne (by rw [hk]; nofun))]
  simp only [Bool.false_eq_true, if_false]
  rw [bind_of_ok (acceptKeyword_of_kind hk)]
  simp only [if_true]
  rw [bind_of_ok hr]
  rfl

theorem declaration_class {s : Stmt} (hk : c.peek.kind = .keyword .classKw)
    (hs : classDeclaration bound item c.advance = .ok s d) :
    declaration bound item c = .ok s d := by
  rw [declaration, bind_of_ok (acceptKeyword_of_ne (by rw [hk]; nofun))]
  simp only [Bool.false_eq_true, if_false]
  rw [bind_of_ok (acceptKeyword_of_ne (by rw [hk]; nofun))]
  simp only [Bool.false_eq_true, if_false]
  rw [bind_of_ok (acceptKeyword_of_kind hk)]
  simp only [if_true]
  exact hs

/-- A statement that begins no declaration is read alike in every place. -/
theorem statement_of_body {s : Stmt} {place : Place} {us : List Word}
    (hk : ∀ k ∈ [Keyword.letKw, .defKw, .classKw], c.peek.kind ≠ .keyword k)
    (h : ∀ elseMayFollow,
      Recovers Stmt.bare (bodyStatement (n + 1) elseMayFollow (statement n)) s c us) :
    Recovers Stmt.bare (statement (n + 1) place) s c us := by
  cases place with
  | body elseMayFollow => exact h elseMayFollow
  | declaration =>
    obtain ⟨s', c', hs, hrest⟩ := h false
    refine ⟨s', c', ?_, hrest⟩
    rw [statement, declaration, bind_of_ok (acceptKeyword_of_ne (hk .letKw (by simp)))]
    simp only [Bool.false_eq_true, if_false]
    rw [bind_of_ok (acceptKeyword_of_ne (hk .defKw (by simp)))]
    simp only [Bool.false_eq_true, if_false]
    rw [bind_of_ok (acceptKeyword_of_ne (hk .classKw (by simp)))]
    simp only [Bool.false_eq_true, if_false]
    exact hs

theorem letClause_none (hn : c.peek.kind = .ident) (ha : c.advance.peek.kind ≠ .symbol .assign) :
    letClause bound c = .ok (.letVar c.nextName none) c.advance := by
  rw [letClause, bind_of_ok (name_of_kind hn), bind_of_ok (acceptSymbol_of_ne ha)]
  rfl

theorem letClause_some {init : Expr} (hn : c.peek.kind = .ident)
    (ha : c.advance.peek.kind = .symbol .assign)
    (hi : expression bound c.advance.advance = .ok init d) :
    letClause bound c = .ok (.letVar c.nextName (some init)) d := by
  rw [letClause, bind_of_ok (name_of_kind hn), bind_of_ok (acceptSymbol_of_kind ha)]
  simp only [if_true]
  rw [bind_of_ok hi]
  rfl

theorem routine_of_parts {params : List Name} {body : List Stmt} (hn : c.peek.kind = .ident)
    (hl : c.advance.peek.kind = .symbol .leftParen)
    (hp : itemsUpTo bound .rightParen (name "parameter name") c.advance.advance = .ok params d)
    (hr : d.peek.kind = .symbol .rightParen) (hb : d.advance.peek.kind = .symbol .leftBrace)
    (hbody : block bound item d.advance.advance = .ok body d')
    (ht : terminator false d' = .ok () d'') :
    routine bound item c = .ok ⟨c.nextName, params, body⟩ d'' := by
  rw [routine, bind_of_ok (name_of_kind hn), bind_of_ok (expectSymbol_of_kind hl), bind_of_ok hp,
    bind_of_ok (expectSymbol_of_kind hr), bind_of_ok (expectSymbol_of_kind hb), bind_of_ok hbody,
    bind_of_ok ht]
  rfl

theorem methods_stop (h : c.peek.kind = .symbol .rightBrace) :
    methods bound item (n + 1) c = .ok [] c := by
  have hs : c.nextIs (TokenKind.isSymbol .rightBrace) = true := TokenKind.isSymbol_iff.2 h
  rw [methods, bind_of_ok (skipEols_of_ne (by rw [h]; nofun)), bind_of_ok (get_apply c), hs]
  rfl

theorem methods_step {r : Routine Stmt} {others : List (Routine Stmt)} {ws : List Word}
    (h : c.ahead = .keyword .defKw :: ws) (hr : routine bound item c.advance = .ok r d)
    (ho : methods bound item n d = .ok others d') :
    methods bound item (n + 1) c = .ok (r :: others) d' := by
  have hk : c.peek.kind = .keyword .defKw := kind_of_ahead h
  have hs : c.nextIs (TokenKind.isSymbol .rightBrace) = false := by
    rw [nextIs, hk]
    rfl
  rw [methods, bind_of_ok (skipEols_of_ne (by rw [hk]; nofun)), bind_of_ok (get_apply c), hs,
    atEnd_eq_false h]
  simp only [Bool.or_self, Bool.false_eq_true, if_false]
  rw [bind_of_ok (expectKeyword_of_kind hk), bind_of_ok hr, bind_of_ok ho]
  rfl

theorem superclass_none (h : c.peek.kind ≠ .keyword .inheritsKw) :
    superclass c = .ok none c := by
  rw [superclass, bind_of_ok (acceptKeyword_of_ne h)]
  rfl

theorem superclass_some (h : c.peek.kind = .keyword .inheritsKw)
    (hn : c.advance.peek.kind = .ident) :
    superclass c =
      .ok (some ⟨c.nextId, c.advance.nextName⟩) c.advance.advance.nextFresh := by
  rw [superclass, bind_of_ok (acceptKeyword_of_kind h)]
  simp only [if_true]
  rw [bind_of_ok (name_of_kind hn), bind_of_ok (freshId_apply _), nextId_advance, nextId_advance]
  rfl

theorem classDeclaration_of_parts {parent : Option Reference} {members : List (Routine Stmt)}
    (hn : c.peek.kind = .ident) (hp : superclass c.advance = .ok parent d)
    (hl : d.peek.kind = .symbol .leftBrace)
    (hm : methods bound item bound d.advance = .ok members d')
    (hr : d'.peek.kind = .symbol .rightBrace) (ht : terminator false d'.advance = .ok () d'') :
    classDeclaration bound item c = .ok (.classDecl c.nextName parent members) d'' := by
  rw [classDeclaration, bind_of_ok (name_of_kind hn), bind_of_ok hp,
    bind_of_ok (expectSymbol_of_kind hl), bind_of_ok hm, bind_of_ok (expectSymbol_of_kind hr),
    bind_of_ok ht]
  rfl

end Constructs

end Parser

end Jal
