import Jal.Grammar.Expression
import Jal.Proofs.Program.Words

namespace Jal

namespace TokenKind

@[simp] theorem isEol_iff {kind : TokenKind} : kind.isEol = true ↔ kind = .eol := by
  cases kind <;> simp [isEol]

@[simp] theorem isIdent_iff {kind : TokenKind} : kind.isIdent = true ↔ kind = .ident := by
  cases kind <;> simp [isIdent]

@[simp] theorem isKeyword_iff {k : Keyword} {kind : TokenKind} :
    kind.isKeyword k = true ↔ kind = .keyword k := by
  cases kind <;> simp [isKeyword]

@[simp] theorem isSymbol_iff {s : Symbol} {kind : TokenKind} :
    kind.isSymbol s = true ↔ kind = .symbol s := by
  cases kind <;> simp [isSymbol]

end TokenKind

namespace Cursor

def nextFresh (c : Cursor) : Cursor := { c with nextId := c.nextId + 1 }

def withError (c : Cursor) (e : ParseError) : Cursor := { c with errors := e :: c.errors }

def nextName (c : Cursor) : Name := ⟨c.peek.lexeme, c.peek.line⟩

theorem rest_eq_of_peek {c : Cursor} (h : c.peek.kind ≠ .eof) :
    c.rest = c.peek :: c.advance.rest := by
  unfold peek at h ⊢
  unfold advance
  cases hr : c.rest with
  | nil => simp [hr] at h
  | cons t rest => simp

@[simp] theorem errors_advance (c : Cursor) : c.advance.errors = c.errors := by
  unfold advance
  split <;> rfl

@[simp] theorem nextId_advance (c : Cursor) : c.advance.nextId = c.nextId := by
  unfold advance
  split <;> rfl

@[simp] theorem errors_nextFresh (c : Cursor) : c.nextFresh.errors = c.errors := rfl

@[simp] theorem rest_nextFresh (c : Cursor) : c.nextFresh.rest = c.rest := rfl

@[simp] theorem rest_withError (c : Cursor) (e : ParseError) : (c.withError e).rest = c.rest := rfl

@[simp] theorem errors_withError (c : Cursor) (e : ParseError) :
    (c.withError e).errors = e :: c.errors := rfl

end Cursor

/-- What the grammar speaks of: an expression at a level of precedence or tighter, and one or more
expressions between commas. -/
inductive Phrase where
  | expr (level : Nat) (e : Expr)
  | list (es : List Expr)

open Jal.Parser (levels unaryOp? literal? assignTo?)

inductive Reads : Phrase → Cursor → Cursor → Prop where
  | literal {c : Cursor} {value : Literal} (hv : literal? c.peek.kind = some value) :
      Reads (.expr 9 (.literal value)) c c.advance
  | use {c : Cursor} (hk : c.peek.kind = .ident) :
      Reads (.expr 9 (.variable ⟨c.nextId, c.nextName⟩)) c c.advance.nextFresh
  | selfRef {c : Cursor} (hk : c.peek.kind = .keyword .selfKw) :
      Reads (.expr 9 (.selfRef c.nextId c.peek.line)) c c.advance.nextFresh
  | superRef {c : Cursor} (hk : c.peek.kind = .keyword .superKw)
      (hd : c.advance.peek.kind = .symbol .dot) (hn : c.advance.advance.peek.kind = .ident) :
      Reads (.expr 9 (.superRef c.nextId c.peek.line c.advance.advance.nextName)) c
        c.advance.advance.advance.nextFresh
  | grouping {c d : Cursor} {e : Expr} (hl : c.peek.kind = .symbol .leftParen)
      (he : Reads (.expr 0 e) c.advance d) (hr : d.peek.kind = .symbol .rightParen) :
      Reads (.expr 9 (.grouping e)) c d.advance
  | emptyArray {c : Cursor} (hl : c.peek.kind = .symbol .leftBracket)
      (hr : c.advance.peek.kind = .symbol .rightBracket) :
      Reads (.expr 9 (.array [])) c c.advance.advance
  | array {c d : Cursor} {es : List Expr} (hl : c.peek.kind = .symbol .leftBracket)
      (he : Reads (.list es) c.advance d) (hr : d.peek.kind = .symbol .rightBracket) :
      Reads (.expr 9 (.array es)) c d.advance
  | emptyCall {c d : Cursor} {f : Expr} (hf : Reads (.expr 8 f) c d)
      (hl : d.peek.kind = .symbol .leftParen)
      (hr : d.advance.peek.kind = .symbol .rightParen) :
      Reads (.expr 8 (.call f d.advance.peek.line [])) c d.advance.advance
  | call {c d d' : Cursor} {f : Expr} {es : List Expr} (hf : Reads (.expr 8 f) c d)
      (hl : d.peek.kind = .symbol .leftParen) (he : Reads (.list es) d.advance d')
      (hr : d'.peek.kind = .symbol .rightParen) :
      Reads (.expr 8 (.call f d'.peek.line es)) c d'.advance
  | index {c d d' : Cursor} {e i : Expr} (he : Reads (.expr 8 e) c d)
      (hl : d.peek.kind = .symbol .leftBracket) (hi : Reads (.expr 0 i) d.advance d')
      (hr : d'.peek.kind = .symbol .rightBracket) :
      Reads (.expr 8 (.index e d.peek.line i)) c d'.advance
  | get {c d : Cursor} {e : Expr} (he : Reads (.expr 8 e) c d)
      (hd : d.peek.kind = .symbol .dot) (hn : d.advance.peek.kind = .ident) :
      Reads (.expr 8 (.get e d.advance.nextName)) c d.advance.advance
  -- the operand may itself begin with an operator
  | unary {c d : Cursor} {op : UnaryOp} {e : Expr} (ho : unaryOp? c.peek.kind = some op)
      (he : Reads (.expr 7 e) c.advance d) :
      Reads (.expr 7 (.unary op c.peek.line e)) c d
  -- the left operand is of the operator's own level, so that chains lean to the left
  | binary {c d d' : Cursor} {k : Nat} {level : Parser.Level} {combine : Parser.Combine}
      {left right : Expr} (hk : levels[k]? = some level) (hl : Reads (.expr (k + 1) left) c d)
      (ho : level d.peek = some combine) (hr : Reads (.expr (k + 2) right) d.advance d') :
      Reads (.expr (k + 1) (combine left right)) c d'
  | assign {c d d' : Cursor} {target value e : Expr} (ht : Reads (.expr 1 target) c d)
      (ho : d.peek.kind = .symbol .assign) (hv : Reads (.expr 0 value) d.advance d')
      (he : assignTo? target value = some e) : Reads (.expr 0 e) c d'
  -- nothing is lost but the value: the target is kept and reading goes on
  | misassign {c d d' : Cursor} {target value : Expr} (ht : Reads (.expr 1 target) c d)
      (ho : d.peek.kind = .symbol .assign) (hv : Reads (.expr 0 value) d.advance d')
      (he : assignTo? target value = none) :
      Reads (.expr 0 target) c (d'.withError (.invalidAssignmentTarget d.peek.line))
  | tighter {c d : Cursor} {k : Nat} {e : Expr} (hk : k < 9) (he : Reads (.expr (k + 1) e) c d) :
      Reads (.expr k e) c d
  | one {c d : Cursor} {e : Expr} (he : Reads (.expr 0 e) c d) : Reads (.list [e]) c d
  | more {c d d' : Cursor} {e : Expr} {es : List Expr} (he : Reads (.expr 0 e) c d)
      (hc : d.peek.kind = .symbol .comma) (hes : Reads (.list es) d.advance d') :
      Reads (.list (e :: es)) c d'

namespace Cursor

/-- The tokens from `c` up to `c'` spell the words `ws`. -/
def Spells (c : Cursor) (ws : List Word) (c' : Cursor) : Prop :=
  ∃ ts, c.rest = ts ++ c'.rest ∧ ts.map Token.word = ws

theorem Spells.trans {c d d' : Cursor} {ws us : List Word} (h : c.Spells ws d)
    (h' : d.Spells us d') : c.Spells (ws ++ us) d' := by
  obtain ⟨ts, hts, rfl⟩ := h
  obtain ⟨ts', hts', rfl⟩ := h'
  exact ⟨ts ++ ts', by rw [hts, hts', List.append_assoc], List.map_append⟩

theorem spells_peek {c : Cursor} (h : c.peek.kind ≠ .eof) : c.Spells [c.peek.word] c.advance :=
  ⟨[c.peek], rest_eq_of_peek h, rfl⟩

theorem spells_symbol {c : Cursor} {s : Symbol} (h : c.peek.kind = .symbol s) :
    c.Spells [.symbol s] c.advance := by
  have hw : c.peek.word = .symbol s := by simp only [Token.word, h]
  exact hw ▸ spells_peek (by simp [h])

theorem spells_keyword {c : Cursor} {k : Keyword} (h : c.peek.kind = .keyword k) :
    c.Spells [.keyword k] c.advance := by
  have hw : c.peek.word = .keyword k := by simp only [Token.word, h]
  exact hw ▸ spells_peek (by simp [h])

theorem spells_name {c : Cursor} (h : c.peek.kind = .ident) :
    c.Spells [c.nextName.word] c.advance := by
  have hw : c.peek.word = c.nextName.word := by simp only [Token.word, h, nextName, Name.word]
  exact hw ▸ spells_peek (by simp [h])

end Cursor

open Cursor

theorem word_of_literal? {t : Token} {value : Literal} (h : literal? t.kind = some value) :
    t.kind ≠ .eof ∧ t.word = value.word := by
  unfold literal? at h
  split at h <;> cases h <;> simp [Token.word, Literal.word, *]

theorem word_of_unaryOp? {t : Token} {op : UnaryOp} (h : unaryOp? t.kind = some op) :
    t.kind ≠ .eof ∧ t.word = op.word := by
  unfold unaryOp? at h
  split at h <;> cases h <;> simp [Token.word, UnaryOp.word, *]

/-- What stands at a level of operators: one that decides early, or one on two values. -/
theorem operator_cases {k : Nat} {level : Parser.Level} {t : Token} {combine : Parser.Combine}
    (hk : levels[k]? = some level) (h : level t = some combine) :
    (∃ op : LogicalOp, op.level = k + 1 ∧ t.word = op.word ∧ combine = .logical op) ∨
      ∃ op : BinaryOp, op.level = k + 1 ∧ t.word = op.word ∧ combine = .binary op t.line := by
  -- from the loosest level, where `or` stands, to that of `*` and `/`
  have hl : k < levels.length := (List.getElem?_eq_some_iff.1 hk).1
  match k, hl with
  | 0, _ =>
    cases hk
    unfold Parser.disjunction at h
    split at h <;> cases h
    have hw : t.kind = .keyword .orKw := TokenKind.isKeyword_iff.1 ‹_›
    exact .inl ⟨.or, rfl, by simp [Token.word, LogicalOp.word, hw], rfl⟩
  | 1, _ =>
    cases hk
    unfold Parser.conjunction at h
    split at h <;> cases h
    have hw : t.kind = .keyword .andKw := TokenKind.isKeyword_iff.1 ‹_›
    exact .inl ⟨.and, rfl, by simp [Token.word, LogicalOp.word, hw], rfl⟩
  | 2, _ =>
    cases hk
    unfold Parser.equality at h
    split at h <;> cases h
    · exact .inr ⟨.equal, rfl, by simp [Token.word, BinaryOp.word, *], rfl⟩
    · exact .inr ⟨.notEqual, rfl, by simp [Token.word, BinaryOp.word, *], rfl⟩
  | 3, _ =>
    cases hk
    unfold Parser.comparison at h
    split at h <;> cases h
    · exact .inr ⟨.greater, rfl, by simp [Token.word, BinaryOp.word, *], rfl⟩
    · exact .inr ⟨.greaterEqual, rfl, by simp [Token.word, BinaryOp.word, *], rfl⟩
    · exact .inr ⟨.less, rfl, by simp [Token.word, BinaryOp.word, *], rfl⟩
    · exact .inr ⟨.lessEqual, rfl, by simp [Token.word, BinaryOp.word, *], rfl⟩
  | 4, _ =>
    cases hk
    unfold Parser.sum at h
    split at h <;> cases h
    · exact .inr ⟨.add, rfl, by simp [Token.word, BinaryOp.word, *], rfl⟩
    · exact .inr ⟨.subtract, rfl, by simp [Token.word, BinaryOp.word, *], rfl⟩
  | 5, _ =>
    cases hk
    unfold Parser.product at h
    split at h <;> cases h
    · exact .inr ⟨.multiply, rfl, by simp [Token.word, BinaryOp.word, *], rfl⟩
    · exact .inr ⟨.divide, rfl, by simp [Token.word, BinaryOp.word, *], rfl⟩

theorem word_of_operator {k : Nat} {level : Parser.Level} {t : Token} {combine : Parser.Combine}
    (hk : levels[k]? = some level) (h : level t = some combine) :
    t.kind ≠ .eof ∧
      ∀ left right, (combine left right).words = left.words ++ t.word :: right.words := by
  have hne {w : Word} (hw : t.word = w) (hn : w.kind ≠ .eof) : t.kind ≠ .eof := by
    rwa [← Token.kind_word, hw]
  rcases operator_cases hk h with ⟨op, _, hw, rfl⟩ | ⟨op, _, hw, rfl⟩
  · exact ⟨hne hw (by cases op <;> simp [LogicalOp.word, Word.kind]), by simp [Expr.words, hw]⟩
  · exact ⟨hne hw (by cases op <;> simp [BinaryOp.word, Word.kind]), by simp [Expr.words, hw]⟩

/-- What can be assigned to, and what assigning to it is. -/
theorem assignTo_cases {target value e : Expr} (h : assignTo? target value = some e) :
    (∃ ref, target = .variable ref ∧ e = .assign ref value) ∨
      (∃ object name, target = .get object name ∧ e = .set object name value) ∨
      ∃ object line position, target = .index object line position ∧
        e = .indexSet object line position value := by
  cases target <;> cases h
  · exact .inl ⟨_, rfl, rfl⟩
  · exact .inr (.inl ⟨_, _, rfl, rfl⟩)
  · exact .inr (.inr ⟨_, _, _, rfl, rfl⟩)

namespace Phrase

def words : Phrase → List Word
  | expr _ e => e.words
  | list es => commas (Expr.wordsOfEach es)

def Layered : Phrase → Prop
  | expr level e => level ≤ e.level ∧ e.Layered
  | list es => es ≠ [] ∧ Expr.AllLayered es

end Phrase

namespace Cursor

/-- From `c` up to `c'` no errors were recorded but those about what is assigned to. -/
def Misassigns (c c' : Cursor) : Prop :=
  ∃ new, c'.errors = new ++ c.errors ∧ ∀ e ∈ new, ∃ line, e = .invalidAssignmentTarget line

theorem misassigns_of_eq {c c' : Cursor} (h : c'.errors = c.errors) : c.Misassigns c' :=
  ⟨[], h, nofun⟩

theorem Misassigns.trans {c d d' : Cursor} (h : c.Misassigns d) (h' : d.Misassigns d') :
    c.Misassigns d' := by
  obtain ⟨new, hd, hn⟩ := h
  obtain ⟨new', hd', hn'⟩ := h'
  refine ⟨new' ++ new, by rw [hd', hd, List.append_assoc], ?_⟩
  intro e he
  exact (List.mem_append.1 he).elim (hn' e) (hn e)

/-- A step over a token records nothing. -/
theorem Misassigns.step {c d : Cursor} (h : c.advance.Misassigns d) : c.Misassigns d :=
  (misassigns_of_eq (errors_advance c)).trans h

theorem Misassigns.advance {c d : Cursor} (h : c.Misassigns d) : c.Misassigns d.advance :=
  h.trans (misassigns_of_eq (errors_advance d))

def newErrors (c c' : Cursor) : List ParseError :=
  c'.errors.take (c'.errors.length - c.errors.length)

theorem Misassigns.errors_eq {c c' : Cursor} (h : c.Misassigns c')
    (hn : ∀ line, .invalidAssignmentTarget line ∉ c.newErrors c') : c'.errors = c.errors := by
  obtain ⟨new, he, hnew⟩ := h
  have hrec : c.newErrors c' = new := by simp [newErrors, he]
  cases new with
  | nil => exact he
  | cons e rest =>
    obtain ⟨line, rfl⟩ := hnew e List.mem_cons_self
    exact absurd (hrec ▸ List.mem_cons_self) (hn line)

end Cursor

/-- The only errors that reading an expression records are about what is assigned to. -/
theorem Reads.misassigns {p : Phrase} {c c' : Cursor} (h : Reads p c c') : c.Misassigns c' := by
  induction h with
  | literal | use | selfRef | superRef | emptyArray => exact misassigns_of_eq (by simp)
  | grouping _ _ _ ih | array _ _ _ ih => exact ih.step.advance
  | unary _ _ ih => exact ih.step
  | emptyCall _ _ _ ih | get _ _ _ ih => exact ih.advance.advance
  | call _ _ _ _ ih ih' | index _ _ _ _ ih ih' => exact (ih.trans ih'.step).advance
  | binary _ _ _ _ ih ih' | assign _ _ _ _ ih ih' | more _ _ _ ih ih' => exact ih.trans ih'.step
  | misassign _ _ _ _ ih ih' =>
    exact (ih.trans ih'.step).trans ⟨[_], rfl, fun e he => ⟨_, List.mem_singleton.1 he⟩⟩
  | tighter _ _ ih | one _ ih => exact ih

theorem Reads.errors_suffix {p : Phrase} {c c' : Cursor} (h : Reads p c c') :
    c.errors <:+ c'.errors := by
  obtain ⟨new, he, _⟩ := h.misassigns
  exact ⟨new, he.symm⟩

theorem Reads.layered {p : Phrase} {c c' : Cursor} (h : Reads p c c') : p.Layered := by
  induction h with
  | literal | use | selfRef | superRef | emptyArray =>
    simp [Phrase.Layered, Expr.Layered, Expr.level, Expr.AllLayered]
  | grouping _ _ _ ih => exact ⟨Nat.le_refl 9, ih.2⟩
  | array _ _ _ ih => exact ⟨Nat.le_refl 9, ih.2⟩
  | emptyCall _ _ _ ih => exact ⟨Nat.le_refl 8, ih.1, ih.2, trivial⟩
  | call _ _ _ _ ih ih' => exact ⟨Nat.le_refl 8, ih.1, ih.2, ih'.2⟩
  | index _ _ _ _ ih ih' => exact ⟨Nat.le_refl 8, ih.1, ih.2, ih'.2⟩
  | get _ _ _ ih => exact ⟨Nat.le_refl 8, ih.1, ih.2⟩
  | unary _ _ ih => exact ⟨Nat.le_refl 7, ih.1, ih.2⟩
  | binary hk _ ho _ ih ih' =>
    rcases operator_cases hk ho with ⟨op, hop, _, rfl⟩ | ⟨op, hop, _, rfl⟩
    · exact ⟨Nat.le_of_eq hop.symm, hop ▸ ih.1, ih.2, hop ▸ ih'.1, ih'.2⟩
    · exact ⟨Nat.le_of_eq hop.symm, hop ▸ ih.1, ih.2, hop ▸ ih'.1, ih'.2⟩
  | assign _ _ _ he ih ih' =>
    refine ⟨Nat.zero_le _, ?_⟩
    rcases assignTo_cases he with ⟨_, rfl, rfl⟩ | ⟨_, _, rfl, rfl⟩ | ⟨_, _, _, rfl, rfl⟩
    · exact ih'.2
    · exact ⟨ih.2.1, ih.2.2, ih'.2⟩
    · exact ⟨ih.2.1, ih.2.2.1, ih.2.2.2, ih'.2⟩
  | misassign _ _ _ _ ih _ => exact ⟨Nat.zero_le _, ih.2⟩
  | tighter _ _ ih => exact ⟨Nat.le_of_succ_le ih.1, ih.2⟩
  | one _ ih => exact ⟨List.cons_ne_nil _ _, ih.2, trivial⟩
  | more _ _ _ ih ih' => exact ⟨List.cons_ne_nil _ _, ih.2, ih'.2⟩

/-- Between two cursors with the same errors there is no error. -/
theorem errors_eq_of_suffix {c d d' : Cursor} (h : c.errors <:+ d.errors)
    (h' : d.errors <:+ d'.errors) (he : d'.errors = c.errors) :
    d.errors = c.errors ∧ d'.errors = d.errors := by
  have hd : d.errors = c.errors := (h.eq_of_length_le (he ▸ h'.length_le)).symm
  exact ⟨hd, he.trans hd.symm⟩

/-- The tokens of a phrase are its words, if no error was recorded in it. -/
theorem Reads.spells {p : Phrase} {c c' : Cursor} (h : Reads p c c') :
    c'.errors = c.errors → c.Spells p.words c' := by
  induction h with
  | literal hv =>
    intro _
    obtain ⟨hne, hw⟩ := word_of_literal? hv
    simpa [Phrase.words, Expr.words, hw] using spells_peek hne
  | use hk => exact fun _ => spells_name hk
  | selfRef hk => exact fun _ => spells_keyword hk
  | superRef hk hd hn =>
    exact fun _ => ((spells_keyword hk).trans (spells_symbol hd)).trans (spells_name hn)
  | grouping hl _ hr ih =>
    intro he
    exact ((spells_symbol hl).trans (ih (by simpa using he))).trans (spells_symbol hr)
  | emptyArray hl hr => exact fun _ => (spells_symbol hl).trans (spells_symbol hr)
  | array hl _ hr ih =>
    intro he
    exact ((spells_symbol hl).trans (ih (by simpa using he))).trans (spells_symbol hr)
  | emptyCall _ hl hr ih =>
    intro he
    have h := ((ih (by simpa using he)).trans (spells_symbol hl)).trans (spells_symbol hr)
    simpa [Phrase.words, Expr.words, commas, Expr.wordsOfEach] using h
  | call hf hl hes hr ih ih' =>
    intro he
    -- neither part recorded an error, since errors only pile up
    obtain ⟨he, he'⟩ := errors_eq_of_suffix hf.errors_suffix
      (by simpa using hes.errors_suffix) (by simpa using he)
    have h := (((ih he).trans (spells_symbol hl)).trans (ih' (by simpa using he'))).trans
      (spells_symbol hr)
    simpa [Phrase.words, Expr.words] using h
  | index hf hl hes hr ih ih' =>
    intro he
    obtain ⟨he, he'⟩ := errors_eq_of_suffix hf.errors_suffix
      (by simpa using hes.errors_suffix) (by simpa using he)
    have h := (((ih he).trans (spells_symbol hl)).trans (ih' (by simpa using he'))).trans
      (spells_symbol hr)
    simpa [Phrase.words, Expr.words] using h
  | get _ hd hn ih =>
    intro he
    have h := ((ih (by simpa using he)).trans (spells_symbol hd)).trans (spells_name hn)
    simpa [Phrase.words, Expr.words] using h
  | unary ho _ ih =>
    intro he
    obtain ⟨hne, hw⟩ := word_of_unaryOp? ho
    have h := (spells_peek hne).trans (ih (by simpa using he))
    simpa [Phrase.words, Expr.words, hw] using h
  | binary hk hl ho hr ih ih' =>
    intro he
    obtain ⟨he, he'⟩ := errors_eq_of_suffix hl.errors_suffix (by simpa using hr.errors_suffix) he
    have hw := word_of_operator hk ho
    have h := ((ih he).trans (spells_peek hw.1)).trans (ih' (by simpa using he'))
    simpa [Phrase.words, hw.2] using h
  | @assign _ _ _ target value e ht ho hv hto ih ih' =>
    intro he
    obtain ⟨he, he'⟩ := errors_eq_of_suffix ht.errors_suffix (by simpa using hv.errors_suffix) he
    have h := ((ih he).trans (spells_symbol ho)).trans (ih' (by simpa using he'))
    have hw : e.words = target.words ++ .symbol .assign :: value.words := by
      rcases assignTo_cases hto with ⟨_, rfl, rfl⟩ | ⟨_, _, rfl, rfl⟩ | ⟨_, _, _, rfl, rfl⟩ <;>
        simp [Expr.words]
    simpa [Phrase.words, hw] using h
  | misassign ht _ hv _ _ _ =>
    intro he
    -- the recorded error makes the list of errors longer
    have hs := (ht.errors_suffix.trans (by simpa using hv.errors_suffix)).length_le
    have hl := congrArg List.length he
    simp only [errors_withError, List.length_cons] at hl
    omega
  | tighter _ _ ih => exact ih
  | one _ ih => exact ih
  | @more _ _ _ e es hf hc hes ih ih' =>
    intro he
    obtain ⟨he, he'⟩ := errors_eq_of_suffix hf.errors_suffix
      (by simpa using hes.errors_suffix) he
    have h := ((ih he).trans (spells_symbol hc)).trans (ih' (by simpa using he'))
    -- a list of none is no phrase, so the comma stands between two expressions
    have hne : es ≠ [] := hes.layered.1
    cases es with
    | nil => exact absurd rfl hne
    | cons e' es => simpa [Phrase.words, Expr.wordsOfEach, commas] using h

namespace Cursor

theorem length_rest_advance_le (c : Cursor) : c.advance.rest.length ≤ c.rest.length := by
  unfold advance
  split <;> simp [*]

theorem length_rest_advance_lt {c : Cursor} (h : c.peek.kind ≠ .eof) :
    c.advance.rest.length < c.rest.length := by
  rw [rest_eq_of_peek h]
  exact Nat.lt_succ_self _

theorem length_lt_of_symbol {c : Cursor} {s : Symbol} (h : c.peek.kind = .symbol s) :
    c.advance.rest.length < c.rest.length :=
  length_rest_advance_lt (by simp [h])

end Cursor

/-- Every phrase uses up a token. -/
theorem Reads.length_lt {p : Phrase} {c c' : Cursor} (h : Reads p c c') :
    c'.rest.length < c.rest.length := by
  induction h with
  | literal hv => exact length_rest_advance_lt (word_of_literal? hv).1
  | use hk | selfRef hk => exact length_rest_advance_lt (by simp [hk])
  | @superRef c hk _ _ =>
    have h := length_rest_advance_lt (c := c) (by simp [hk])
    have h' := c.advance.length_rest_advance_le
    have h'' := c.advance.advance.length_rest_advance_le
    rw [rest_nextFresh]
    omega
  | @emptyArray c hl _ =>
    have h := length_lt_of_symbol hl
    have h' := c.advance.length_rest_advance_le
    omega
  | @grouping _ d _ hl _ _ ih | @array _ d _ hl _ _ ih =>
    have h := length_lt_of_symbol hl
    have h' := d.length_rest_advance_le
    omega
  | @emptyCall _ d _ _ _ _ ih | @get _ d _ _ _ _ ih =>
    have h := d.length_rest_advance_le
    have h' := d.advance.length_rest_advance_le
    omega
  | @call _ d d' _ _ _ _ _ _ ih ih' | @index _ d d' _ _ _ _ _ _ ih ih' =>
    have h := d.length_rest_advance_le
    have h' := d'.length_rest_advance_le
    omega
  | unary ho _ ih =>
    have h := length_rest_advance_lt (word_of_unaryOp? ho).1
    omega
  | @binary _ d _ _ _ _ _ _ _ _ _ _ ih ih' | @assign _ d _ _ _ _ _ _ _ _ ih ih'
  | @more _ d _ _ _ _ _ _ ih ih' =>
    have h := d.length_rest_advance_le
    omega
  | @misassign _ d _ _ _ _ _ _ _ ih ih' =>
    have h := d.length_rest_advance_le
    rw [rest_withError]
    omega
  | tighter _ _ ih | one _ ih => exact ih

/-- The kinds of tokens that an expression tighter than prefix operators can begin with. -/
def startsOperand (kind : TokenKind) : Bool :=
  (literal? kind).isSome ||
    match kind with
    | .ident | .keyword .selfKw | .keyword .superKw => true
    | .symbol .leftParen | .symbol .leftBracket => true
    | _ => false

def startsExpression (kind : TokenKind) : Bool := startsOperand kind || (unaryOp? kind).isSome

def Phrase.StartsWith (kind : TokenKind) : Phrase → Prop
  | .expr level _ => startsExpression kind = true ∧ (8 ≤ level → startsOperand kind = true)
  | .list _ => startsExpression kind = true

theorem Reads.startsWith {p : Phrase} {c c' : Cursor} (h : Reads p c c') :
    p.StartsWith c.peek.kind := by
  have operand {kind : TokenKind} {level : Nat} {e : Expr} (h : startsOperand kind = true) :
      Phrase.StartsWith kind (.expr level e) :=
    ⟨by rw [startsExpression, h, Bool.true_or], fun _ => h⟩
  induction h with
  | literal hv => exact operand (by simp [startsOperand, hv])
  | use hk | selfRef hk => exact operand (by simp [startsOperand, hk])
  | superRef hk _ _ => exact operand (by simp [startsOperand, hk])
  | grouping hl _ _ _ | emptyArray hl _ | array hl _ _ _ =>
    exact operand (by simp [startsOperand, hl])
  -- a phrase with something after it begins as it does without
  | emptyCall _ _ _ ih | call _ _ _ _ ih _ | index _ _ _ _ ih _ | get _ _ _ ih => exact ih
  | unary ho _ _ =>
    -- no prefix operator begins anything tighter than level 7
    exact ⟨by rw [startsExpression, ho, Option.isSome_some, Bool.or_true], nofun⟩
  | binary _ _ _ _ ih _ => exact ih
  | assign _ _ _ _ ih _ | misassign _ _ _ _ ih _ => exact ⟨ih.1, nofun⟩
  | tighter _ _ ih => exact ⟨ih.1, fun h => ih.2 (Nat.le_succ_of_le h)⟩
  | one _ ih | more _ _ _ ih _ => exact ih.1

end Jal
