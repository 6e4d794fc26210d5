import Jal.Proofs.Grammar.Sound

namespace Jal

open Jal.Parser

/-- The level of the operations that a token carries an expression on with, if it does. -/
def extendsAt : TokenKind → Option Nat
  | .symbol .assign => some 0
  | .keyword .orKw => some 1
  | .keyword .andKw => some 2
  | .symbol .equal | .symbol .bangEqual => some 3
  | .symbol .less | .symbol .lessEqual | .symbol .greater | .symbol .greaterEqual => some 4
  | .symbol .plus | .symbol .minus => some 5
  | .symbol .star | .symbol .slash => some 6
  | .symbol .leftParen | .symbol .leftBracket | .symbol .dot => some 8
  | _ => none

def Stops (level : Nat) (t : Token) : Prop := ∀ j, extendsAt t.kind = some j → j < level

theorem Stops.mono {level level' : Nat} {t : Token} (h : Stops level t) (hl : level ≤ level') :
    Stops level' t := fun j hj => Nat.lt_of_lt_of_le (h j hj) hl

theorem stops_of_extendsAt {k : Nat} {t : Token} (h : extendsAt t.kind = some k) :
    Stops (k + 1) t := by
  intro j hj
  rw [h, Option.some.injEq] at hj
  exact Nat.lt_succ_of_le (Nat.le_of_eq hj.symm)

theorem stops_of_none {level : Nat} {t : Token} (h : extendsAt t.kind = none) : Stops level t := by
  intro j hj
  rw [h] at hj
  cases hj

theorem extendsAt_of_operator {k : Nat} {level : Level} {t : Token} {combine : Combine}
    (hk : levels[k]? = some level) (h : level t = some combine) :
    extendsAt t.kind = some (k + 1) := by
  rcases operator_cases hk h with ⟨op, hl, hw, -⟩ | ⟨op, hl, hw, -⟩
  · rw [← Token.kind_word, hw, ← hl]
    cases op <;> rfl
  · rw [← Token.kind_word, hw, ← hl]
    cases op <;> rfl

theorem Stops.no_operator {k : Nat} {level : Level} {t : Token} (h : Stops (k + 1) t)
    (hk : levels[k]? = some level) : level t = none := by
  cases ho : level t with
  | none => rfl
  | some combine => exact absurd (h _ (extendsAt_of_operator hk ho)) (Nat.lt_irrefl _)

namespace Parser

theorem bind_of_ok {α β : Type} {p : Parser α} {f : α → Parser β} {c d : Cursor} {a : α}
    (h : p c = .ok a d) : (p >>= f) c = f a d := by
  simp only [bind, EStateM.bind, h]

theorem expectSymbol_of_kind {s : Symbol} {what : String} {c : Cursor}
    (h : c.peek.kind = .symbol s) : expectSymbol s what c = .ok c.peek c.advance :=
  expectSymbol_eq_ok.2 ⟨h, rfl, rfl⟩

theorem name_of_kind {what : String} {c : Cursor} (h : c.peek.kind = .ident) :
    name what c = .ok c.nextName c.advance :=
  name_eq_ok.2 ⟨h, rfl, rfl⟩

theorem acceptSymbol_of_kind {s : Symbol} {c : Cursor} (h : c.peek.kind = .symbol s) :
    acceptSymbol s c = .ok true c.advance := by
  rw [acceptSymbol, accept_apply, TokenKind.isSymbol_iff.2 h, if_pos rfl]

theorem acceptSymbol_of_ne {s : Symbol} {c : Cursor} (h : c.peek.kind ≠ .symbol s) :
    acceptSymbol s c = .ok false c := by
  have hf : c.peek.kind.isSymbol s = false := Bool.eq_false_iff.2 (mt TokenKind.isSymbol_iff.1 h)
  rw [acceptSymbol, accept_apply, hf, if_neg Bool.false_ne_true]

theorem infixTail_stop {level : Level} {operand : Parser Expr} {m : Nat} {e : Expr} {c : Cursor}
    (h : level c.peek = none) : infixTail level operand (m + 1) e c = .ok e c := by
  rw [infixTail, bind_of_ok (peek_apply c), h]
  rfl

theorem infixTail_step {level : Level} {operand : Parser Expr} {m : Nat} {left right : Expr}
    {c d : Cursor} {combine : Combine} (h : level c.peek = some combine)
    (hr : operand c.advance = .ok right d) :
    infixTail level operand (m + 1) left c = infixTail level operand m (combine left right) d := by
  rw [infixTail, bind_of_ok (peek_apply c), h]
  simp only
  rw [bind_of_ok (next_apply c), bind_of_ok hr]

theorem itemsUpTo_stop {α : Type} {bound : Nat} {stop : Symbol} {item : Parser α} {c : Cursor}
    (h : c.peek.kind = .symbol stop) : itemsUpTo bound stop item c = .ok [] c := by
  rw [itemsUpTo, checkSymbol, bind_of_ok (check_apply _ c), TokenKind.isSymbol_iff.2 h, if_pos rfl]
  rfl

theorem itemsUpTo_some {α : Type} {bound : Nat} {stop : Symbol} {item : Parser α} {c : Cursor}
    (h : c.peek.kind ≠ .symbol stop) :
    itemsUpTo bound stop item c = commaSeparated item bound c := by
  have hf : c.peek.kind.isSymbol stop = false :=
    Bool.eq_false_iff.2 (mt TokenKind.isSymbol_iff.1 h)
  rw [itemsUpTo, checkSymbol, bind_of_ok (check_apply _ c), hf, if_neg Bool.false_ne_true]

section Postfix

variable {bound m : Nat} {expr : Parser Expr} {e : Expr} {c d : Cursor}

theorem postfixTail_stop (h : Stops 8 c.peek) :
    postfixTail bound expr (m + 1) e c = .ok e c := by
  rw [postfixTail, bind_of_ok (peek_apply c)]
  have hne {s : Symbol} (hs : extendsAt (.symbol s) = some 8) : c.peek.kind ≠ .symbol s :=
    fun hk => Nat.lt_irrefl 8 (h 8 (hk ▸ hs))
  generalize hk : c.peek.kind = kind
  split
  · exact absurd hk (hne rfl)
  · exact absurd hk (hne rfl)
  · exact absurd hk (hne rfl)
  · rfl

theorem postfixTail_call {es : List Expr} (hl : c.peek.kind = .symbol .leftParen)
    (hes : itemsUpTo bound .rightParen expr c.advance = .ok es d)
    (hr : d.peek.kind = .symbol .rightParen) :
    postfixTail bound expr (m + 1) e c =
      postfixTail bound expr m (.call e d.peek.line es) d.advance := by
  rw [postfixTail, bind_of_ok (peek_apply c)]
  simp only [hl]
  rw [bind_of_ok (next_apply c), bind_of_ok hes, bind_of_ok (expectSymbol_of_kind hr)]

theorem postfixTail_index {i : Expr} (hl : c.peek.kind = .symbol .leftBracket)
    (hi : expr c.advance = .ok i d) (hr : d.peek.kind = .symbol .rightBracket) :
    postfixTail bound expr (m + 1) e c =
      postfixTail bound expr m (.index e c.peek.line i) d.advance := by
  rw [postfixTail, bind_of_ok (peek_apply c)]
  simp only [hl]
  rw [bind_of_ok (next_apply c), bind_of_ok hi, bind_of_ok (expectSymbol_of_kind hr)]

theorem postfixTail_get (hd : c.peek.kind = .symbol .dot) (hn : c.advance.peek.kind = .ident) :
    postfixTail bound expr (m + 1) e c =
      postfixTail bound expr m (.get e c.advance.nextName) c.advance.advance := by
  rw [postfixTail, bind_of_ok (peek_apply c)]
  simp only [hd]
  rw [bind_of_ok (next_apply c), bind_of_ok (name_of_kind hn)]

end Postfix

end Parser

/-- The parsers with bound `n + 1` find the expression `e` between `c` and `c'`. At the levels that
are read in a loop, the loop arrives at `c'` with `e` read and turns enough left. -/
def FoundAt (n : Nat) (e : Expr) (c c' : Cursor) : Nat → Prop
  | 0 => Stops 0 c'.peek → expression (n + 1) c = .ok e c'
  | 7 => Stops 7 c'.peek → ∀ m, c.rest.length < m →
      unary (postfixChain (n + 1) (expression n)) m c = .ok e c'
  | 8 => ∃ m, c'.rest.length < m ∧
      postfixChain (n + 1) (expression n) c = postfixTail (n + 1) (expression n) m e c'
  | 9 => primary (n + 1) (expression n) c = .ok e c'
  | k + 1 => ∀ level, levels[k]? = some level → Stops (k + 2) c'.peek →
      ∃ m, c'.rest.length < m ∧ operandAt (n + 1) (expression n) k c =
        infixTail level (operandAt (n + 1) (expression n) (k + 1)) m e c'

/-- A phrase is found whenever the bound is larger than the number of tokens to come. -/
def Phrase.Found (c c' : Cursor) : Phrase → Prop
  | .expr level e => ∀ n, c.rest.length ≤ n → FoundAt n e c c' level
  | .list es => ∀ n m, c.rest.length < n → c.rest.length < m → Stops 0 c'.peek →
      c'.peek.kind ≠ .symbol .comma → commaSeparated (expression n) m c = .ok es c'

section Found

variable {n k : Nat} {e : Expr} {c c' : Cursor}

theorem foundAt_operator_iff (hk : k < levels.length) :
    FoundAt n e c c' (k + 1) ↔ ∀ level, levels[k]? = some level → Stops (k + 2) c'.peek →
      ∃ m, c'.rest.length < m ∧ operandAt (n + 1) (expression n) k c =
        infixTail level (operandAt (n + 1) (expression n) (k + 1)) m e c' := by
  match k, hk with
  | 0, _ | 1, _ | 2, _ | 3, _ | 4, _ | 5, _ => exact Iff.rfl

/-- What is found at a level of operators is what the parser of that level gives. -/
theorem operandAt_of_found (hk : k ≤ levels.length) (h : FoundAt n e c c' (k + 1))
    (hn : c.rest.length ≤ n) (hs : Stops (k + 1) c'.peek) :
    operandAt (n + 1) (expression n) k c = .ok e c' := by
  rcases Nat.eq_or_lt_of_le hk with rfl | hk
  · exact h hs (n + 1) (Nat.lt_succ_of_le hn)
  · have hl : levels[k]? = some levels[k] := List.getElem?_eq_getElem hk
    obtain ⟨m, hm, hc⟩ := (foundAt_operator_iff hk).1 h _ hl (hs.mono (Nat.le_succ _))
    obtain ⟨m, rfl⟩ := Nat.exists_eq_add_one.2 (Nat.zero_lt_of_lt hm)
    rw [hc, infixTail_stop (hs.no_operator hl)]

theorem expression_of_found (h : Phrase.Found c c' (.expr 0 e)) (hn : c.rest.length < n)
    (hs : Stops 0 c'.peek) : expression n c = .ok e c' := by
  obtain ⟨n, rfl⟩ := Nat.exists_eq_add_one.2 (Nat.zero_lt_of_lt hn)
  exact h n (Nat.le_of_lt_succ hn) hs

theorem foundAt_operator_of_tighter (hk : k < levels.length)
    (hl : c'.rest.length < c.rest.length) (hn : c.rest.length ≤ n)
    (h : FoundAt n e c c' (k + 2)) : FoundAt n e c c' (k + 1) := by
  rw [foundAt_operator_iff hk]
  intro level hlevel hs
  refine ⟨n + 1, by omega, ?_⟩
  rw [operandAt_of_level hlevel, infixChain, bind_of_ok (operandAt_of_found hk h hn hs)]

theorem expression_of_operand (h : operandAt (n + 1) (expression n) 0 c = .ok e c')
    (hs : Stops 0 c'.peek) : expression (n + 1) c = .ok e c' := by
  have ha : c'.peek.kind.isSymbol .assign = false := by
    refine Bool.eq_false_iff.2 fun ht => ?_
    rw [TokenKind.isSymbol_iff] at ht
    exact Nat.lt_irrefl 0 (hs 0 (by rw [ht]; rfl))
  rw [expression, assignment, bind_of_ok (p := operation _ _) h, bind_of_ok (peek_apply c'), ha,
    if_neg Bool.false_ne_true]
  rfl

theorem postfixChain_of_found (h : FoundAt n e c c' 8) (hs : Stops 8 c'.peek) :
    postfixChain (n + 1) (expression n) c = .ok e c' := by
  obtain ⟨m, hm, hc⟩ := h
  obtain ⟨m, rfl⟩ := Nat.exists_eq_add_one.2 (Nat.zero_lt_of_lt hm)
  rw [hc, postfixTail_stop hs]

theorem startsOperand_not_unary {kind : TokenKind} (h : startsOperand kind = true) :
    unaryOp? kind = none := by
  unfold startsOperand literal? at h
  unfold unaryOp?
  split <;> simp at h ⊢

theorem unary_of_operand {operand : Parser Expr} {m : Nat}
    (hst : startsOperand c.peek.kind = true) (h : operand c = .ok e c') :
    unary operand (m + 1) c = .ok e c' := by
  rw [unary, bind_of_ok (peek_apply c), startsOperand_not_unary hst]
  exact h

theorem unary_step {operand : Parser Expr} {m : Nat} {op : UnaryOp}
    (ho : unaryOp? c.peek.kind = some op) (h : unary operand m c.advance = .ok e c') :
    unary operand (m + 1) c = .ok (.unary op c.peek.line e) c' := by
  rw [unary, bind_of_ok (peek_apply c), ho]
  simp only
  rw [bind_of_ok (next_apply c), bind_of_ok h]
  rfl

/-- Up to its value, an assignment is read the same whether or not its target can be assigned
to. -/
theorem expression_of_assign {target value : Expr} {d d' : Cursor}
    (ht : operandAt (n + 1) (expression n) 0 c = .ok target d)
    (ho : d.peek.kind = .symbol .assign) (hv : expression n d.advance = .ok value d') :
    expression (n + 1) c =
      match assignTo? target value with
      | some e => .ok e d'
      | none => .ok target (d'.withError (.invalidAssignmentTarget d.peek.line)) := by
  rw [expression, assignment, bind_of_ok (p := operation _ _) ht, bind_of_ok (peek_apply d),
    TokenKind.isSymbol_iff.2 ho, if_pos rfl, bind_of_ok (next_apply d), bind_of_ok hv]
  cases assignTo? target value <;> rfl

/-- An expression of a tighter level is found at the next looser one. -/
theorem foundAt_of_tighter (hk : k < 9) (hr : Reads (.expr (k + 1) e) c c')
    (hn : c.rest.length ≤ n) (h : FoundAt n e c c' (k + 1)) : FoundAt n e c c' k := by
  match k, hk with
  | 0, _ =>
    intro hs
    exact expression_of_operand
      (operandAt_of_found (Nat.zero_le _) h hn (hs.mono (Nat.le_succ _))) hs
  | 7, _ =>
    intro hs m hm
    obtain ⟨m, rfl⟩ := Nat.exists_eq_add_one.2 (Nat.zero_lt_of_lt hm)
    exact unary_of_operand (hr.startsWith.2 (Nat.le_refl 8))
      (postfixChain_of_found h (hs.mono (Nat.le_succ _)))
  | 8, _ =>
    refine ⟨n + 1, Nat.lt_succ_of_lt (Nat.lt_of_lt_of_le hr.length_lt hn), ?_⟩
    rw [postfixChain, bind_of_ok h]
  | 1, _ | 2, _ | 3, _ | 4, _ | 5, _ | 6, _ =>
    exact foundAt_operator_of_tighter (by decide) hr.length_lt hn h

end Found

section Primary

variable {bound : Nat} {expr : Parser Expr} {c d : Cursor}

theorem primary_literal {value : Literal} (hv : literal? c.peek.kind = some value) :
    primary bound expr c = .ok (.literal value) c.advance := by
  rw [primary, bind_of_ok (peek_apply c), hv]
  rfl

theorem primary_use (hk : c.peek.kind = .ident) :
    primary bound expr c = .ok (.variable ⟨c.nextId, c.nextName⟩) c.advance.nextFresh := by
  rw [primary, bind_of_ok (peek_apply c)]
  simp only [hk, literal?]
  rw [bind_of_ok (next_apply c), bind_of_ok (freshId_apply _), Cursor.nextId_advance]
  rfl

theorem primary_self (hk : c.peek.kind = .keyword .selfKw) :
    primary bound expr c = .ok (.selfRef c.nextId c.peek.line) c.advance.nextFresh := by
  rw [primary, bind_of_ok (peek_apply c)]
  simp only [hk, literal?]
  rw [bind_of_ok (next_apply c), bind_of_ok (freshId_apply _), Cursor.nextId_advance]
  rfl

theorem primary_super (hk : c.peek.kind = .keyword .superKw)
    (hd : c.advance.peek.kind = .symbol .dot) (hn : c.advance.advance.peek.kind = .ident) :
    primary bound expr c = .ok (.superRef c.nextId c.peek.line c.advance.advance.nextName)
      c.advance.advance.advance.nextFresh := by
  rw [primary, bind_of_ok (peek_apply c)]
  simp only [hk, literal?]
  rw [bind_of_ok (next_apply c), bind_of_ok (expectSymbol_of_kind hd),
    bind_of_ok (name_of_kind hn), bind_of_ok (freshId_apply _), Cursor.nextId_advance,
    Cursor.nextId_advance, Cursor.nextId_advance]
  rfl

theorem primary_grouping {e : Expr} (hl : c.peek.kind = .symbol .leftParen)
    (he : expr c.advance = .ok e d) (hr : d.peek.kind = .symbol .rightParen) :
    primary bound expr c = .ok (.grouping e) d.advance := by
  rw [primary, bind_of_ok (peek_apply c)]
  simp only [hl, literal?]
  rw [bind_of_ok (next_apply c), bind_of_ok he, bind_of_ok (expectSymbol_of_kind hr)]
  rfl

theorem primary_array {es : List Expr} (hl : c.peek.kind = .symbol .leftBracket)
    (hes : itemsUpTo bound .rightBracket expr c.advance = .ok es d)
    (hr : d.peek.kind = .symbol .rightBracket) :
    primary bound expr c = .ok (.array es) d.advance := by
  rw [primary, bind_of_ok (peek_apply c)]
  simp only [hl, literal?]
  rw [bind_of_ok (next_apply c), bind_of_ok hes, bind_of_ok (expectSymbol_of_kind hr)]
  rfl

end Primary

/-- Expressions between commas are found before a closing bracket. -/
theorem itemsUpTo_of_found {n : Nat} {stop : Symbol} {es : List Expr} {c c' : Cursor}
    (hr : Reads (.list es) c c') (h : Phrase.Found c c' (.list es)) (hn : c.rest.length < n)
    (hs : c'.peek.kind = .symbol stop) (hstop : startsExpression (.symbol stop) = false)
    (hext : extendsAt (.symbol stop) = none) (hcomma : stop ≠ .comma) :
    itemsUpTo (n + 1) stop (expression n) c = .ok es c' := by
  -- the list is not taken for an empty one
  have hne : c.peek.kind ≠ .symbol stop := by
    intro hk
    have hst : startsExpression c.peek.kind = true := hr.startsWith
    rw [hk, hstop] at hst
    cases hst
  rw [itemsUpTo_some hne]
  exact h n (n + 1) hn (Nat.lt_succ_of_lt hn) (stops_of_none (hs ▸ hext))
    (by rw [hs]; simpa using hcomma)

section Constructs

variable {c c' d d' : Cursor} {e e' : Expr} {es : List Expr}

theorem found_grouping (hl : c.peek.kind = .symbol .leftParen)
    (hr : d.peek.kind = .symbol .rightParen) (he : (Phrase.expr 0 e).Found c.advance d) :
    (Phrase.expr 9 (.grouping e)).Found c d.advance := by
  intro n hn
  have hlt := Cursor.length_lt_of_symbol hl
  have hs : Stops 0 d.peek := stops_of_none (by rw [hr]; rfl)
  exact primary_grouping hl (expression_of_found he (by omega) hs) hr

theorem found_array (hl : c.peek.kind = .symbol .leftBracket)
    (hr : d.peek.kind = .symbol .rightBracket) (hes : Reads (.list es) c.advance d)
    (h : (Phrase.list es).Found c.advance d) : (Phrase.expr 9 (.array es)).Found c d.advance := by
  intro n hn
  have hlt := Cursor.length_lt_of_symbol hl
  exact primary_array hl (itemsUpTo_of_found hes h (by omega) hr rfl rfl (by decide)) hr

/-- The chain stands after `e`, and what comes there takes one of its turns. -/
theorem found_postfix (h : (Phrase.expr 8 e).Found c d) (hlt : c'.rest.length < d.rest.length)
    (hstep : ∀ n m, c.rest.length ≤ n →
      postfixTail (n + 1) (expression n) (m + 1) e d = postfixTail (n + 1) (expression n) m e' c') :
    (Phrase.expr 8 e').Found c c' := by
  intro n hn
  obtain ⟨m, hm, hc⟩ := h n hn
  obtain ⟨m, rfl⟩ := Nat.exists_eq_add_one.2 (Nat.zero_lt_of_lt hm)
  exact ⟨m, by omega, hc.trans (hstep n m hn)⟩

theorem found_emptyCall (hl : d.peek.kind = .symbol .leftParen)
    (hr : d.advance.peek.kind = .symbol .rightParen) (h : (Phrase.expr 8 e).Found c d) :
    (Phrase.expr 8 (.call e d.advance.peek.line [])).Found c d.advance.advance := by
  have hlt := Cursor.length_lt_of_symbol hl
  have hlt' := Cursor.length_lt_of_symbol hr
  exact found_postfix h (by omega) fun n m _ => postfixTail_call hl (itemsUpTo_stop hr) hr

theorem found_call (hl : d.peek.kind = .symbol .leftParen)
    (hr : d'.peek.kind = .symbol .rightParen) (hf : Reads (.expr 8 e) c d)
    (hes : Reads (.list es) d.advance d') (h : (Phrase.expr 8 e).Found c d)
    (h' : (Phrase.list es).Found d.advance d') :
    (Phrase.expr 8 (.call e d'.peek.line es)).Found c d'.advance := by
  have hf := hf.length_lt
  have hlt := Cursor.length_lt_of_symbol hl
  have hlt' := Cursor.length_lt_of_symbol hr
  have hle := hes.length_lt
  refine found_postfix h (by omega) fun n m hn => postfixTail_call hl ?_ hr
  exact itemsUpTo_of_found hes h' (by omega) hr rfl rfl (by decide)

theorem found_index (hl : d.peek.kind = .symbol .leftBracket)
    (hr : d'.peek.kind = .symbol .rightBracket) (he : Reads (.expr 8 e) c d)
    (hi : Reads (.expr 0 e') d.advance d') (h : (Phrase.expr 8 e).Found c d)
    (h' : (Phrase.expr 0 e').Found d.advance d') :
    (Phrase.expr 8 (.index e d.peek.line e')).Found c d'.advance := by
  have he := he.length_lt
  have hlt := Cursor.length_lt_of_symbol hl
  have hlt' := Cursor.length_lt_of_symbol hr
  have hle := hi.length_lt
  have hs : Stops 0 d'.peek := stops_of_none (by rw [hr]; rfl)
  exact found_postfix h (by omega) fun n m hn =>
    postfixTail_index hl (expression_of_found h' (by omega) hs) hr

theorem found_get (hd : d.peek.kind = .symbol .dot) (hn : d.advance.peek.kind = .ident)
    (h : (Phrase.expr 8 e).Found c d) :
    (Phrase.expr 8 (.get e d.advance.nextName)).Found c d.advance.advance := by
  have hlt := Cursor.length_lt_of_symbol hd
  have hle := d.advance.length_rest_advance_le
  exact found_postfix h (by omega) fun n m _ => postfixTail_get hd hn

theorem found_unary {op : UnaryOp} (ho : unaryOp? c.peek.kind = some op)
    (h : (Phrase.expr 7 e).Found c.advance d) :
    (Phrase.expr 7 (.unary op c.peek.line e)).Found c d := by
  intro n hn hs m hm
  obtain ⟨m, rfl⟩ := Nat.exists_eq_add_one.2 (Nat.zero_lt_of_lt hm)
  have hlt := Cursor.length_rest_advance_lt (word_of_unaryOp? ho).1
  exact unary_step ho (h n (by omega) hs m (by omega))

theorem found_binary {k : Nat} {level : Level} {combine : Combine} (hk : levels[k]? = some level)
    (ho : level d.peek = some combine) (hl : Reads (.expr (k + 1) e) c d)
    (hr : Reads (.expr (k + 2) e') d.advance d') (h : (Phrase.expr (k + 1) e).Found c d)
    (h' : (Phrase.expr (k + 2) e').Found d.advance d') :
    (Phrase.expr (k + 1) (combine e e')).Found c d' := by
  intro n hn
  have hlt : k < levels.length := (List.getElem?_eq_some_iff.1 hk).1
  rw [foundAt_operator_iff hlt]
  intro level' hk' hs
  obtain rfl : level = level' := Option.some.inj (hk.symm.trans hk')
  -- the operator ends the left operand: no tighter level goes on with it
  obtain ⟨m, hm, hc⟩ := (foundAt_operator_iff hlt).1 (h n hn) level hk
    (stops_of_extendsAt (extendsAt_of_operator hk ho))
  obtain ⟨m, rfl⟩ := Nat.exists_eq_add_one.2 (Nat.zero_lt_of_lt hm)
  have hl := hl.length_lt
  have hr := hr.length_lt
  have hle := d.length_rest_advance_le
  refine ⟨m, by omega, ?_⟩
  rw [hc, infixTail_step ho (operandAt_of_found hlt (h' n (by omega)) (by omega) hs)]

/-- The value is an expression one bound deeper, and the target uses up a token at least. -/
theorem expression_of_target {n : Nat} {target value : Expr} (ht : Reads (.expr 1 target) c d)
    (ho : d.peek.kind = .symbol .assign) (h : (Phrase.expr 1 target).Found c d)
    (h' : (Phrase.expr 0 value).Found d.advance d') (hn : c.rest.length ≤ n)
    (hs : Stops 0 d'.peek) :
    expression (n + 1) c =
      match assignTo? target value with
      | some e => .ok e d'
      | none => .ok target (d'.withError (.invalidAssignmentTarget d.peek.line)) := by
  have hlt := ht.length_lt
  have hlt' := Cursor.length_lt_of_symbol ho
  have hext : Stops 1 d.peek := stops_of_extendsAt (by rw [ho]; rfl)
  exact expression_of_assign (operandAt_of_found (Nat.zero_le _) (h n hn) hn hext) ho
    (expression_of_found h' (by omega) hs)

theorem found_one (h : (Phrase.expr 0 e).Found c c') : (Phrase.list [e]).Found c c' := by
  intro n m hn hm hs hc
  obtain ⟨m, rfl⟩ := Nat.exists_eq_add_one.2 (Nat.zero_lt_of_lt hm)
  rw [commaSeparated, bind_of_ok (expression_of_found h hn hs),
    bind_of_ok (acceptSymbol_of_ne hc), if_neg Bool.false_ne_true]
  rfl

theorem found_more (hc : d.peek.kind = .symbol .comma) (he : Reads (.expr 0 e) c d)
    (h : (Phrase.expr 0 e).Found c d) (h' : (Phrase.list es).Found d.advance c') :
    (Phrase.list (e :: es)).Found c c' := by
  intro n m hn hm hs hne
  obtain ⟨m, rfl⟩ := Nat.exists_eq_add_one.2 (Nat.zero_lt_of_lt hm)
  have he := he.length_lt
  have hle := d.length_rest_advance_le
  -- the comma carries on the list, never the expression before it
  have hext : Stops 0 d.peek := stops_of_none (by rw [hc]; rfl)
  rw [commaSeparated, bind_of_ok (expression_of_found h hn hext),
    bind_of_ok (acceptSymbol_of_kind hc), if_pos rfl,
    bind_of_ok (h' n m (by omega) (by omega) hs hne)]
  rfl

end Constructs

theorem Reads.found {p : Phrase} {c c' : Cursor} (h : Reads p c c') : p.Found c c' := by
  induction h with
  | literal hv => exact fun n _ => primary_literal hv
  | use hk => exact fun n _ => primary_use hk
  | selfRef hk => exact fun n _ => primary_self hk
  | superRef hk hd hn => exact fun n _ => primary_super hk hd hn
  | grouping hl _ hr ih => exact found_grouping hl hr ih
  | emptyArray hl hr => exact fun n _ => primary_array hl (itemsUpTo_stop hr) hr
  | array hl hes hr ih => exact found_array hl hr hes ih
  | emptyCall _ hl hr ih => exact found_emptyCall hl hr ih
  | call hf hl hes hr ih ih' => exact found_call hl hr hf hes ih ih'
  | index he hl hi hr ih ih' => exact found_index hl hr he hi ih ih'
  | get _ hd hn ih => exact found_get hd hn ih
  | unary ho _ ih => exact found_unary ho ih
  | binary hk hl ho hr ih ih' => exact found_binary hk ho hl hr ih ih'
  | assign ht ho _ he ih ih' =>
    intro n hn hs
    rw [expression_of_target ht ho ih ih' hn hs, he]
  | misassign ht ho _ he ih ih' =>
    intro n hn hs
    rw [expression_of_target ht ho ih ih' hn hs, he]
  | tighter hk he ih => exact fun n hn => foundAt_of_tighter hk he hn (ih n hn)
  | one _ ih => exact found_one ih
  | more he hc _ ih ih' => exact found_more hc he ih ih'

end Jal
