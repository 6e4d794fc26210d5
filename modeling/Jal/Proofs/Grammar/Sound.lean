import Jal.Proofs.Grammar.Derivation

namespace Jal

namespace Parser

theorem bind_eq_ok {α β : Type} {p : Parser α} {f : α → Parser β} {c c' : Cursor} {b : β} :
    (p >>= f) c = .ok b c' ↔ ∃ a d, p c = .ok a d ∧ f a d = .ok b c' := by
  simp only [bind, EStateM.bind]
  cases h : p c with
  | ok a d =>
    refine ⟨fun hf => ⟨a, d, rfl, hf⟩, ?_⟩
    rintro ⟨a', d', ⟨⟩, hf⟩
    exact hf
  | error e d => simp

theorem pure_eq_ok {α : Type} {a b : α} {c c' : Cursor} :
    (pure a : Parser α) c = .ok b c' ↔ b = a ∧ c' = c := by
  simp only [pure, EStateM.pure, EStateM.Result.ok.injEq]
  exact ⟨fun h => ⟨h.1.symm, h.2.symm⟩, fun h => ⟨h.1.symm, h.2.symm⟩⟩

theorem peek_apply (c : Cursor) : peek c = .ok c.peek c := rfl

theorem next_apply (c : Cursor) : next c = .ok c.peek c.advance := rfl

theorem freshId_apply (c : Cursor) : freshId c = .ok c.nextId c.nextFresh := rfl

theorem check_apply (p : TokenKind → Bool) (c : Cursor) : check p c = .ok (p c.peek.kind) c := rfl

theorem not_exhausted {α : Type} {a : α} {c c' : Cursor} :
    (exhausted : Parser α) c ≠ .ok a c' := nofun

theorem expect_eq_ok {p : TokenKind → Bool} {what : String} {t : Token} {c c' : Cursor} :
    expect p what c = .ok t c' ↔ p c.peek.kind = true ∧ t = c.peek ∧ c' = c.advance := by
  unfold expect Cursor.nextIs
  split
  · rename_i h
    simp only [h, EStateM.Result.ok.injEq, true_and]
    exact ⟨fun h => ⟨h.1.symm, h.2.symm⟩, fun h => ⟨h.1.symm, h.2.symm⟩⟩
  · rename_i h
    simp [h, unexpected]

theorem expectSymbol_eq_ok {s : Symbol} {what : String} {t : Token} {c c' : Cursor} :
    expectSymbol s what c = .ok t c' ↔ c.peek.kind = .symbol s ∧ t = c.peek ∧ c' = c.advance := by
  rw [expectSymbol, expect_eq_ok, TokenKind.isSymbol_iff]

theorem name_eq_ok {what : String} {n : Name} {c c' : Cursor} :
    name what c = .ok n c' ↔ c.peek.kind = .ident ∧ n = c.nextName ∧ c' = c.advance := by
  simp only [name, bind_eq_ok, expect_eq_ok, TokenKind.isIdent_iff, pure_eq_ok]
  constructor
  · rintro ⟨t, d, ⟨hk, rfl, rfl⟩, rfl, rfl⟩
    exact ⟨hk, rfl, rfl⟩
  · rintro ⟨hk, rfl, rfl⟩
    exact ⟨_, _, ⟨hk, rfl, rfl⟩, rfl, rfl⟩

theorem accept_apply (p : TokenKind → Bool) (c : Cursor) :
    accept p c = .ok (p c.peek.kind) (if p c.peek.kind then c.advance else c) := by
  unfold accept Cursor.nextIs
  cases p c.peek.kind <;> rfl

def Derives (level : Nat) (p : Parser Expr) : Prop :=
  ∀ c e c', p c = .ok e c' → Reads (.expr level e) c c'

theorem commaSeparated_reads {item : Parser Expr} (hi : Derives 0 item) {n : Nat} {c c' : Cursor}
    {es : List Expr} (h : commaSeparated item n c = .ok es c') : Reads (.list es) c c' := by
  induction n generalizing c es with
  | zero => exact absurd h not_exhausted
  | succ n ih =>
    simp only [commaSeparated, acceptSymbol, bind_eq_ok, accept_apply] at h
    obtain ⟨e, d, he, comma, d', ⟨⟩, h⟩ := h
    by_cases hc : d.peek.kind = .symbol .comma
    · have ht : TokenKind.isSymbol .comma d.peek.kind = true := TokenKind.isSymbol_iff.2 hc
      simp only [ht, if_true, bind_eq_ok, pure_eq_ok] at h
      obtain ⟨others, d', hes, rfl, rfl⟩ := h
      exact .more (hi _ _ _ he) hc (ih hes)
    · have hf : TokenKind.isSymbol .comma d.peek.kind = false :=
        Bool.eq_false_iff.2 (mt TokenKind.isSymbol_iff.1 hc)
      simp only [hf, Bool.false_eq_true, if_false, pure_eq_ok] at h
      obtain ⟨rfl, rfl⟩ := h
      exact .one (hi _ _ _ he)

theorem itemsUpTo_reads {item : Parser Expr} (hi : Derives 0 item) {n : Nat} {stop : Symbol}
    {c c' : Cursor} {es : List Expr} (h : itemsUpTo n stop item c = .ok es c') :
    es = [] ∧ c' = c ∧ c.peek.kind = .symbol stop ∨ Reads (.list es) c c' := by
  simp only [itemsUpTo, checkSymbol, bind_eq_ok, check_apply] at h
  obtain ⟨stopped, d, ⟨⟩, h⟩ := h
  split at h
  · rename_i hs
    rw [pure_eq_ok] at h
    exact .inl ⟨h.1, h.2, TokenKind.isSymbol_iff.1 hs⟩
  · exact .inr (commaSeparated_reads hi h)

theorem primary_reads {bound : Nat} {expr : Parser Expr} (hx : Derives 0 expr) :
    Derives 9 (primary bound expr) := by
  intro c e c' h
  simp only [primary, bind_eq_ok, peek_apply] at h
  obtain ⟨t, d, ⟨⟩, h⟩ := h
  cases hv : literal? c.peek.kind with
  | some value =>
    simp only [hv, bind_eq_ok, next_apply, pure_eq_ok] at h
    obtain ⟨_, _, ⟨⟩, rfl, rfl⟩ := h
    exact .literal hv
  | none =>
    simp only [hv] at h
    generalize hk : c.peek.kind = kind at h
    split at h
    any_goals simp only [bind_eq_ok, next_apply, freshId_apply, expectSymbol_eq_ok, name_eq_ok,
      pure_eq_ok] at h
    -- a name, `self`, `super`, brackets of both kinds, and what begins no expression
    · obtain ⟨_, _, ⟨⟩, _, _, ⟨⟩, rfl, rfl⟩ := h
      rw [Cursor.nextId_advance]
      exact .use hk
    · obtain ⟨_, _, ⟨⟩, _, _, ⟨⟩, rfl, rfl⟩ := h
      rw [Cursor.nextId_advance]
      exact .selfRef hk
    · obtain ⟨_, _, ⟨⟩, _, _, ⟨hd, rfl, rfl⟩, _, _, ⟨hn, rfl, rfl⟩, _, _, ⟨⟩, rfl, rfl⟩ := h
      rw [Cursor.nextId_advance, Cursor.nextId_advance, Cursor.nextId_advance]
      exact .superRef hk hd hn
    · obtain ⟨_, _, ⟨⟩, _, _, he, _, _, ⟨hr, rfl, rfl⟩, rfl, rfl⟩ := h
      exact .grouping hk (hx _ _ _ he) hr
    · obtain ⟨_, _, ⟨⟩, _, _, he, _, _, ⟨hr, rfl, rfl⟩, rfl, rfl⟩ := h
      rcases itemsUpTo_reads hx he with ⟨rfl, rfl, hr⟩ | he
      · exact .emptyArray hk hr
      · exact .array hk he hr
    · exact absurd h nofun

theorem postfixTail_reads {bound : Nat} {expr : Parser Expr} (hx : Derives 0 expr) {n : Nat}
    {b c c' : Cursor} {e e' : Expr} (he : Reads (.expr 8 e) b c)
    (h : postfixTail bound expr n e c = .ok e' c') : Reads (.expr 8 e') b c' := by
  -- the chain that is read so far grows with every turn, and still begins at `b`
  induction n generalizing c e with
  | zero => exact absurd h not_exhausted
  | succ n ih =>
    simp only [postfixTail, bind_eq_ok, peek_apply] at h
    obtain ⟨t, d, ⟨⟩, h⟩ := h
    generalize hk : c.peek.kind = kind at h
    split at h
    all_goals simp only [bind_eq_ok, next_apply, expectSymbol_eq_ok, name_eq_ok, pure_eq_ok] at h
    -- a call, a position, a property, and the end of the chain
    · obtain ⟨_, _, ⟨⟩, es, _, hes, _, _, ⟨hr, rfl, rfl⟩, h⟩ := h
      rcases itemsUpTo_reads hx hes with ⟨rfl, rfl, _⟩ | hes
      · exact ih (.emptyCall he hk hr) h
      · exact ih (.call he hk hes hr) h
    · obtain ⟨_, _, ⟨⟩, i, _, hi, _, _, ⟨hr, rfl, rfl⟩, h⟩ := h
      exact ih (.index he hk (hx _ _ _ hi) hr) h
    · obtain ⟨_, _, ⟨⟩, _, _, ⟨hn, rfl, rfl⟩, h⟩ := h
      exact ih (.get he hk hn) h
    · obtain ⟨rfl, rfl⟩ := h
      exact he

theorem postfixChain_reads {bound : Nat} {expr : Parser Expr} (hx : Derives 0 expr) :
    Derives 8 (postfixChain bound expr) := by
  intro c e c' h
  simp only [postfixChain, bind_eq_ok] at h
  obtain ⟨e', d, he', h⟩ := h
  exact postfixTail_reads hx (.tighter (by decide) (primary_reads hx _ _ _ he')) h

theorem unary_reads {operand : Parser Expr} (ho : Derives 8 operand) (n : Nat) :
    Derives 7 (unary operand n) := by
  induction n with
  | zero => exact fun c e c' h => absurd h not_exhausted
  | succ n ih =>
    intro c e c' h
    simp only [unary, bind_eq_ok, peek_apply] at h
    obtain ⟨t, d, ⟨⟩, h⟩ := h
    cases hop : unaryOp? c.peek.kind with
    | none =>
      simp only [hop] at h
      exact .tighter (by decide) (ho _ _ _ h)
    | some op =>
      simp only [hop, bind_eq_ok, next_apply, pure_eq_ok] at h
      obtain ⟨_, _, ⟨⟩, e', d, he', rfl, rfl⟩ := h
      exact .unary hop (ih _ _ _ he')

theorem infixTail_reads {k n : Nat} {level : Level} {operand : Parser Expr}
    (hk : levels[k]? = some level) (ho : Derives (k + 2) operand) {b c c' : Cursor}
    {left e : Expr} (hl : Reads (.expr (k + 1) left) b c)
    (h : infixTail level operand n left c = .ok e c') : Reads (.expr (k + 1) e) b c' := by
  induction n generalizing c left with
  | zero => exact absurd h not_exhausted
  | succ n ih =>
    simp only [infixTail, bind_eq_ok, peek_apply] at h
    obtain ⟨t, d, ⟨⟩, h⟩ := h
    cases hop : level c.peek with
    | none =>
      simp only [hop, pure_eq_ok] at h
      obtain ⟨rfl, rfl⟩ := h
      exact hl
    | some combine =>
      simp only [hop, bind_eq_ok, next_apply] at h
      obtain ⟨_, _, ⟨⟩, right, d, hr, h⟩ := h
      -- what was read up to here is the left operand of the next turn
      exact ih (.binary hk hl hop (ho _ _ _ hr)) h

theorem infixChain_reads {bound k : Nat} {level : Level} {operand : Parser Expr}
    (hk : levels[k]? = some level) (ho : Derives (k + 2) operand) :
    Derives (k + 1) (infixChain bound level operand) := by
  intro c e c' h
  simp only [infixChain, bind_eq_ok] at h
  obtain ⟨left, d, hl, h⟩ := h
  have hlt : k < levels.length := (List.getElem?_eq_some_iff.1 hk).1
  exact infixTail_reads hk ho (.tighter (Nat.lt_trans (Nat.succ_lt_succ hlt) (by decide))
    (ho _ _ _ hl)) h

/-- The parser of an operand at a level of operators: that level with all tighter ones. -/
def operandAt (bound : Nat) (expr : Parser Expr) (k : Nat) : Parser Expr :=
  (levels.drop k).foldr (infixChain bound) (unary (postfixChain bound expr) bound)

theorem operandAt_of_level {bound k : Nat} {expr : Parser Expr} {level : Level}
    (hk : levels[k]? = some level) :
    operandAt bound expr k = infixChain bound level (operandAt bound expr (k + 1)) := by
  obtain ⟨hlt, rfl⟩ := List.getElem?_eq_some_iff.1 hk
  rw [operandAt, List.drop_eq_getElem_cons hlt]
  rfl

theorem operandAt_reads {bound : Nat} {expr : Parser Expr} (hx : Derives 0 expr) {k : Nat}
    (hk : k ≤ levels.length) : Derives (k + 1) (operandAt bound expr k) := by
  -- from the tightest level outwards
  obtain ⟨j, hj⟩ := Nat.le.dest hk
  induction j generalizing k with
  | zero =>
    obtain rfl : k = levels.length := hj
    exact unary_reads (postfixChain_reads hx) bound
  | succ j ih =>
    have hlt : k < levels.length := by omega
    have hl : levels[k]? = some levels[k] := List.getElem?_eq_getElem hlt
    rw [operandAt_of_level hl]
    exact infixChain_reads hl (ih hlt (by omega))

theorem assignment_reads {bound : Nat} {expr : Parser Expr} (hx : Derives 0 expr) :
    Derives 0 (assignment bound expr) := by
  intro c e c' h
  simp only [assignment, bind_eq_ok, peek_apply] at h
  obtain ⟨target, d, ht, t, d', ⟨⟩, h⟩ := h
  have ht : Reads (.expr 1 target) c d := operandAt_reads hx (Nat.zero_le _) _ _ _ ht
  split at h
  · rename_i hk
    simp only [bind_eq_ok, next_apply] at h
    obtain ⟨_, _, ⟨⟩, value, d', hv, h⟩ := h
    have hk := TokenKind.isSymbol_iff.1 hk
    cases hto : assignTo? target value with
    | some e' =>
      simp only [hto, pure_eq_ok] at h
      obtain ⟨rfl, rfl⟩ := h
      exact .assign ht hk (hx _ _ _ hv) hto
    | none =>
      simp only [hto, bind_eq_ok, pure_eq_ok] at h
      obtain ⟨_, _, ⟨⟩, rfl, rfl⟩ := h
      exact .misassign ht hk (hx _ _ _ hv) hto
  · rw [pure_eq_ok] at h
    obtain ⟨rfl, rfl⟩ := h
    exact .tighter (by decide) ht

theorem expression_reads (n : Nat) : Derives 0 (expression n) := by
  -- the bound counts how deep expressions are nested, not how long they are
  induction n with
  | zero => exact fun c e c' h => absurd h not_exhausted
  | succ n ih => exact assignment_reads ih

/-- An expression that is parsed without an error about what is assigned to is spelled by the
tokens that were used up, and its operands bind as their places demand. -/
theorem expression_sound {n : Nat} {c c' : Cursor} {e : Expr} (h : expression n c = .ok e c')
    (hno : ∀ line, .invalidAssignmentTarget line ∉ c.newErrors c') :
    (∃ used, c.rest = used ++ c'.rest ∧ used.map Token.word = e.words) ∧ e.Layered := by
  have hr : Reads (.expr 0 e) c c' := expression_reads n c e c' h
  have he : c'.errors = c.errors := hr.misassigns.errors_eq hno
  exact ⟨hr.spells he, hr.layered.2⟩

/-- The assignment `x.y = -z or w` before a closing brace. -/
theorem expression_sound_assignment :
    let token (kind : TokenKind) (lexeme : String) : Token := ⟨kind, lexeme, 1⟩
    let rest := [token (.symbol .rightBrace) "\x7d"]
    let c : Cursor :=
      { previous := none, endLine := 1, errors := [], nextId := 0
        rest := [token .ident "x", token (.symbol .dot) ".", token .ident "y",
          token (.symbol .assign) "=", token (.symbol .minus) "-", token .ident "z",
          token (.keyword .orKw) "or", token .ident "w"] ++ rest }
    let e : Expr :=
      .set (.variable ⟨0, ⟨"x", 1⟩⟩) ⟨"y", 1⟩
        (.logical .or (.unary .negate 1 (.variable ⟨1, ⟨"z", 1⟩⟩)) (.variable ⟨2, ⟨"w", 1⟩⟩))
    let c' : Cursor := { c with previous := some .ident, rest, nextId := 3 }
    expression 10 c = .ok e c' ∧
      ((∃ used, c.rest = used ++ c'.rest ∧ used.map Token.word = e.words) ∧ e.Layered) := by
  intro token rest c e c'
  have h : expression 10 c = .ok e c' := rfl
  exact ⟨h, expression_sound h nofun⟩

end Parser

end Jal
