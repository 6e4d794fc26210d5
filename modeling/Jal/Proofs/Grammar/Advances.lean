import Mathlib.Data.List.TakeDrop
import Jal.Grammar.Program
import Jal.Proofs.Grammar.Sound

namespace Jal

structure Cursor.Advances (c c' : Cursor) : Prop where
  rest : c'.rest <:+ c.rest
  errors : c.errors <:+ c'.errors
  nextId : c.nextId ≤ c'.nextId

namespace Cursor

theorem Advances.refl (c : Cursor) : c.Advances c :=
  ⟨List.suffix_refl _, List.suffix_refl _, Nat.le_refl _⟩

theorem Advances.trans {c d d' : Cursor} (h : c.Advances d) (h' : d.Advances d') :
    c.Advances d' :=
  ⟨h'.rest.trans h.rest, h.errors.trans h'.errors, Nat.le_trans h.nextId h'.nextId⟩

theorem advances_advance (c : Cursor) : c.Advances c.advance := by
  refine ⟨?_, by simp, by simp⟩
  unfold advance
  split
  · exact List.suffix_refl _
  · simp [*]

theorem advances_skipEols (c : Cursor) : c.Advances c.skipEols := by
  refine ⟨?_, List.suffix_refl _, Nat.le_refl _⟩
  simp only [skipEols, List.span_eq_takeWhile_dropWhile]
  exact List.dropWhile_suffix _

theorem advances_withError (c : Cursor) (e : ParseError) : c.Advances (c.withError e) :=
  ⟨List.suffix_refl _, List.suffix_cons _ _, Nat.le_refl _⟩

theorem skipStatement_suffix (previous : Option TokenKind) (ts : List Token) :
    (skipStatement previous ts).2 <:+ ts := by
  induction ts generalizing previous with
  | nil => exact List.suffix_refl _
  | cons t rest ih =>
    rw [skipStatement]
    split
    · exact List.suffix_refl _
    · exact (ih _).trans (List.suffix_cons _ _)

theorem advances_synchronize (start c : Cursor) : c.Advances (start.synchronize c) := by
  have skip (d : Cursor) : d.Advances
      { d with
        previous := (skipStatement d.previous d.rest).1
        rest := (skipStatement d.previous d.rest).2 } :=
    ⟨skipStatement_suffix _ _, List.suffix_refl _, Nat.le_refl _⟩
  unfold synchronize
  -- a parser that failed right away steps over one token first
  split
  · exact c.advances_advance.trans (skip _)
  · exact skip c

end Cursor

namespace Parser

/-- The cursor at which a parser ends, whether it succeeds or fails. -/
def final {α : Type} (p : Parser α) (c : Cursor) : Cursor :=
  match p c with
  | .ok _ c' => c'
  | .error _ c' => c'

/-- However `p` ends, the cursor has only moved on. -/
def Advancing {α : Type} (p : Parser α) : Prop := ∀ c : Cursor, c.Advances (p.final c)

section Steps

variable {α β : Type}

theorem Advancing.of_ok {p : Parser α} (h : Advancing p) {c c' : Cursor} {a : α}
    (hp : p c = .ok a c') : c.Advances c' := by
  have := h c
  rwa [final, hp] at this

theorem Advancing.of_error {p : Parser α} (h : Advancing p) {c c' : Cursor} {e : ParseError}
    (hp : p c = .error e c') : c.Advances c' := by
  have := h c
  rwa [final, hp] at this

theorem advancing_pure (a : α) : Advancing (pure a : Parser α) := fun c => .refl c

theorem advancing_throw (e : ParseError) : Advancing (throw e : Parser α) := fun c => .refl c

theorem advancing_unexpected (what : String) : Advancing (unexpected what : Parser α) :=
  fun c => .refl c

theorem advancing_exhausted : Advancing (exhausted : Parser α) := fun c => .refl c

theorem advancing_get : Advancing (get : Parser Cursor) := fun c => .refl c

theorem advancing_peek : Advancing peek := fun c => .refl c

theorem advancing_check (p : TokenKind → Bool) : Advancing (check p) := fun c => .refl c

theorem advancing_next : Advancing next := fun c => c.advances_advance

theorem advancing_freshId : Advancing freshId :=
  fun _ => ⟨List.suffix_refl _, List.suffix_refl _, Nat.le_succ _⟩

theorem advancing_report (e : ParseError) : Advancing (report e) := fun c => c.advances_withError e

theorem advancing_skipEols : Advancing skipEols := fun c => c.advances_skipEols

theorem advancing_bind {p : Parser α} {f : α → Parser β} (h : Advancing p)
    (h' : ∀ a, Advancing (f a)) : Advancing (p >>= f) := by
  intro c
  have hc := h c
  cases hp : p c with
  | ok a d =>
    rw [final, hp] at hc
    have hf : (p >>= f).final c = (f a).final d := by
      simp only [final, bind, EStateM.bind, hp]
    rw [hf]
    exact hc.trans (h' a d)
  | error e d =>
    rw [final, hp] at hc
    have hf : (p >>= f).final c = d := by simp only [final, bind, EStateM.bind, hp]
    rwa [hf]

theorem advancing_map {p : Parser α} {f : α → β} (h : Advancing p) : Advancing (f <$> p) := by
  intro c
  have hc := h c
  cases hp : p c with
  | ok a d => simpa only [final, Functor.map, EStateM.map, hp] using hc
  | error e d => simpa only [final, Functor.map, EStateM.map, hp] using hc

theorem advancing_accept (p : TokenKind → Bool) : Advancing (accept p) := by
  intro c
  by_cases h : c.nextIs p = true
  · simpa only [final, accept, if_pos h] using c.advances_advance
  · simpa only [final, accept, if_neg h] using .refl c

theorem advancing_expect (p : TokenKind → Bool) (what : String) : Advancing (expect p what) := by
  intro c
  by_cases h : c.nextIs p = true
  · simpa only [final, expect, if_pos h] using c.advances_advance
  · simpa only [final, expect, if_neg h] using .refl c

theorem advancing_name (what : String) : Advancing (name what) :=
  advancing_bind (advancing_expect _ _) fun _ => advancing_pure _

end Steps

section Expressions

variable {α : Type}

theorem advancing_infixTail (level : Level) {operand : Parser Expr} (ho : Advancing operand)
    (n : Nat) (left : Expr) : Advancing (infixTail level operand n left) := by
  induction n generalizing left with
  | zero => exact advancing_exhausted
  | succ n ih =>
    refine advancing_bind advancing_peek fun t => ?_
    split
    · exact advancing_pure _
    · refine advancing_bind advancing_next fun _ => ?_
      exact advancing_bind ho fun right => ih _

theorem advancing_infixChain (bound : Nat) (level : Level) {operand : Parser Expr}
    (ho : Advancing operand) : Advancing (infixChain bound level operand) :=
  advancing_bind ho fun left => advancing_infixTail level ho bound left

theorem advancing_commaSeparated {item : Parser α} (hi : Advancing item) (n : Nat) :
    Advancing (commaSeparated item n) := by
  induction n with
  | zero => exact advancing_exhausted
  | succ n ih =>
    refine advancing_bind hi fun first => ?_
    refine advancing_bind (advancing_accept _) fun comma => ?_
    split
    · exact advancing_bind ih fun _ => advancing_pure _
    · exact advancing_pure _

theorem advancing_itemsUpTo (bound : Nat) (stop : Symbol) {item : Parser α}
    (hi : Advancing item) : Advancing (itemsUpTo bound stop item) := by
  refine advancing_bind (advancing_check _) fun stopped => ?_
  split
  · exact advancing_pure _
  · exact advancing_commaSeparated hi bound

theorem advancing_primary (bound : Nat) {expr : Parser Expr} (hx : Advancing expr) :
    Advancing (primary bound expr) := by
  refine advancing_bind advancing_peek fun t => ?_
  split
  · exact advancing_bind advancing_next fun _ => advancing_pure _
  · split
    · refine advancing_bind advancing_next fun _ => ?_
      exact advancing_bind advancing_freshId fun _ => advancing_pure _
    · refine advancing_bind advancing_next fun _ => ?_
      exact advancing_bind advancing_freshId fun _ => advancing_pure _
    · refine advancing_bind advancing_next fun _ => ?_
      refine advancing_bind (advancing_expect _ _) fun _ => ?_
      refine advancing_bind (advancing_name _) fun _ => ?_
      exact advancing_bind advancing_freshId fun _ => advancing_pure _
    · refine advancing_bind advancing_next fun _ => ?_
      refine advancing_bind hx fun _ => ?_
      exact advancing_bind (advancing_expect _ _) fun _ => advancing_pure _
    · refine advancing_bind advancing_next fun _ => ?_
      refine advancing_bind (advancing_itemsUpTo bound _ hx) fun _ => ?_
      exact advancing_bind (advancing_expect _ _) fun _ => advancing_pure _
    · exact advancing_unexpected _

theorem advancing_postfixTail (bound : Nat) {expr : Parser Expr} (hx : Advancing expr) (n : Nat)
    (e : Expr) : Advancing (postfixTail bound expr n e) := by
  induction n generalizing e with
  | zero => exact advancing_exhausted
  | succ n ih =>
    refine advancing_bind advancing_peek fun t => ?_
    split
    · refine advancing_bind advancing_next fun _ => ?_
      refine advancing_bind (advancing_itemsUpTo bound _ hx) fun _ => ?_
      exact advancing_bind (advancing_expect _ _) fun _ => ih _
    · refine advancing_bind advancing_next fun _ => ?_
      refine advancing_bind hx fun _ => ?_
      exact advancing_bind (advancing_expect _ _) fun _ => ih _
    · refine advancing_bind advancing_next fun _ => ?_
      exact advancing_bind (advancing_name _) fun _ => ih _
    · exact advancing_pure _

theorem advancing_unary {operand : Parser Expr} (ho : Advancing operand) (n : Nat) :
    Advancing (unary operand n) := by
  induction n with
  | zero => exact advancing_exhausted
  | succ n ih =>
    refine advancing_bind advancing_peek fun t => ?_
    split
    · exact ho
    · refine advancing_bind advancing_next fun _ => ?_
      exact advancing_bind ih fun _ => advancing_pure _

theorem advancing_operation (bound : Nat) {expr : Parser Expr} (hx : Advancing expr) :
    Advancing (operation bound expr) := by
  have hp : Advancing (postfixChain bound expr) :=
    advancing_bind (advancing_primary bound hx) fun e => advancing_postfixTail bound hx bound e
  unfold operation
  -- nothing depends on which levels there are
  induction levels with
  | nil => exact advancing_unary hp bound
  | cons level rest ih => exact advancing_infixChain bound level ih

theorem advancing_assignment (bound : Nat) {expr : Parser Expr} (hx : Advancing expr) :
    Advancing (assignment bound expr) := by
  refine advancing_bind (advancing_operation bound hx) fun target => ?_
  refine advancing_bind advancing_peek fun t => ?_
  split
  · refine advancing_bind advancing_next fun _ => ?_
    refine advancing_bind hx fun value => ?_
    split
    · exact advancing_pure _
    · exact advancing_bind (advancing_report _) fun _ => advancing_pure _
  · exact advancing_pure _

theorem advancing_expression (n : Nat) : Advancing (expression n) := by
  induction n with
  | zero => exact advancing_exhausted
  | succ n ih => exact advancing_assignment _ ih

end Expressions

section Statements

theorem advancing_acceptEol : Advancing acceptEol :=
  advancing_bind (advancing_accept _) fun _ => advancing_pure _

theorem advancing_terminator (elseMayFollow : Bool) : Advancing (terminator elseMayFollow) := by
  refine advancing_bind (advancing_accept _) fun eol => ?_
  split
  · exact advancing_pure _
  · refine advancing_bind (advancing_accept _) fun semicolon => ?_
    split
    · exact advancing_bind advancing_acceptEol fun _ => advancing_pure _
    · refine advancing_bind advancing_get fun c => ?_
      split
      · exact advancing_pure _
      · exact advancing_unexpected _

theorem advancing_letClause (bound : Nat) : Advancing (letClause bound) := by
  refine advancing_bind (advancing_name _) fun _ => ?_
  refine advancing_bind (advancing_accept _) fun _ => ?_
  split
  · exact advancing_bind (advancing_expression bound) fun _ => advancing_pure _
  · exact advancing_pure _

/-- A parser that fails is reported, so there is one more error. -/
theorem advances_of_recovering {α : Type} {p : Parser α} (hp : Advancing p) {c c' : Cursor}
    (h : recovering p c = .ok none c') :
    c.Advances c' ∧ c.errors.length < c'.errors.length := by
  unfold recovering at h
  cases hc : p c with
  | ok a d => simp [hc] at h
  | error e d =>
    simp only [hc, EStateM.Result.ok.injEq, true_and] at h
    subst h
    have hd : c.Advances d := hp.of_error hc
    -- skipping the rest of the statement forgets no error
    have hs := Cursor.advances_synchronize c (d.withError e)
    refine ⟨(hd.trans (d.advances_withError e)).trans hs, ?_⟩
    exact Nat.lt_of_lt_of_le (Nat.lt_succ_of_le hd.errors.length_le) hs.errors.length_le

theorem advancing_recovering {α : Type} {p : Parser α} (hp : Advancing p) :
    Advancing (recovering p) := by
  intro c
  cases hc : p c with
  | ok a d => simpa only [final, recovering, hc] using hp.of_ok hc
  | error e d =>
    have h : recovering p c = .ok none (c.synchronize (d.withError e)) := by
      simp only [recovering, hc, Cursor.withError]
    rw [final, h]
    exact (advances_of_recovering hp h).1

variable {item : Place → Parser Stmt} (hi : ∀ place, Advancing (item place))

include hi

theorem advancing_blockItems (n : Nat) : Advancing (blockItems item n) := by
  induction n with
  | zero => exact advancing_exhausted
  | succ n ih =>
    refine advancing_bind advancing_skipEols fun _ => ?_
    refine advancing_bind advancing_get fun c => ?_
    split
    · exact advancing_pure _
    · refine advancing_bind (advancing_recovering (hi _)) fun slot => ?_
      exact advancing_bind ih fun _ => advancing_pure _

theorem advancing_block (bound : Nat) : Advancing (block bound item) := by
  refine advancing_bind (advancing_blockItems hi bound) fun _ => ?_
  exact advancing_bind (advancing_expect _ _) fun _ => advancing_pure _

theorem advancing_ifStatement (bound : Nat) (elseMayFollow : Bool) :
    Advancing (ifStatement bound elseMayFollow item) := by
  refine advancing_bind (advancing_expression bound) fun _ => ?_
  refine advancing_bind (advancing_expect _ _) fun _ => ?_
  refine advancing_bind advancing_acceptEol fun _ => ?_
  refine advancing_bind (hi _) fun _ => ?_
  refine advancing_bind (advancing_accept _) fun _ => ?_
  split
  · refine advancing_bind advancing_acceptEol fun _ => ?_
    exact advancing_bind (hi _) fun _ => advancing_pure _
  · exact advancing_pure _

theorem advancing_whileStatement (bound : Nat) (elseMayFollow : Bool) :
    Advancing (whileStatement bound elseMayFollow item) := by
  refine advancing_bind (advancing_expression bound) fun _ => ?_
  refine advancing_bind (advancing_expect _ _) fun _ => ?_
  refine advancing_bind advancing_acceptEol fun _ => ?_
  exact advancing_bind (hi _) fun _ => advancing_pure _

theorem advancing_timesStatement (bound line : Nat) (elseMayFollow : Bool) :
    Advancing (timesStatement bound line elseMayFollow item) := by
  refine advancing_bind (advancing_expression bound) fun _ => ?_
  refine advancing_bind (advancing_expect _ _) fun _ => ?_
  refine advancing_bind advancing_acceptEol fun _ => ?_
  exact advancing_bind (hi _) fun _ => advancing_pure _

omit hi in
theorem advancing_forInit (bound : Nat) : Advancing (forInit bound) := by
  refine advancing_bind (advancing_accept _) fun _ => ?_
  split
  · exact advancing_pure _
  · -- both kinds of clauses end with the semicolon
    have close (init : Stmt) : Advancing (do
        let _ ← expectSymbol .semicolon "';' after loop initializer"
        return some init) :=
      advancing_bind (advancing_expect _ _) fun _ => advancing_pure _
    refine advancing_bind (advancing_accept _) fun _ => ?_
    split
    · exact advancing_bind (advancing_letClause bound) close
    · exact advancing_bind (advancing_map (advancing_expression bound)) close

omit hi in
theorem advancing_expressionUnless (bound : Nat) (stop : Symbol) :
    Advancing (expressionUnless bound stop) := by
  refine advancing_bind (advancing_check _) fun _ => ?_
  split
  · exact advancing_pure _
  · exact advancing_bind (advancing_expression bound) fun _ => advancing_pure _

theorem advancing_forStatement (bound : Nat) (elseMayFollow : Bool) :
    Advancing (forStatement bound elseMayFollow item) := by
  refine advancing_bind (advancing_expect _ _) fun _ => ?_
  refine advancing_bind (advancing_forInit bound) fun _ => ?_
  refine advancing_bind (advancing_expressionUnless bound _) fun _ => ?_
  refine advancing_bind (advancing_expect _ _) fun _ => ?_
  refine advancing_bind (advancing_expressionUnless bound _) fun _ => ?_
  refine advancing_bind (advancing_expect _ _) fun _ => ?_
  refine advancing_bind advancing_acceptEol fun _ => ?_
  exact advancing_bind (hi _) fun _ => advancing_pure _

omit hi in
theorem advancing_returnStatement (bound line : Nat) (elseMayFollow : Bool) :
    Advancing (returnStatement bound line elseMayFollow) := by
  refine advancing_bind advancing_get fun _ => ?_
  split
  · exact advancing_bind (advancing_terminator _) fun _ => advancing_pure _
  · refine advancing_bind (advancing_expression bound) fun _ => ?_
    exact advancing_bind (advancing_terminator _) fun _ => advancing_pure _

theorem advancing_routine (bound : Nat) : Advancing (routine bound item) := by
  refine advancing_bind (advancing_name _) fun _ => ?_
  refine advancing_bind (advancing_expect _ _) fun _ => ?_
  refine advancing_bind (advancing_itemsUpTo bound _ (advancing_name _)) fun _ => ?_
  refine advancing_bind (advancing_expect _ _) fun _ => ?_
  refine advancing_bind (advancing_expect _ _) fun _ => ?_
  refine advancing_bind (advancing_block hi bound) fun _ => ?_
  exact advancing_bind (advancing_terminator _) fun _ => advancing_pure _

theorem advancing_methods (bound n : Nat) : Advancing (methods bound item n) := by
  induction n with
  | zero => exact advancing_exhausted
  | succ n ih =>
    refine advancing_bind advancing_skipEols fun _ => ?_
    refine advancing_bind advancing_get fun c => ?_
    split
    · exact advancing_pure _
    · refine advancing_bind (advancing_expect _ _) fun _ => ?_
      refine advancing_bind (advancing_routine hi bound) fun _ => ?_
      exact advancing_bind ih fun _ => advancing_pure _

omit hi in
theorem advancing_superclass : Advancing superclass := by
  refine advancing_bind (advancing_accept _) fun _ => ?_
  split
  · refine advancing_bind (advancing_name _) fun _ => ?_
    exact advancing_bind advancing_freshId fun _ => advancing_pure _
  · exact advancing_pure _

theorem advancing_classDeclaration (bound : Nat) : Advancing (classDeclaration bound item) := by
  refine advancing_bind (advancing_name _) fun _ => ?_
  refine advancing_bind advancing_superclass fun _ => ?_
  refine advancing_bind (advancing_expect _ _) fun _ => ?_
  refine advancing_bind (advancing_methods hi bound bound) fun _ => ?_
  refine advancing_bind (advancing_expect _ _) fun _ => ?_
  exact advancing_bind (advancing_terminator _) fun _ => advancing_pure _

theorem advancing_bodyStatement (bound : Nat) (elseMayFollow : Bool) :
    Advancing (bodyStatement bound elseMayFollow item) := by
  refine advancing_bind advancing_peek fun t => ?_
  split
  · exact advancing_bind advancing_next fun _ => advancing_ifStatement hi bound _
  · exact advancing_throw _
  · exact advancing_bind advancing_next fun _ => advancing_whileStatement hi bound _
  · exact advancing_bind advancing_next fun _ => advancing_timesStatement hi bound _ _
  · exact advancing_bind advancing_next fun _ => advancing_forStatement hi bound _
  · refine advancing_bind advancing_next fun _ => ?_
    exact advancing_bind (advancing_terminator _) fun _ => advancing_pure _
  · exact advancing_bind advancing_next fun _ => advancing_returnStatement bound _ _
  · refine advancing_bind advancing_next fun _ => ?_
    refine advancing_bind (advancing_block hi bound) fun _ => ?_
    exact advancing_bind (advancing_terminator _) fun _ => advancing_pure _
  · refine advancing_bind (advancing_expression bound) fun _ => ?_
    exact advancing_bind (advancing_terminator _) fun _ => advancing_pure _

theorem advancing_declaration (bound : Nat) : Advancing (declaration bound item) := by
  refine advancing_bind (advancing_accept _) fun _ => ?_
  split
  · refine advancing_bind (advancing_letClause bound) fun _ => ?_
    exact advancing_bind (advancing_terminator _) fun _ => advancing_pure _
  · refine advancing_bind (advancing_accept _) fun _ => ?_
    split
    · exact advancing_bind (advancing_routine hi bound) fun _ => advancing_pure _
    · refine advancing_bind (advancing_accept _) fun _ => ?_
      split
      · exact advancing_classDeclaration hi bound
      · exact advancing_bodyStatement hi bound _

end Statements

theorem advancing_statement (n : Nat) (place : Place) : Advancing (statement n place) := by
  induction n generalizing place with
  | zero => exact advancing_exhausted
  | succ n ih =>
    cases place with
    | declaration => exact advancing_declaration ih _
    | body elseMayFollow => exact advancing_bodyStatement ih _ _

theorem advancing_slots (bound n : Nat) : Advancing (slots bound n) := by
  induction n with
  | zero => exact advancing_pure _
  | succ n ih =>
    refine advancing_bind advancing_skipEols fun _ => ?_
    refine advancing_bind advancing_get fun c => ?_
    split
    · exact advancing_pure _
    · refine advancing_bind (advancing_recovering (advancing_statement _ _)) fun slot => ?_
      exact advancing_bind ih fun _ => advancing_pure _

end Parser

end Jal
