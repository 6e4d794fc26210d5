import Jal.Proofs.Grammar.Lines

namespace Jal

def ParseError.AtLimit : ParseError → Prop
  | expected _ what _ => what = Parser.nestingLimit
  | invalidAssignmentTarget _ | elseWithoutIf _ => False

namespace Cursor

variable {c c' : Cursor}

theorem Advances.length_le (h : c.Advances c') : c'.rest.length ≤ c.rest.length :=
  h.rest.length_le

theorem Advances.length_lt (h : c.advance.Advances c') (hk : c.peek.kind ≠ .eof) :
    c'.rest.length < c.rest.length :=
  Nat.lt_of_le_of_lt h.length_le (length_rest_advance_lt hk)

theorem length_rest_advance_lt_of_ne_nil (h : c.rest ≠ []) :
    c.advance.rest.length < c.rest.length := by
  unfold advance
  split
  · contradiction
  · simp [*]

/-- Going on after an error in what began at `start` leaves fewer tokens. -/
theorem length_synchronize_lt {start : Cursor} (hs : start.rest ≠ [])
    (hc : c.rest.length ≤ start.rest.length) :
    (start.synchronize c).rest.length < start.rest.length := by
  unfold synchronize
  dsimp only
  refine Nat.lt_of_le_of_lt (skipStatement_suffix _ _).length_le ?_
  split
  · rename_i h
    -- nothing was read before the error, so that one token is stepped over
    have heq : c.rest.length = start.rest.length := beq_iff_eq.1 h
    have hne : c.rest ≠ [] := by
      intro hnil
      rw [hnil] at heq
      exact hs (List.length_eq_zero_iff.1 heq.symm)
    exact heq ▸ length_rest_advance_lt_of_ne_nil hne
  · rename_i h
    exact Nat.lt_of_le_of_ne hc fun heq => h (beq_iff_eq.2 heq)

end Cursor

open Cursor in
theorem ReadsClause.length_lt {place : Place} {s : Stmt} {c c' : Cursor}
    (h : ReadsClause (.stmt place s) c c') : c'.rest.length < c.rest.length := by
  cases h with
  | expr he ht => exact Nat.lt_of_le_of_lt ht.advances.length_le he.length_lt
  | letVar hk hs ht => exact (hs.advances.skips ht).length_lt (by simp [hk])
  | block hl hb hr ht => exact (hb.advances.advance.skips ht).length_lt (by simp [hl])
  | ifThen hk ht hd hs hc hn =>
    exact ((ht.advances.advance.skips hs).trans hc.advances).length_lt (by simp [hk])
  | ifElse hk ht hd hs hc hn hs' ha =>
    have hthen := (ht.advances.advance.skips hs).trans hc.advances
    exact ((hthen.advance.skips hs').trans ha.advances).length_lt (by simp [hk])
  | whileDo hk ht hd hs hb | times hk ht hd hs hb =>
    exact ((ht.advances.advance.skips hs).trans hb.advances).length_lt (by simp [hk])
  | forLoop hk hl hi ht hs hu hr hs' hb =>
    have hclauses := (hi.advances.step.trans ht.advances).trans hu.advances.step
    exact ((hclauses.advance.skips hs').trans hb.advances).length_lt (by simp [hk])
  | breakLoop hk ht => exact ht.advances.length_lt (by simp [hk])
  | returnWith hk hv ht => exact (hv.advances.skips ht).length_lt (by simp [hk])
  | define hk hr => exact hr.advances.length_lt (by simp [hk])
  | classDecl hk hn hs hl hm hr ht =>
    exact ((hs.advances.step.trans hm.advances.step).advance.skips ht).length_lt (by simp [hk])

namespace Parser

variable {α β : Type}

/-- What `p` gives without failing uses up a token. -/
def Consuming (p : Parser α) : Prop :=
  ∀ c a c', p c = .ok a c' → c'.rest.length < c.rest.length

theorem consuming_statement (n : Nat) (place : Place) : Consuming (statement n place) :=
  fun _ _ _ h => (statement_reads h).length_lt

/-- An attempt moves on, whether it succeeds or fails. -/
theorem length_lt_of_recovering {p : Parser α} (ha : Advancing p) (hp : Consuming p)
    {c c' : Cursor} {slot : Option α} (hc : c.rest ≠ []) (h : recovering p c = .ok slot c') :
    c'.rest.length < c.rest.length := by
  unfold recovering at h
  cases hr : p c with
  | ok a d =>
    simp only [hr, EStateM.Result.ok.injEq] at h
    exact h.2 ▸ hp _ _ _ hr
  | error e d =>
    simp only [hr, EStateM.Result.ok.injEq] at h
    exact h.2 ▸ Cursor.length_synchronize_lt hc (ha.of_error hr).length_le

theorem recovering_eq_ok (p : Parser α) (c : Cursor) :
    ∃ slot c', recovering p c = .ok slot c' := by
  unfold recovering
  split
  · exact ⟨_, _, rfl⟩
  · exact ⟨_, _, rfl⟩

/-- The errors after `p`, with the one that it fails with. -/
def reported (p : Parser α) (c : Cursor) : List ParseError :=
  match p c with
  | .ok _ c' => c'.errors
  | .error e c' => e :: c'.errors

/-- From `c` on `p` does not use up a bound on nesting. -/
def Completes (p : Parser α) (c : Cursor) : Prop :=
  ∀ e ∈ p.reported c, e.AtLimit → e ∈ c.errors

/-- `p` only moves on, and it completes where fewer than `n` tokens are to come. -/
structure Within (n : Nat) (p : Parser α) : Prop where
  advancing : Advancing p
  completes : ∀ c : Cursor, c.rest.length < n → p.Completes c

theorem Within.mono {m n : Nat} {p : Parser α} (h : Within n p) (hm : m ≤ n) : Within m p :=
  ⟨h.advancing, fun c hc => h.completes c (Nat.lt_of_lt_of_le hc hm)⟩

section Steps

variable {n : Nat} {c c' : Cursor} {p : Parser α} {f : α → Parser β}

theorem completes_of_ok {a : α} (h : p c = .ok a c') (he : c'.errors = c.errors) :
    Completes p c := by
  intro e hm _
  simp only [reported, h] at hm
  exact he ▸ hm

theorem completes_of_error {e : ParseError} (h : p c = .error e c') (he : c'.errors = c.errors)
    (hl : ¬ e.AtLimit) : Completes p c := by
  intro e' hm hl'
  simp only [reported, h] at hm
  rcases List.mem_cons.1 hm with rfl | hm
  · exact absurd hl' hl
  · exact he ▸ hm

theorem completes_bind (hp : Completes p c)
    (hf : ∀ a d, p c = .ok a d → Completes (f a) d) : Completes (p >>= f) c := by
  intro e hm hl
  cases h : p c with
  | ok a d =>
    have hr : (p >>= f).reported c = (f a).reported d := by
      simp only [reported, bind, EStateM.bind, h]
    have hd : p.reported c = d.errors := by simp only [reported, h]
    exact hp e (hd ▸ hf a d h e (hr ▸ hm) hl) hl
  | error e' d =>
    have hr : (p >>= f).reported c = p.reported c := by
      simp only [reported, bind, EStateM.bind, h]
    exact hp e (hr ▸ hm) hl

theorem within_bind (hp : Within n p) (hf : ∀ a, Within n (f a)) : Within n (p >>= f) := by
  refine ⟨advancing_bind hp.advancing fun a => (hf a).advancing, fun c hc => ?_⟩
  refine completes_bind (hp.completes c hc) fun a d h => ?_
  exact (hf a).completes d (Nat.lt_of_le_of_lt (hp.advancing.of_ok h).length_le hc)

theorem completes_pure (a : α) (c : Cursor) : Completes (pure a : Parser α) c :=
  completes_of_ok rfl rfl

theorem within_pure (a : α) : Within n (pure a : Parser α) :=
  ⟨advancing_pure a, fun c _ => completes_pure a c⟩

theorem within_get : Within n (get : Parser Cursor) :=
  ⟨advancing_get, fun _ _ => completes_of_ok rfl rfl⟩

theorem within_check (p : TokenKind → Bool) : Within n (check p) :=
  ⟨advancing_check p, fun _ _ => completes_of_ok rfl rfl⟩

theorem within_next : Within n next :=
  ⟨advancing_next, fun c _ => completes_of_ok rfl (Cursor.errors_advance c)⟩

theorem within_freshId : Within n freshId :=
  ⟨advancing_freshId, fun _ _ => completes_of_ok rfl rfl⟩

theorem within_accept (p : TokenKind → Bool) : Within n (accept p) := by
  refine ⟨advancing_accept p, fun c _ => completes_of_ok (accept_apply p c) ?_⟩
  split <;> simp

theorem within_unexpected {what : String} (hw : what ≠ nestingLimit) :
    Within n (unexpected what : Parser α) :=
  ⟨advancing_unexpected what, fun _ _ => completes_of_error rfl rfl hw⟩

theorem within_throw {e : ParseError} (he : ¬ e.AtLimit) : Within n (throw e : Parser α) :=
  ⟨advancing_throw e, fun _ _ => completes_of_error rfl rfl he⟩

theorem within_report {e : ParseError} (he : ¬ e.AtLimit) : Within n (report e) := by
  refine ⟨advancing_report e, fun c _ e' hm hl => ?_⟩
  rcases List.mem_cons.1 hm with rfl | hm
  · exact absurd hl he
  · exact hm

theorem within_expect {p : TokenKind → Bool} {what : String} (hw : what ≠ nestingLimit) :
    Within n (expect p what) := by
  refine ⟨advancing_expect p what, fun c _ => ?_⟩
  by_cases h : c.nextIs p = true
  · exact completes_of_ok (if_pos h) (Cursor.errors_advance c)
  · exact completes_of_error (if_neg h) rfl hw

theorem within_name {what : String} (hw : what ≠ nestingLimit) : Within n (name what) :=
  within_bind (within_expect hw) fun _ => within_pure _

theorem within_acceptEol : Within n acceptEol :=
  within_bind (within_accept _) fun _ => within_pure _

/-- No bound is left to use up: there cannot be fewer than no tokens. -/
theorem within_zero (ha : Advancing p) (hn : n ≤ 0) : Within n p :=
  ⟨ha, fun _ hc => absurd (Nat.lt_of_lt_of_le hc hn) (Nat.not_lt_zero _)⟩

theorem completes_peek_bind {f : Token → Parser β} (h : Completes (f c.peek) c) :
    Completes (peek >>= f) c :=
  completes_bind (completes_of_ok rfl rfl) (by rintro _ _ ⟨⟩; exact h)

/-- A turn of a loop begins behind the ends of lines. -/
theorem completes_turn {f : Cursor → Parser β} (h : Completes (f c.skipEols) c.skipEols) :
    Completes (do skipEols; let d ← get; f d) c := by
  refine completes_bind (completes_of_ok rfl rfl) ?_
  rintro _ _ ⟨⟩
  refine completes_bind (completes_of_ok rfl rfl) ?_
  rintro _ _ ⟨⟩
  exact h

/-- After a token has been read there are fewer to come than before. -/
theorem completes_next_bind {f : Token → Parser β} (hk : c.peek.kind ≠ .eof)
    (h : Within c.rest.length (f c.peek)) : Completes (next >>= f) c := by
  refine completes_bind (within_next.completes c (Nat.lt_succ_self _)) ?_
  rintro _ _ ⟨⟩
  exact h.completes _ (Cursor.length_rest_advance_lt hk)

theorem completes_accept_bind {q : TokenKind → Bool} {f : Bool → Parser β} (hq : q .eof = false)
    (ht : Within c.rest.length (f true)) (hf : Completes (f false) c) :
    Completes (accept q >>= f) c := by
  refine completes_bind ((within_accept q).completes c (Nat.lt_succ_self _)) fun b d h => ?_
  rcases accept_eq_ok.1 h with ⟨hk, rfl, rfl⟩ | ⟨-, rfl, rfl⟩
  · have hne : c.peek.kind ≠ .eof := by
      intro he
      rw [he, hq] at hk
      cases hk
    exact ht.completes _ (Cursor.length_rest_advance_lt hne)
  · exact hf

theorem within_map {g : α → β} (h : Within n p) : Within n (g <$> p) := by
  refine ⟨advancing_map h.advancing, fun c hc => ?_⟩
  have hr : (g <$> p).reported c = p.reported c := by
    simp only [reported, Functor.map, EStateM.map]
    cases p c <;> rfl
  intro e hm hl
  exact h.completes c hc e (hr ▸ hm) hl

theorem within_recovering (h : Within n p) : Within n (recovering p) := by
  refine ⟨advancing_recovering h.advancing, fun c hc => ?_⟩
  have hr : (recovering p).reported c = p.reported c := by
    cases hp : p c with
    | ok a d => simp only [reported, recovering, hp]
    | error e d => simp only [reported, recovering, hp, Cursor.synchronize]; split <;> simp
  intro e hm hl
  exact h.completes c hc e (hr ▸ hm) hl

end Steps

section Expressions

variable {n bound k : Nat}

theorem within_infixTail {level : Level}
    (hl : ∀ t combine, level t = some combine → t.kind ≠ .eof) {operand : Parser Expr}
    (ho : Within n operand) (hk : n ≤ k) (left : Expr) :
    Within n (infixTail level operand k left) := by
  -- every operator is a token, so `n` goes down with the bound
  induction k generalizing n left with
  | zero => exact within_zero advancing_exhausted hk
  | succ k ih =>
    refine ⟨advancing_infixTail level ho.advancing _ _, fun c hc => completes_peek_bind ?_⟩
    split
    · exact completes_pure _ _
    · rename_i combine h
      refine completes_next_bind (hl _ _ h) ?_
      have ho : Within c.rest.length operand := ho.mono (Nat.le_of_lt hc)
      exact within_bind ho fun right => ih ho (by omega) _

theorem within_infixChain {level : Level}
    (hl : ∀ t combine, level t = some combine → t.kind ≠ .eof) {operand : Parser Expr}
    (ho : Within n operand) (hn : n ≤ bound) : Within n (infixChain bound level operand) :=
  within_bind ho fun left => within_infixTail hl ho hn left

theorem within_commaSeparated {item : Parser α} (hi : Within n item) (hk : n ≤ k) :
    Within n (commaSeparated item k) := by
  induction k generalizing n with
  | zero => exact within_zero advancing_exhausted hk
  | succ k ih =>
    refine ⟨advancing_commaSeparated hi.advancing _, fun c hc => ?_⟩
    refine completes_bind (hi.completes c hc) fun first d hd => ?_
    have hle := (hi.advancing.of_ok hd).length_le
    refine completes_accept_bind rfl ?_ (completes_pure _ _)
    have hi : Within d.rest.length item := hi.mono (by omega)
    exact within_bind (ih hi (by omega)) fun _ => within_pure _

theorem within_itemsUpTo {item : Parser α} (hi : Within n item) (hn : n ≤ bound) (stop : Symbol) :
    Within n (itemsUpTo bound stop item) := by
  refine within_bind (within_check _) fun stopped => ?_
  split
  · exact within_pure _
  · exact within_commaSeparated hi hn

/-- Brackets are tokens: there is one token more around an expression than in it. -/
theorem within_primary {expr : Parser Expr} (hx : Within n expr) (hn : n ≤ bound) :
    Within (n + 1) (primary bound expr) := by
  refine ⟨advancing_primary bound hx.advancing, fun c hc => completes_peek_bind ?_⟩
  have hx : Within c.rest.length expr := hx.mono (Nat.le_of_lt_succ hc)
  split
  · rename_i value h
    exact completes_next_bind (word_of_literal? h).1 (within_pure _)
  · split
    · rename_i h
      refine completes_next_bind (by simp [h]) ?_
      exact within_bind within_freshId fun _ => within_pure _
    · rename_i h
      refine completes_next_bind (by simp [h]) ?_
      exact within_bind within_freshId fun _ => within_pure _
    · rename_i h
      refine completes_next_bind (by simp [h]) ?_
      refine within_bind (within_expect (by decide)) fun _ => ?_
      refine within_bind (within_name (by decide)) fun _ => ?_
      exact within_bind within_freshId fun _ => within_pure _
    · rename_i h
      refine completes_next_bind (by simp [h]) ?_
      refine within_bind hx fun _ => ?_
      exact within_bind (within_expect (by decide)) fun _ => within_pure _
    · rename_i h
      refine completes_next_bind (by simp [h]) ?_
      refine within_bind (within_itemsUpTo hx (by omega) _) fun _ => ?_
      exact within_bind (within_expect (by decide)) fun _ => within_pure _
    · exact (within_unexpected (by decide)).completes c hc

theorem within_postfixTail {expr : Parser Expr} (hx : Within n expr) (hn : n ≤ bound) {m : Nat}
    (hm : m ≤ n + 1) (hk : m ≤ k) (e : Expr) : Within m (postfixTail bound expr k e) := by
  induction k generalizing m e with
  | zero => exact within_zero advancing_exhausted hk
  | succ k ih =>
    refine ⟨advancing_postfixTail bound hx.advancing _ _, fun c hc => completes_peek_bind ?_⟩
    have hx : Within c.rest.length expr := hx.mono (by omega)
    have tail (e : Expr) : Within c.rest.length (postfixTail bound expr k e) :=
      ih (by omega) (by omega) e
    split
    · rename_i h
      refine completes_next_bind (by simp [h]) ?_
      refine within_bind (within_itemsUpTo hx (by omega) _) fun _ => ?_
      exact within_bind (within_expect (by decide)) fun _ => tail _
    · rename_i h
      refine completes_next_bind (by simp [h]) ?_
      refine within_bind hx fun _ => ?_
      exact within_bind (within_expect (by decide)) fun _ => tail _
    · rename_i h
      refine completes_next_bind (by simp [h]) ?_
      exact within_bind (within_name (by decide)) fun _ => tail _
    · exact completes_pure _ _

theorem within_unary {operand : Parser Expr} (ho : Within n operand) (hk : n ≤ k) :
    Within n (unary operand k) := by
  induction k generalizing n with
  | zero => exact within_zero advancing_exhausted hk
  | succ k ih =>
    refine ⟨advancing_unary ho.advancing _, fun c hc => completes_peek_bind ?_⟩
    split
    · exact ho.completes c hc
    · rename_i op h
      refine completes_next_bind (word_of_unaryOp? h).1 ?_
      exact within_bind (ih (ho.mono (Nat.le_of_lt hc)) (by omega)) fun _ => within_pure _

theorem within_operation {expr : Parser Expr} (hx : Within n expr) :
    Within (n + 1) (operation (n + 1) expr) := by
  have hp : Within (n + 1) (postfixChain (n + 1) expr) :=
    within_bind (within_primary hx (Nat.le_succ n)) fun e =>
      within_postfixTail hx (Nat.le_succ n) (Nat.le_refl _) (Nat.le_refl _) e
  -- an operator of any level is a token
  have hl : ∀ level ∈ levels, ∀ t combine, level t = some combine → t.kind ≠ .eof := by
    intro level hm t combine h
    obtain ⟨k, hk⟩ := List.getElem?_of_mem hm
    exact (word_of_operator hk h).1
  unfold operation
  generalize levels = ls at hl ⊢
  induction ls with
  | nil => exact within_unary hp (Nat.le_refl _)
  | cons level rest ih =>
    rw [List.forall_mem_cons] at hl
    exact within_infixChain hl.1 (ih hl.2) (Nat.le_refl _)

theorem within_assignment {expr : Parser Expr} (hx : Within n expr) :
    Within (n + 1) (assignment (n + 1) expr) := by
  have ho := within_operation hx
  refine ⟨advancing_assignment _ hx.advancing, fun c hc => ?_⟩
  refine completes_bind (ho.completes c hc) fun target d hd => completes_peek_bind ?_
  have hle := (ho.advancing.of_ok hd).length_le
  split
  · rename_i h
    rw [TokenKind.isSymbol_iff] at h
    refine completes_next_bind (by simp [h]) ?_
    refine within_bind (hx.mono (by omega)) fun value => ?_
    split
    · exact within_pure _
    · exact within_bind (within_report id) fun _ => within_pure _
  · exact completes_pure _ _

/-- An expression has fewer levels of nesting than tokens. -/
theorem within_expression (n : Nat) : Within n (expression n) := by
  induction n with
  | zero => exact within_zero advancing_exhausted (Nat.le_refl 0)
  | succ n ih => exact within_assignment ih

end Expressions

section Statements

variable {n bound k : Nat} (hn : n ≤ bound)

theorem within_terminator (elseMayFollow : Bool) : Within n (terminator elseMayFollow) := by
  refine within_bind (within_accept _) fun eol => ?_
  split
  · exact within_pure _
  · refine within_bind (within_accept _) fun semicolon => ?_
    split
    · exact within_bind within_acceptEol fun _ => within_pure _
    · refine within_bind within_get fun c => ?_
      split
      · exact within_pure _
      · exact within_unexpected (by decide)

include hn

theorem within_letClause : Within n (letClause bound) := by
  refine within_bind (within_name (by decide)) fun _ => ?_
  refine within_bind (within_accept _) fun _ => ?_
  split
  · exact within_bind ((within_expression bound).mono hn) fun _ => within_pure _
  · exact within_pure _

theorem within_forInit : Within n (forInit bound) := by
  refine within_bind (within_accept _) fun _ => ?_
  split
  · exact within_pure _
  · have close (init : Stmt) : Within n (do
        let _ ← expectSymbol .semicolon "';' after loop initializer"
        return some init) :=
      within_bind (within_expect (by decide)) fun _ => within_pure _
    refine within_bind (within_accept _) fun _ => ?_
    split
    · exact within_bind (within_letClause hn) close
    · exact within_bind (within_map ((within_expression bound).mono hn)) close

theorem within_expressionUnless (stop : Symbol) : Within n (expressionUnless bound stop) := by
  refine within_bind (within_check _) fun _ => ?_
  split
  · exact within_pure _
  · exact within_bind ((within_expression bound).mono hn) fun _ => within_pure _

theorem within_returnStatement (line : Nat) (elseMayFollow : Bool) :
    Within n (returnStatement bound line elseMayFollow) := by
  refine within_bind within_get fun _ => ?_
  split
  · exact within_bind (within_terminator _) fun _ => within_pure _
  · refine within_bind ((within_expression bound).mono hn) fun _ => ?_
    exact within_bind (within_terminator _) fun _ => within_pure _

omit hn in
theorem within_superclass : Within n superclass := by
  refine within_bind (within_accept _) fun _ => ?_
  split
  · refine within_bind (within_name (by decide)) fun _ => ?_
    exact within_bind within_freshId fun _ => within_pure _
  · exact within_pure _

variable {item : Place → Parser Stmt} (hi : ∀ place, Within n (item place))
  (hc : Consuming (item .declaration))

include hi

theorem within_ifStatement (elseMayFollow : Bool) :
    Within n (ifStatement bound elseMayFollow item) := by
  refine within_bind ((within_expression bound).mono hn) fun _ => ?_
  refine within_bind (within_expect (by decide)) fun _ => ?_
  refine within_bind within_acceptEol fun _ => ?_
  refine within_bind (hi _) fun _ => ?_
  refine within_bind (within_accept _) fun _ => ?_
  split
  · refine within_bind within_acceptEol fun _ => ?_
    exact within_bind (hi _) fun _ => within_pure _
  · exact within_pure _

theorem within_whileStatement (elseMayFollow : Bool) :
    Within n (whileStatement bound elseMayFollow item) := by
  refine within_bind ((within_expression bound).mono hn) fun _ => ?_
  refine within_bind (within_expect (by decide)) fun _ => ?_
  refine within_bind within_acceptEol fun _ => ?_
  exact within_bind (hi _) fun _ => within_pure _

theorem within_timesStatement (line : Nat) (elseMayFollow : Bool) :
    Within n (timesStatement bound line elseMayFollow item) := by
  refine within_bind ((within_expression bound).mono hn) fun _ => ?_
  refine within_bind (within_expect (by decide)) fun _ => ?_
  refine within_bind within_acceptEol fun _ => ?_
  exact within_bind (hi _) fun _ => within_pure _

theorem within_forStatement (elseMayFollow : Bool) :
    Within n (forStatement bound elseMayFollow item) := by
  refine within_bind (within_expect (by decide)) fun _ => ?_
  refine within_bind (within_forInit hn) fun _ => ?_
  refine within_bind (within_expressionUnless hn _) fun _ => ?_
  refine within_bind (within_expect (by decide)) fun _ => ?_
  refine within_bind (within_expressionUnless hn _) fun _ => ?_
  refine within_bind (within_expect (by decide)) fun _ => ?_
  refine within_bind within_acceptEol fun _ => ?_
  exact within_bind (hi _) fun _ => within_pure _

include hc

omit hn in
/-- Each turn attempts a declaration, which uses up a token even where it fails. -/
theorem within_blockItems (hk : n ≤ k) : Within n (blockItems item k) := by
  induction k generalizing n with
  | zero => exact within_zero advancing_exhausted hk
  | succ k ih =>
    have ha := fun place => (hi place).advancing
    refine ⟨advancing_blockItems ha _, fun c hc' => completes_turn ?_⟩
    have hle := c.advances_skipEols.length_le
    split
    · exact completes_pure _ _
    · rename_i h
      have hne : c.skipEols.rest ≠ [] := by
        intro hnil
        simp [Cursor.atEnd, hnil] at h
      have hr := within_recovering (hi .declaration)
      refine completes_bind (hr.completes _ (by omega)) fun slot d' hd => ?_
      have hlt := length_lt_of_recovering (ha _) hc hne hd
      have hrest := ih (fun place => (hi place).mono (Nat.le_of_lt hc')) (by omega)
      exact (within_bind hrest fun _ => within_pure _).completes d' (by omega)

theorem within_block : Within n (block bound item) := by
  refine within_bind (within_blockItems hi hc hn) fun _ => ?_
  exact within_bind (within_expect (by decide)) fun _ => within_pure _

theorem within_routine : Within n (routine bound item) := by
  refine within_bind (within_name (by decide)) fun _ => ?_
  refine within_bind (within_expect (by decide)) fun _ => ?_
  refine within_bind (within_itemsUpTo (within_name (by decide)) hn _) fun _ => ?_
  refine within_bind (within_expect (by decide)) fun _ => ?_
  refine within_bind (within_expect (by decide)) fun _ => ?_
  refine within_bind (within_block hn hi hc) fun _ => ?_
  exact within_bind (within_terminator _) fun _ => within_pure _

theorem within_methods (hk : n ≤ k) : Within n (methods bound item k) := by
  induction k generalizing n with
  | zero => exact within_zero advancing_exhausted hk
  | succ k ih =>
    have ha := fun place => (hi place).advancing
    refine ⟨advancing_methods ha _ _, fun c hc' => completes_turn ?_⟩
    have hle := c.advances_skipEols.length_le
    split
    · exact completes_pure _ _
    · refine completes_bind ((within_expect (by decide)).completes _ (Nat.lt_succ_self _)) ?_
      intro t d hd
      -- the `def` has been read
      obtain ⟨hkind, -, rfl⟩ := expectKeyword_eq_ok.1 hd
      have hlt := Cursor.length_rest_advance_lt (c := c.skipEols) (by simp [hkind])
      have hi : ∀ place, Within c.rest.length (item place) :=
        fun place => (hi place).mono (Nat.le_of_lt hc')
      have hrest : Within c.rest.length (methods bound item k) := ih (by omega) hi (by omega)
      refine (within_bind (within_routine (by omega) hi hc) fun _ => ?_).completes _ (by omega)
      exact within_bind hrest fun _ => within_pure _

theorem within_classDeclaration : Within n (classDeclaration bound item) := by
  refine within_bind (within_name (by decide)) fun _ => ?_
  refine within_bind within_superclass fun _ => ?_
  refine within_bind (within_expect (by decide)) fun _ => ?_
  refine within_bind (within_methods hn hi hc hn) fun _ => ?_
  refine within_bind (within_expect (by decide)) fun _ => ?_
  exact within_bind (within_terminator _) fun _ => within_pure _

omit hn in
/-- What stands in a statement comes after a token of the statement's own. -/
theorem within_bodyStatement (elseMayFollow : Bool) :
    Within (n + 1) (bodyStatement (n + 1) elseMayFollow item) := by
  have ha := fun place => (hi place).advancing
  refine ⟨advancing_bodyStatement ha _ _, fun c hc' => completes_peek_bind ?_⟩
  have hi : ∀ place, Within c.rest.length (item place) :=
    fun place => (hi place).mono (Nat.le_of_lt_succ hc')
  have hn : c.rest.length ≤ n + 1 := Nat.le_of_lt hc'
  split
  · rename_i h
    exact completes_next_bind (by simp [h]) (within_ifStatement hn hi _)
  · exact (within_throw id).completes c hc'
  · rename_i h
    exact completes_next_bind (by simp [h]) (within_whileStatement hn hi _)
  · rename_i h
    exact completes_next_bind (by simp [h]) (within_timesStatement hn hi _ _)
  · rename_i h
    exact completes_next_bind (by simp [h]) (within_forStatement hn hi _)
  · rename_i h
    refine completes_next_bind (by simp [h]) ?_
    exact within_bind (within_terminator _) fun _ => within_pure _
  · rename_i h
    exact completes_next_bind (by simp [h]) (within_returnStatement hn _ _)
  · rename_i h
    refine completes_next_bind (by simp [h]) ?_
    refine within_bind (within_block hn hi hc) fun _ => ?_
    exact within_bind (within_terminator _) fun _ => within_pure _
  · refine (within_bind (within_expression (n + 1)) fun _ => ?_).completes c hc'
    exact within_bind (within_terminator _) fun _ => within_pure _

omit hn in
theorem within_declaration : Within (n + 1) (declaration (n + 1) item) := by
  have ha := fun place => (hi place).advancing
  have hbody := within_bodyStatement hi hc false
  refine ⟨advancing_declaration ha _, fun c hc' => ?_⟩
  have hi : ∀ place, Within c.rest.length (item place) :=
    fun place => (hi place).mono (Nat.le_of_lt_succ hc')
  have hn : c.rest.length ≤ n + 1 := Nat.le_of_lt hc'
  refine completes_accept_bind rfl ?_ ?_
  · refine within_bind (within_letClause hn) fun _ => ?_
    exact within_bind (within_terminator _) fun _ => within_pure _
  refine completes_accept_bind rfl ?_ ?_
  · exact within_bind (within_routine hn hi hc) fun _ => within_pure _
  refine completes_accept_bind rfl ?_ ?_
  · exact within_classDeclaration hn hi hc
  · exact hbody.completes c hc'

end Statements

/-- A statement has fewer levels of nesting than tokens. -/
theorem within_statement (n : Nat) (place : Place) : Within n (statement n place) := by
  induction n generalizing place with
  | zero => exact within_zero (advancing_statement 0 place) (Nat.le_refl 0)
  | succ n ih =>
    have hc := consuming_statement n .declaration
    cases place with
    | declaration => exact within_declaration ih hc
    | body elseMayFollow => exact within_bodyStatement ih hc elseMayFollow

theorem slots_stop {bound k : Nat} {c : Cursor} (h : c.skipEols.rest = []) :
    slots bound (k + 1) c = .ok [] c.skipEols := by
  have hend : c.skipEols.atEnd = true := by simp [Cursor.atEnd, h]
  refine bind_eq_ok.2 ⟨(), c.skipEols, rfl, bind_eq_ok.2 ⟨c.skipEols, c.skipEols, rfl, ?_⟩⟩
  rw [if_pos hend]
  rfl

theorem slots_step {bound k : Nat} {c d c' : Cursor} {slot : Option Stmt}
    {others : List (Option Stmt)} (hr : c.skipEols.rest ≠ [])
    (hd : recovering (statement bound .declaration) c.skipEols = .ok slot d)
    (hs : slots bound k d = .ok others c') :
    slots bound (k + 1) c = .ok (slot :: others) c' := by
  have hend : ¬ c.skipEols.atEnd = true := by simp [Cursor.atEnd, hr]
  refine bind_eq_ok.2 ⟨(), c.skipEols, rfl, bind_eq_ok.2 ⟨c.skipEols, c.skipEols, rfl, ?_⟩⟩
  rw [if_neg hend]
  exact bind_eq_ok.2 ⟨slot, d, hd, bind_eq_ok.2 ⟨others, c', hs, rfl⟩⟩

/-- With enough turns all tokens are read, and no bound is used up on the way. -/
theorem slots_ends {bound k : Nat} {c : Cursor} (hb : c.rest.length < bound)
    (hk : c.rest.length < k) :
    ∃ found c', slots bound k c = .ok found c' ∧ c'.rest = [] ∧
      ∀ e ∈ c'.errors, e.AtLimit → e ∈ c.errors := by
  induction k generalizing c with
  | zero => exact absurd hk (Nat.not_lt_zero _)
  | succ k ih =>
    have hle := c.advances_skipEols.length_le
    by_cases hr : c.skipEols.rest = []
    · exact ⟨[], c.skipEols, slots_stop hr, hr, fun e he _ => he⟩
    · obtain ⟨slot, d, hd⟩ := recovering_eq_ok (statement bound .declaration) c.skipEols
      have hlt := length_lt_of_recovering (advancing_statement _ _) (consuming_statement _ _) hr hd
      obtain ⟨others, c', hs, hend, hlimit⟩ := ih (c := d) (by omega) (by omega)
      refine ⟨slot :: others, c', slots_step hr hd hs, hend, fun e he hl => ?_⟩
      -- the attempt itself did not use up the bound either
      have hw := within_recovering (within_statement bound .declaration)
      have hc := hw.completes c.skipEols (by omega) e
      simp only [reported, hd] at hc
      exact hc (hlimit e he hl) hl

end Parser

end Jal
