import Mathlib.Logic.Basic
import Jal.Proofs.Grammar.Complete

namespace Jal

namespace Cursor

def ahead (c : Cursor) : List Word := c.rest.map Token.word

theorem length_ahead (c : Cursor) : c.ahead.length = c.rest.length := List.length_map _

/-- The first word that lies ahead is that of the next token. -/
theorem peek_of_ahead {c : Cursor} {w : Word} {ws : List Word} (h : c.ahead = w :: ws) :
    c.peek.word = w ∧ c.advance.ahead = ws ∧ c.advance.rest.length < c.rest.length := by
  unfold ahead at h
  unfold ahead peek advance
  cases hr : c.rest with
  | nil => simp [hr] at h
  | cons t rest =>
    rw [hr, List.map_cons, List.cons.injEq] at h
    exact ⟨h.1, h.2, Nat.lt_succ_self _⟩

theorem kind_of_ahead {c : Cursor} {w : Word} {ws : List Word} (h : c.ahead = w :: ws) :
    c.peek.kind = w.kind := by
  rw [← Token.kind_word, (peek_of_ahead h).1]

theorem nextName_of_ahead {c : Cursor} {n : Name} {ws : List Word} (h : c.ahead = n.word :: ws) :
    c.peek.kind = .ident ∧ c.nextName.bare = n.bare := by
  have hk : c.peek.kind = .ident := kind_of_ahead h
  have hw := (peek_of_ahead h).1
  simp only [Token.word, hk, Name.word, Word.name.injEq] at hw
  exact ⟨hk, by simp [nextName, Name.bare, hw]⟩

end Cursor

open Cursor Jal.Parser

theorem literal?_word (value : Literal) : literal? value.word.kind = some value := by
  cases value with
  | bool b => cases b <;> rfl
  | none | number | text => rfl

theorem unaryOp?_word (op : UnaryOp) : unaryOp? op.word.kind = some op := by cases op <;> rfl

theorem logical_of_word {t : Token} {op : LogicalOp} (h : t.kind = op.word.kind) :
    ∃ k level, levels[k]? = some level ∧ op.level = k + 1 ∧ level t = some (.logical op) := by
  cases op with
  | or => exact ⟨0, disjunction, rfl, rfl, by simp [disjunction, h, LogicalOp.word, Word.kind]⟩
  | and => exact ⟨1, conjunction, rfl, rfl, by simp [conjunction, h, LogicalOp.word, Word.kind]⟩

theorem binary_of_word {t : Token} {op : BinaryOp} (h : t.kind = op.word.kind) :
    ∃ k level, levels[k]? = some level ∧ op.level = k + 1 ∧
      level t = some (.binary op t.line) := by
  cases op with
  | equal | notEqual =>
    exact ⟨2, equality, rfl, rfl, by simp [equality, h, BinaryOp.word, Word.kind]⟩
  | less | lessEqual | greater | greaterEqual =>
    exact ⟨3, comparison, rfl, rfl, by simp [comparison, h, BinaryOp.word, Word.kind]⟩
  | add | subtract => exact ⟨4, sum, rfl, rfl, by simp [sum, h, BinaryOp.word, Word.kind]⟩
  | multiply | divide =>
    exact ⟨5, product, rfl, rfl, by simp [product, h, BinaryOp.word, Word.kind]⟩

/-- What is read at a level is read at every looser one. -/
theorem Reads.loosen {k j : Nat} {e : Expr} {c c' : Cursor} (h : Reads (.expr j e) c c')
    (hk : k ≤ j) (hj : j ≤ 9) : Reads (.expr k e) c c' := by
  obtain ⟨i, rfl⟩ := Nat.le.dest hk
  induction i with
  | zero => exact h
  | succ i ih => exact ih (.tighter (by omega) h) (by omega) (by omega)

theorem Expr.level_le (e : Expr) : e.level ≤ 9 := by
  cases e with
  | binary op => cases op <;> simp [Expr.level, BinaryOp.level]
  | logical op => cases op <;> simp [Expr.level, LogicalOp.level]
  | _ => simp [Expr.level]

/-- A copy of the expression, up to ids and lines, is read from `c` on at a level of precedence, and
the words `us` are left. -/
def Expr.Copied (e : Expr) (level : Nat) (c : Cursor) (us : List Word) : Prop :=
  ∃ e' c', Reads (.expr level e') c c' ∧ e'.bare = e.bare ∧ c'.ahead = us ∧ c'.errors = c.errors

def Expr.AllCopied (es : List Expr) (c : Cursor) (us : List Word) : Prop :=
  ∃ es' c', Reads (.list es') c c' ∧ Expr.bareAll es' = Expr.bareAll es ∧ c'.ahead = us ∧
    c'.errors = c.errors

theorem Expr.Copied.loosen {e : Expr} {k : Nat} {c : Cursor} {us : List Word}
    (h : e.Copied e.level c us) (hk : k ≤ e.level) : e.Copied k c us := by
  obtain ⟨e', c', hr, hrest⟩ := h
  exact ⟨e', c', hr.loosen hk e.level_le, hrest⟩

theorem Expr.commas_wordsOfEach_cons {e : Expr} {rest : List Expr} (h : rest ≠ []) :
    commas (Expr.wordsOfEach (e :: rest)) =
      e.words ++ .symbol .comma :: commas (Expr.wordsOfEach rest) := by
  cases rest with
  | nil => exact absurd rfl h
  | cons e' rest => rfl

/-- A copy of the expression is read wherever its words lie ahead. -/
def Expr.Copyable (e : Expr) : Prop :=
  ∀ c us, c.ahead = e.words ++ us → e.Copied e.level c us

def Expr.AllCopyable (es : List Expr) : Prop :=
  ∀ c us, c.ahead = commas (Expr.wordsOfEach es) ++ us → Expr.AllCopied es c us

theorem Expr.Copyable.copied {e : Expr} {k : Nat} {c : Cursor} {us : List Word} (h : e.Copyable)
    (hk : k ≤ e.level) (ha : c.ahead = e.words ++ us) : e.Copied k c us :=
  (h c us ha).loosen hk

section Constructs

variable {e left right object position value : Expr} {es : List Expr}

theorem copyable_literal (v : Literal) : (Expr.literal v).Copyable := by
  intro c us h
  have hv : literal? c.peek.kind = some v := by
    rw [kind_of_ahead h]
    exact literal?_word v
  exact ⟨_, _, .literal hv, rfl, (peek_of_ahead h).2.1, errors_advance c⟩

theorem copyable_variable (ref : Reference) : (Expr.variable ref).Copyable := by
  intro c us h
  obtain ⟨hk, hb⟩ := nextName_of_ahead h
  exact ⟨_, _, .use hk, congrArg (fun name => Expr.variable ⟨0, name⟩) hb, (peek_of_ahead h).2.1,
    errors_advance c⟩

theorem copyable_selfRef (id line : Nat) : (Expr.selfRef id line).Copyable := by
  intro c us h
  exact ⟨_, _, .selfRef (kind_of_ahead h), rfl, (peek_of_ahead h).2.1, errors_advance c⟩

theorem copyable_superRef (id line : Nat) (method : Name) :
    (Expr.superRef id line method).Copyable := by
  intro c us h
  have hd := (peek_of_ahead h).2.1
  have hn := (peek_of_ahead hd).2.1
  obtain ⟨hk, hb⟩ := nextName_of_ahead hn
  refine ⟨_, _, .superRef (kind_of_ahead h) (kind_of_ahead hd) hk, congrArg (Expr.superRef 0 0) hb,
    (peek_of_ahead hn).2.1, ?_⟩
  simp only [errors_nextFresh, errors_advance]

theorem copyable_grouping (he : e.Copyable) : (Expr.grouping e).Copyable := by
  intro c us h
  simp only [Expr.words, List.cons_append, List.append_assoc, List.nil_append] at h
  obtain ⟨e', d, hr, hb, hd, herr⟩ := he.copied (Nat.zero_le _) (peek_of_ahead h).2.1
  exact ⟨_, _, .grouping (kind_of_ahead h) hr (kind_of_ahead hd), congrArg Expr.grouping hb,
    (peek_of_ahead hd).2.1, by rw [errors_advance, herr, errors_advance]⟩

theorem copyable_unary (op : UnaryOp) (line : Nat) (hl : 7 ≤ e.level) (he : e.Copyable) :
    (Expr.unary op line e).Copyable := by
  intro c us h
  simp only [Expr.words, List.cons_append] at h
  have ho : unaryOp? c.peek.kind = some op := by
    rw [kind_of_ahead h]
    exact unaryOp?_word op
  obtain ⟨e', d, hr, hb, hd, herr⟩ := he.copied hl (peek_of_ahead h).2.1
  exact ⟨_, _, .unary ho hr, congrArg (Expr.unary op 0) hb, hd, by rw [herr, errors_advance]⟩

/-- Two operands with the word of an operator between them, which says at which level they are
read. -/
theorem copied_infix {level : Nat} {w : Word} {combine : Token → Combine} {c : Cursor}
    {us : List Word} (hop : ∀ t : Token, t.kind = w.kind →
      ∃ k parser, levels[k]? = some parser ∧ level = k + 1 ∧ parser t = some (combine t))
    (hl : level ≤ left.level) (hleft : left.Copyable) (hr : level + 1 ≤ right.level)
    (hright : right.Copyable) (h : c.ahead = left.words ++ w :: (right.words ++ us)) :
    ∃ t left' right' c', Reads (.expr level (combine t left' right')) c c' ∧
      left'.bare = left.bare ∧ right'.bare = right.bare ∧ c'.ahead = us ∧ c'.errors = c.errors := by
  obtain ⟨left', d, hreads, hlb, hd, hle⟩ := hleft.copied hl h
  obtain ⟨k, parser, hk, rfl, ho⟩ := hop d.peek (kind_of_ahead hd)
  obtain ⟨right', d', hreads', hrb, hd', hre⟩ := hright.copied hr (peek_of_ahead hd).2.1
  exact ⟨d.peek, left', right', d', .binary hk hreads ho hreads', hlb, hrb, hd',
    by rw [hre, errors_advance, hle]⟩

theorem copyable_binary (op : BinaryOp) (line : Nat) (hl : op.level ≤ left.level)
    (hleft : left.Copyable) (hr : op.level + 1 ≤ right.level) (hright : right.Copyable) :
    (Expr.binary op line left right).Copyable := by
  intro c us h
  simp only [Expr.words, List.cons_append, List.append_assoc] at h
  obtain ⟨t, left', right', c', hreads, hlb, hrb, hrest⟩ :=
    copied_infix (fun t => binary_of_word) hl hleft hr hright h
  exact ⟨_, c', hreads, congrArg₂ (Expr.binary op 0) hlb hrb, hrest⟩

theorem copyable_logical (op : LogicalOp) (hl : op.level ≤ left.level) (hleft : left.Copyable)
    (hr : op.level + 1 ≤ right.level) (hright : right.Copyable) :
    (Expr.logical op left right).Copyable := by
  intro c us h
  simp only [Expr.words, List.cons_append, List.append_assoc] at h
  obtain ⟨t, left', right', c', hreads, hlb, hrb, hrest⟩ :=
    copied_infix (fun t => logical_of_word) hl hleft hr hright h
  exact ⟨_, c', hreads, congrArg₂ (Expr.logical op) hlb hrb, hrest⟩

/-- What is assigned to is first read by itself. -/
theorem copied_assignment {target assigned : Expr} {c d : Cursor} {us : List Word}
    (ht : Reads (.expr 1 target) c d) (he : d.errors = c.errors) (hv : value.Copyable)
    (hassign : ∀ value' : Expr, value'.bare = value.bare →
      ∃ assigned', assignTo? target value' = some assigned' ∧ assigned'.bare = assigned.bare)
    (h : d.ahead = .symbol .assign :: (value.words ++ us)) : assigned.Copied 0 c us := by
  obtain ⟨value', d', hreads, hvb, hd', hve⟩ := hv.copied (Nat.zero_le _) (peek_of_ahead h).2.1
  obtain ⟨assigned', ha, hb⟩ := hassign value' hvb
  exact ⟨assigned', d', .assign ht (kind_of_ahead h) hreads ha, hb, hd',
    by rw [hve, errors_advance, he]⟩

theorem copyable_assign (ref : Reference) (hv : value.Copyable) :
    (Expr.assign ref value).Copyable := by
  intro c us h
  simp only [Expr.words, List.cons_append] at h
  obtain ⟨hk, hb⟩ := nextName_of_ahead h
  have ht : Reads (.expr 1 (.variable ⟨c.nextId, c.nextName⟩)) c c.advance.nextFresh :=
    Reads.loosen (.use hk) (by decide) (by decide)
  refine copied_assignment ht (errors_advance c) hv (fun value' hvb => ⟨_, rfl, ?_⟩)
    (peek_of_ahead h).2.1
  exact congrArg₂ (fun name value => Expr.assign ⟨0, name⟩ value) hb hvb

theorem copied_get {name : Name} {c : Cursor} {us : List Word} (hl : 8 ≤ object.level)
    (ho : object.Copyable) (h : c.ahead = object.words ++ .symbol .dot :: name.word :: us) :
    ∃ object' name' c', Reads (.expr 8 (.get object' name')) c c' ∧ object'.bare = object.bare ∧
      name'.bare = name.bare ∧ c'.ahead = us ∧ c'.errors = c.errors := by
  obtain ⟨object', d, hreads, hob, hd, hoe⟩ := ho.copied hl h
  have hn := (peek_of_ahead hd).2.1
  obtain ⟨hk, hb⟩ := nextName_of_ahead hn
  exact ⟨_, _, _, .get hreads (kind_of_ahead hd) hk, hob, hb, (peek_of_ahead hn).2.1,
    by rw [errors_advance, errors_advance, hoe]⟩

theorem copyable_get (name : Name) (hl : 8 ≤ object.level) (ho : object.Copyable) :
    (Expr.get object name).Copyable := by
  intro c us h
  simp only [Expr.words, List.append_assoc] at h
  obtain ⟨object', name', c', hreads, hob, hnb, hrest⟩ := copied_get hl ho h
  exact ⟨_, c', hreads, congrArg₂ Expr.get hob hnb, hrest⟩

theorem copyable_set (name : Name) (hl : 8 ≤ object.level) (ho : object.Copyable)
    (hv : value.Copyable) : (Expr.set object name value).Copyable := by
  intro c us h
  simp only [Expr.words, List.append_assoc, List.cons_append] at h
  obtain ⟨object', name', d, hreads, hob, hnb, hd, he⟩ := copied_get hl ho h
  have ht := hreads.loosen (k := 1) (by decide) (by decide)
  refine copied_assignment ht he hv (fun value' hvb => ⟨_, rfl, ?_⟩) hd
  change Expr.set object'.bare name'.bare value'.bare = Expr.set object.bare name.bare value.bare
  rw [hob, hnb, hvb]

theorem copied_index {c : Cursor} {us : List Word} (hl : 8 ≤ object.level) (ho : object.Copyable)
    (hp : position.Copyable)
    (h : c.ahead = object.words ++ .symbol .leftBracket ::
      (position.words ++ .symbol .rightBracket :: us)) :
    ∃ object' line position' c', Reads (.expr 8 (.index object' line position')) c c' ∧
      object'.bare = object.bare ∧ position'.bare = position.bare ∧ c'.ahead = us ∧
      c'.errors = c.errors := by
  obtain ⟨object', d, hreads, hob, hd, hoe⟩ := ho.copied hl h
  obtain ⟨position', d', hreads', hpb, hd', hpe⟩ :=
    hp.copied (Nat.zero_le _) (peek_of_ahead hd).2.1
  exact ⟨_, _, _, _, .index hreads (kind_of_ahead hd) hreads' (kind_of_ahead hd'), hob, hpb,
    (peek_of_ahead hd').2.1, by rw [errors_advance, hpe, errors_advance, hoe]⟩

theorem copyable_index (line : Nat) (hl : 8 ≤ object.level) (ho : object.Copyable)
    (hp : position.Copyable) : (Expr.index object line position).Copyable := by
  intro c us h
  simp only [Expr.words, List.append_assoc, List.cons_append] at h
  obtain ⟨object', line', position', c', hreads, hob, hpb, hrest⟩ := copied_index hl ho hp h
  exact ⟨_, c', hreads, congrArg₂ (Expr.index · 0 ·) hob hpb, hrest⟩

theorem copyable_indexSet (line : Nat) (hl : 8 ≤ object.level) (ho : object.Copyable)
    (hp : position.Copyable) (hv : value.Copyable) :
    (Expr.indexSet object line position value).Copyable := by
  intro c us h
  simp only [Expr.words, List.append_assoc, List.cons_append] at h
  obtain ⟨object', line', position', d, hreads, hob, hpb, hd, he⟩ := copied_index hl ho hp h
  have ht := hreads.loosen (k := 1) (by decide) (by decide)
  refine copied_assignment ht he hv (fun value' hvb => ⟨_, rfl, ?_⟩) hd
  change Expr.indexSet object'.bare 0 position'.bare value'.bare =
    Expr.indexSet object.bare 0 position.bare value.bare
  rw [hob, hpb, hvb]

/-- No arguments are a case of their own: a list between commas has one expression at least. -/
theorem copyable_call (line : Nat) (hl : 8 ≤ e.level) (he : e.Copyable)
    (hes : es ≠ [] → Expr.AllCopyable es) : (Expr.call e line es).Copyable := by
  intro c us h
  simp only [Expr.words, List.append_assoc, List.cons_append] at h
  obtain ⟨e', d, hf, hfb, hd, hfe⟩ := he.copied hl h
  have ha := (peek_of_ahead hd).2.1
  by_cases hne : es = []
  · rw [hne] at ha ⊢
    exact ⟨_, _, .emptyCall hf (kind_of_ahead hd) (kind_of_ahead ha),
      congrArg (Expr.call · 0 []) hfb, (peek_of_ahead ha).2.1,
      by rw [errors_advance, errors_advance, hfe]⟩
  · obtain ⟨es', d', hr, hesb, hd', hese⟩ := hes hne _ _ ha
    exact ⟨_, _, .call hf (kind_of_ahead hd) hr (kind_of_ahead hd'),
      congrArg₂ (Expr.call · 0 ·) hfb hesb, (peek_of_ahead hd').2.1,
      by rw [errors_advance, hese, errors_advance, hfe]⟩

theorem copyable_array (hes : es ≠ [] → Expr.AllCopyable es) : (Expr.array es).Copyable := by
  intro c us h
  simp only [Expr.words, List.append_assoc, List.cons_append] at h
  have ha := (peek_of_ahead h).2.1
  by_cases hne : es = []
  · rw [hne] at ha ⊢
    refine ⟨_, _, .emptyArray (kind_of_ahead h) (kind_of_ahead ha), rfl, (peek_of_ahead ha).2.1, ?_⟩
    rw [errors_advance, errors_advance]
  · obtain ⟨es', d', hr, hesb, hd', hese⟩ := hes hne _ _ ha
    exact ⟨_, _, .array (kind_of_ahead h) hr (kind_of_ahead hd'), congrArg Expr.array hesb,
      (peek_of_ahead hd').2.1, by rw [errors_advance, hese, errors_advance]⟩

theorem allCopyable_cons (he : e.Copyable) (hes : es ≠ [] → Expr.AllCopyable es) :
    Expr.AllCopyable (e :: es) := by
  intro c us h
  by_cases hne : es = []
  · rw [hne] at h ⊢
    obtain ⟨e', d, hr, hb, hd, herr⟩ := he.copied (Nat.zero_le _) h
    exact ⟨[e'], d, .one hr, congrArg ([·]) hb, hd, herr⟩
  · rw [Expr.commas_wordsOfEach_cons hne, List.append_assoc, List.cons_append] at h
    obtain ⟨e', d, hr, hb, hd, herr⟩ := he.copied (Nat.zero_le _) h
    obtain ⟨es', d', hrs, hesb, hd', hese⟩ := hes hne _ _ (peek_of_ahead hd).2.1
    exact ⟨_, _, .more hr (kind_of_ahead hd) hrs, congrArg₂ List.cons hb hesb, hd',
      by rw [hese, errors_advance, herr]⟩

end Constructs

mutual

theorem Expr.copyable : (e : Expr) → e.Layered → e.Copyable
  | .literal v, _ => copyable_literal v
  | .variable ref, _ => copyable_variable ref
  | .selfRef id line, _ => copyable_selfRef id line
  | .superRef id line method, _ => copyable_superRef id line method
  | .grouping inner, hw => copyable_grouping (inner.copyable hw)
  | .unary op line operand, hw => copyable_unary op line hw.1 (operand.copyable hw.2)
  | .binary op line left right, hw =>
    copyable_binary op line hw.1 (left.copyable hw.2.1) hw.2.2.1 (right.copyable hw.2.2.2)
  | .logical op left right, hw =>
    copyable_logical op hw.1 (left.copyable hw.2.1) hw.2.2.1 (right.copyable hw.2.2.2)
  | .assign ref value, hw => copyable_assign ref (value.copyable hw)
  | .get object name, hw => copyable_get name hw.1 (object.copyable hw.2)
  | .set object name value, hw =>
    copyable_set name hw.1 (object.copyable hw.2.1) (value.copyable hw.2.2)
  | .index object line position, hw =>
    copyable_index line hw.1 (object.copyable hw.2.1) (position.copyable hw.2.2)
  | .indexSet object line position value, hw =>
    copyable_indexSet line hw.1 (object.copyable hw.2.1) (position.copyable hw.2.2.1)
      (value.copyable hw.2.2.2)
  | .call callee line arguments, hw =>
    copyable_call line hw.1 (callee.copyable hw.2.1) (Expr.allCopyable arguments hw.2.2)
  | .array elements, hw => copyable_array (Expr.allCopyable elements hw)

theorem Expr.allCopyable : (es : List Expr) → Expr.AllLayered es → es ≠ [] → Expr.AllCopyable es
  | [], _, hne => absurd rfl hne
  | first :: others, hw, _ =>
    allCopyable_cons (first.copyable hw.1) (Expr.allCopyable others hw.2)

end

/-- What parsing recovers from words: a copy up to `bare`, with the words `us` left over and no
error recorded. -/
def Parser.Recovers {α : Type} (bare : α → α) (p : Parser α) (a : α) (c : Cursor)
    (us : List Word) : Prop :=
  ∃ a' c', p c = .ok a' c' ∧ bare a' = bare a ∧ c'.ahead = us ∧ c'.errors = c.errors

/-- An expression is recovered from its words before a word that cannot carry it on. -/
theorem Expr.recovered {e : Expr} (he : e.Layered) {c : Cursor} {w : Word} {us : List Word}
    (h : c.ahead = e.words ++ w :: us) (hw : extendsAt w.kind = none) {n : Nat}
    (hn : c.rest.length < n) : Recovers Expr.bare (expression n) e c (w :: us) := by
  -- the grammar has the copy, and the parser finds what the grammar has
  obtain ⟨e', c', hr, hb, hc', herr⟩ := (e.copyable he).copied (Nat.zero_le _) h
  have hs : Stops 0 c'.peek := stops_of_none (by rw [kind_of_ahead hc', hw])
  exact ⟨e', c', expression_of_found hr.found hn hs, hb, hc', herr⟩

theorem startsExpression_word (value : Literal) : startsExpression value.word.kind = true := by
  simp only [startsExpression, startsOperand, literal?_word, Option.isSome_some, Bool.true_or]

/-- The words of an expression begin with one that can begin an expression. -/
theorem Expr.words_eq_cons :
    (e : Expr) → ∃ w ws, e.words = w :: ws ∧ startsExpression w.kind = true
  | .literal value => ⟨_, _, rfl, startsExpression_word value⟩
  | .unary op _ _ => ⟨_, _, rfl, by cases op <;> rfl⟩
  | .grouping _ | .variable _ | .assign _ _ | .selfRef _ _ | .superRef _ _ _ | .array _ =>
    ⟨_, _, rfl, rfl⟩
  | .binary _ _ e _ | .logical _ e _ | .get e _ | .set e _ _ | .index e _ _ | .indexSet e _ _ _
  | .call e _ _ => by
    obtain ⟨w, ws, he, hw⟩ := e.words_eq_cons
    simp only [Expr.words, he, List.cons_append]
    exact ⟨_, _, rfl, hw⟩

end Jal
