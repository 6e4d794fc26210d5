import Jal.Proofs.Grammar.Bounds
import Jal.Proofs.Program.Renumber

namespace Jal

open Jal.Parser

def TokenKind.isEnd : TokenKind → Bool
  | eol | eof => true
  | _ => false

theorem Cursor.ne_of_not_isEnd {c : Cursor} (h : c.peek.kind.isEnd = false) :
    c.peek.kind ≠ .eol ∧ c.peek.kind ≠ .eof := by
  constructor
  · intro he
    rw [he] at h
    cases h
  · intro he
    rw [he] at h
    cases h

/-- Another place for the tokens to come: what was read before them, what comes after them, the
line of the end, the errors so far, and the first of the ids to hand out there instead of `fromId`.
`Holds` tells the cursors that can be put there: the end is not in sight unless it is the same one,
and this lasts as long as no end of line is read. -/
structure Situation where
  previous : Option TokenKind
  after : List Token
  endLine : Nat
  errors : List ParseError
  fromId : Nat
  toId : Nat
  Holds : Cursor → Prop
  inSight : ∀ {c : Cursor}, Holds c → c.rest ≠ [] ∨ after = [] ∧ endLine = c.endLine
  fromId_le : ∀ {c : Cursor}, Holds c → fromId ≤ c.nextId
  advance : ∀ {c : Cursor}, Holds c → c.peek.kind ≠ .eol → Holds c.advance
  nextFresh : ∀ {c : Cursor}, Holds c → Holds c.nextFresh
  withError : ∀ {c : Cursor} (e : ParseError), Holds c → Holds (c.withError e)

namespace Situation

variable {α β : Type} (s : Situation)

def rename (id : Nat) : Nat := id - s.fromId + s.toId

def place (c : Cursor) : Cursor where
  previous := c.previous <|> s.previous
  rest := c.rest ++ s.after
  endLine := s.endLine
  errors := c.errors ++ s.errors
  nextId := s.rename c.nextId

/-- An outcome in the situation; `φ` gives what was read its other ids. -/
def outcome (φ : α → α) :
    EStateM.Result ParseError Cursor α → EStateM.Result ParseError Cursor α
  | .ok a c => .ok (φ a) (s.place c)
  | .error e c => .error e (s.place c)

/-- From `c` on, `q` does in the situation what `p` does outside it. -/
structure Follows (φ : α → α) (p q : Parser α) (c : Cursor) : Prop where
  run : q (s.place c) = s.outcome φ (p c)
  holds : s.Holds (p.final c)

/-- `p` only moves on, and where fewer than `n` tokens are to come `q` follows it. -/
structure Carries (n : Nat) (φ : α → α) (p q : Parser α) : Prop where
  advancing : Advancing p
  follows : ∀ c : Cursor, s.Holds c → c.rest.length < n → s.Follows φ p q c

variable {s}

theorem Carries.mono {m n : Nat} {φ : α → α} {p q : Parser α} (h : s.Carries n φ p q)
    (hm : m ≤ n) : s.Carries m φ p q :=
  ⟨h.advancing, fun c hc hlt => h.follows c hc (Nat.lt_of_lt_of_le hlt hm)⟩

section Cursors

variable {c : Cursor} (h : s.Holds c)

include h

theorem peek_place : (s.place c).peek = c.peek := by
  unfold Cursor.peek place
  cases hr : c.rest with
  | cons t rest => rfl
  | nil =>
    obtain ⟨ha, he⟩ := (s.inSight h).resolve_left (absurd hr)
    simp [ha, he]

theorem advance_place : (s.place c).advance = s.place c.advance := by
  cases hr : c.rest with
  | cons t rest => simp [Cursor.advance, place, hr]
  | nil =>
    obtain ⟨ha, -⟩ := (s.inSight h).resolve_left (absurd hr)
    simp [Cursor.advance, place, hr, ha]

theorem nextFresh_place : (s.place c).nextFresh = s.place c.nextFresh := by
  have hid : s.rename c.nextId + 1 = s.rename (c.nextId + 1) := by
    have hle := s.fromId_le h
    unfold rename
    omega
  simp only [Cursor.nextFresh, place, hid]

end Cursors

section Steps

variable {n : Nat} {c : Cursor} {φ : α → α} {ψ : β → β} {p q : Parser α} {f g : α → Parser β}

theorem follows_of_ok {a b : α} {d d' : Cursor} (hp : p c = .ok a d) (hq : q (s.place c) = .ok b d')
    (hb : φ a = b) (hd : d' = s.place d) (h : s.Holds d) : s.Follows φ p q c := by
  constructor
  · rw [hp, hq, ← hb, hd]
    rfl
  · rwa [final, hp]

theorem follows_of_error {e : ParseError} (hp : p c = .error e c)
    (hq : q (s.place c) = .error e (s.place c)) (h : s.Holds c) : s.Follows φ p q c := by
  constructor
  · rw [hp, hq]
    rfl
  · rwa [final, hp]

theorem Follows.of_ok (h : s.Follows φ p q c) {a : α} {d : Cursor} (hp : p c = .ok a d) :
    q (s.place c) = .ok (φ a) (s.place d) ∧ s.Holds d := by
  have hrun := h.run
  have hd := h.holds
  rw [hp] at hrun
  rw [final, hp] at hd
  exact ⟨hrun, hd⟩

theorem Follows.of_error (h : s.Follows φ p q c) {e : ParseError} {d : Cursor}
    (hp : p c = .error e d) : q (s.place c) = .error e (s.place d) ∧ s.Holds d := by
  have hrun := h.run
  have hd := h.holds
  rw [hp] at hrun
  rw [final, hp] at hd
  exact ⟨hrun, hd⟩

theorem follows_bind (hp : s.Follows φ p q c)
    (hf : ∀ a d, p c = .ok a d → s.Holds d → s.Follows ψ (f a) (g (φ a)) d) :
    s.Follows ψ (p >>= f) (q >>= g) c := by
  cases h : p c with
  | ok a d =>
    obtain ⟨hq, hd⟩ := hp.of_ok h
    have hfa := hf a d h hd
    constructor
    · simpa only [bind, EStateM.bind, h, hq] using hfa.run
    · simpa only [final, bind, EStateM.bind, h] using hfa.holds
  | error e d =>
    obtain ⟨hq, hd⟩ := hp.of_error h
    constructor
    · simp only [bind, EStateM.bind, h, hq, outcome]
    · simpa only [final, bind, EStateM.bind, h] using hd

theorem carries_bind (hp : s.Carries n φ p q) (hf : ∀ a, s.Carries n ψ (f a) (g (φ a))) :
    s.Carries n ψ (p >>= f) (q >>= g) := by
  refine ⟨advancing_bind hp.advancing fun a => (hf a).advancing, fun c hc hlt => ?_⟩
  refine follows_bind (hp.follows c hc hlt) fun a d hd hdc => ?_
  have hle := (hp.advancing.of_ok hd).length_le
  exact (hf a).follows d hdc (Nat.lt_of_le_of_lt hle hlt)

theorem follows_pure (h : s.Holds c) {a b : α} (hb : φ a = b) :
    s.Follows φ (pure a) (pure b) c :=
  follows_of_ok rfl rfl hb rfl h

theorem carries_pure {a b : α} (hb : φ a = b) : s.Carries n φ (pure a) (pure b) :=
  ⟨advancing_pure a, fun _ hc _ => follows_pure hc hb⟩

theorem follows_ite {P : Prop} [Decidable P] {p' q' : Parser α} (h : P → s.Follows φ p q c)
    (h' : ¬ P → s.Follows φ p' q' c) :
    s.Follows φ (if P then p else p') (if P then q else q') c := by
  by_cases hP : P
  · rw [if_pos hP, if_pos hP]
    exact h hP
  · rw [if_neg hP, if_neg hP]
    exact h' hP

theorem carries_ite {P : Prop} [Decidable P] {p' q' : Parser α} (h : s.Carries n φ p q)
    (h' : s.Carries n φ p' q') : s.Carries n φ (if P then p else p') (if P then q else q') := by
  by_cases hP : P
  · rwa [if_pos hP, if_pos hP]
  · rwa [if_neg hP, if_neg hP]

theorem carries_map {χ : α → β} (h : s.Carries n φ p q) (hχ : ∀ a, ψ (χ a) = χ (φ a)) :
    s.Carries n ψ (χ <$> p) (χ <$> q) := by
  refine ⟨advancing_map h.advancing, fun c hc hlt => ?_⟩
  have hf := h.follows c hc hlt
  cases hp : p c with
  | ok a d =>
    obtain ⟨hq, hd⟩ := hf.of_ok hp
    refine follows_of_ok (a := χ a) ?_ ?_ (hχ a) rfl hd
    · simp only [Functor.map, EStateM.map, hp]
    · simp only [Functor.map, EStateM.map, hq]
  | error e d =>
    obtain ⟨hq, hd⟩ := hf.of_error hp
    constructor
    · simp only [Functor.map, EStateM.map, hp, hq, outcome]
    · simpa only [final, Functor.map, EStateM.map, hp] using hd

/-- Where the bound is used up there cannot be fewer tokens. -/
theorem carries_zero (ha : Advancing p) (hn : n ≤ 0) : s.Carries n φ p q :=
  ⟨ha, fun _ _ hlt => absurd (Nat.lt_of_lt_of_le hlt hn) (Nat.not_lt_zero _)⟩

theorem follows_unexpected (h : s.Holds c) (what : String) :
    s.Follows φ (unexpected what) (unexpected what) c := by
  refine follows_of_error rfl ?_ h
  rw [unexpected, peek_place h]

theorem carries_check (k : TokenKind → Bool) :
    s.Carries n id (Parser.check k) (Parser.check k) := by
  refine ⟨advancing_check k, fun c hc _ => follows_of_ok rfl rfl ?_ rfl hc⟩
  rw [Cursor.nextIs, Cursor.nextIs, peek_place hc]
  rfl

theorem follows_next (h : s.Holds c) (hk : c.peek.kind ≠ .eol) : s.Follows id next next c :=
  follows_of_ok rfl rfl (peek_place h).symm (advance_place h) (s.advance h hk)

theorem carries_freshId : s.Carries n s.rename freshId freshId :=
  ⟨advancing_freshId, fun _ hc _ =>
    follows_of_ok rfl rfl rfl (nextFresh_place hc) (s.nextFresh hc)⟩

theorem carries_report (e : ParseError) : s.Carries n id (report e) (report e) :=
  ⟨advancing_report e, fun _ hc _ => follows_of_ok rfl rfl rfl rfl (s.withError e hc)⟩

theorem follows_peek_bind {f g : Token → Parser β} (h : s.Holds c)
    (hf : s.Follows ψ (f c.peek) (g c.peek) c) : s.Follows ψ (peek >>= f) (peek >>= g) c := by
  have hp : s.Follows id peek peek c := follows_of_ok rfl rfl (peek_place h).symm rfl h
  refine follows_bind hp ?_
  rintro _ _ ⟨⟩ -
  exact hf

/-- After a token has been read there are fewer to come than before. -/
theorem follows_next_bind {f g : Token → Parser β} (h : s.Holds c)
    (hk : c.peek.kind.isEnd = false) (hf : s.Carries c.rest.length ψ (f c.peek) (g c.peek)) :
    s.Follows ψ (next >>= f) (next >>= g) c := by
  obtain ⟨hne, hend⟩ := Cursor.ne_of_not_isEnd hk
  refine follows_bind (follows_next h hne) ?_
  rintro _ _ ⟨⟩ hd
  exact hf.follows _ hd (Cursor.length_rest_advance_lt hend)

variable {k : TokenKind → Bool}

theorem follows_accept (h : s.Holds c) (hnext : k c.peek.kind = true → s.Holds c.advance) :
    s.Follows id (accept k) (accept k) c := by
  have hp := accept_apply k c
  have hq := accept_apply k (s.place c)
  rw [peek_place h] at hq
  refine follows_of_ok hp hq rfl ?_ ?_
  · rw [apply_ite s.place, advance_place h]
  · split
    · exact hnext ‹_›
    · exact h

variable (hk : k .eol = false)

include hk

theorem holds_advance (h : s.Holds c) (hkind : k c.peek.kind = true) : s.Holds c.advance :=
  s.advance h fun he => by simp [he, hk] at hkind

theorem carries_accept : s.Carries n id (accept k) (accept k) :=
  ⟨advancing_accept k, fun _ hc _ => follows_accept hc (holds_advance hk hc)⟩

theorem carries_expect (what : String) : s.Carries n id (expect k what) (expect k what) := by
  refine ⟨advancing_expect k what, fun c hc _ => ?_⟩
  have hp := peek_place hc
  by_cases hkind : k c.peek.kind = true
  · have hd := holds_advance hk hc hkind
    refine follows_of_ok (if_pos hkind) (if_pos ?_) hp.symm (advance_place hc) hd
    rwa [Cursor.nextIs, hp]
  · refine follows_of_error (if_neg hkind) ((if_neg ?_).trans ?_) hc
    · rwa [Cursor.nextIs, hp]
    · rw [unexpected, hp]

omit hk in
theorem carries_name (what : String) : s.Carries n id (name what) (name what) :=
  carries_bind (carries_expect rfl what) fun _ => carries_pure rfl

/-- A token that is accepted leaves fewer to come. -/
theorem follows_accept_bind {f g : Bool → Parser β} (h : s.Holds c) (hend : k .eof = false)
    (ht : s.Carries c.rest.length ψ (f true) (g true))
    (hf : s.Follows ψ (f false) (g false) c) : s.Follows ψ (accept k >>= f) (accept k >>= g) c := by
  refine follows_bind (follows_accept h (holds_advance hk h)) fun b d hd hdc => ?_
  rcases accept_eq_ok.1 hd with ⟨hkind, rfl, rfl⟩ | ⟨-, rfl, rfl⟩
  · have hne : c.peek.kind ≠ .eof := fun he => by simp [he, hend] at hkind
    exact ht.follows _ hdc (Cursor.length_rest_advance_lt hne)
  · exact hf

end Steps

section Expressions

variable {n bound bound' k k' : Nat} {φ : α → α}

/-- An operator is no end, and it makes the same of operands with other ids. -/
theorem operator_renumber {level : Level} (hm : level ∈ levels) {t : Token} {combine : Combine}
    (h : level t = some combine) (f : Nat → Nat) :
    t.kind.isEnd = false ∧ ∀ left right : Expr,
      (combine left right).renumber f = combine (left.renumber f) (right.renumber f) := by
  obtain ⟨k, hk⟩ := List.getElem?_of_mem hm
  rw [← t.kind_word]
  rcases operator_cases hk h with ⟨op, -, hw, rfl⟩ | ⟨op, -, hw, rfl⟩
  · rw [hw]
    exact ⟨by cases op <;> rfl, fun left right => by rw [Expr.renumber]⟩
  · rw [hw]
    exact ⟨by cases op <;> rfl, fun left right => by rw [Expr.renumber]⟩

theorem isEnd_of_literal? {kind : TokenKind} {value : Literal} (h : literal? kind = some value) :
    kind.isEnd = false := by
  cases kind with
  | eol | eof => cases h
  | _ => rfl

theorem isEnd_of_unaryOp? {kind : TokenKind} {op : UnaryOp} (h : unaryOp? kind = some op) :
    kind.isEnd = false := by
  cases kind with
  | eol | eof => cases h
  | _ => rfl

theorem carries_infixTail {level : Level} (hm : level ∈ levels) {operand operand' : Parser Expr}
    (ho : s.Carries n (Expr.renumber s.rename) operand operand') (hk : n ≤ k) (hk' : n ≤ k')
    (left : Expr) :
    s.Carries n (Expr.renumber s.rename) (infixTail level operand k left)
      (infixTail level operand' k' (left.renumber s.rename)) := by
  have ha := advancing_infixTail level ho.advancing
  -- every operator is a token, so `n` goes down with both bounds
  induction k generalizing n k' left with
  | zero => exact carries_zero (ha _ _) hk
  | succ k ih =>
    cases k' with
    | zero => exact carries_zero (ha _ _) hk'
    | succ k' =>
      refine ⟨ha _ _, fun c hc hlt => follows_peek_bind hc ?_⟩
      cases h : level c.peek with
      | none => exact follows_pure hc rfl
      | some combine =>
        obtain ⟨hend, hcomb⟩ := operator_renumber hm h s.rename
        refine follows_next_bind hc hend ?_
        have ho := ho.mono (Nat.le_of_lt hlt)
        refine carries_bind ho fun right => ?_
        rw [← hcomb]
        exact ih ho (by omega) (by omega) _

theorem carries_infixChain {level : Level} (hm : level ∈ levels) {operand operand' : Parser Expr}
    (ho : s.Carries n (Expr.renumber s.rename) operand operand') (hn : n ≤ bound)
    (hn' : n ≤ bound') :
    s.Carries n (Expr.renumber s.rename) (infixChain bound level operand)
      (infixChain bound' level operand') :=
  carries_bind ho fun left => carries_infixTail hm ho hn hn' left

theorem carries_commaSeparated {item item' : Parser α} (hi : s.Carries n φ item item') (hk : n ≤ k)
    (hk' : n ≤ k') :
    s.Carries n (List.map φ) (commaSeparated item k) (commaSeparated item' k') := by
  have ha := advancing_commaSeparated hi.advancing
  induction k generalizing n k' with
  | zero => exact carries_zero (ha _) hk
  | succ k ih =>
    cases k' with
    | zero => exact carries_zero (ha _) hk'
    | succ k' =>
      refine ⟨ha _, fun c hc hlt => follows_bind (hi.follows c hc hlt) fun first d hd hdc => ?_⟩
      have hle := (hi.advancing.of_ok hd).length_le
      refine follows_accept_bind rfl hdc rfl ?_ (follows_pure hdc rfl)
      have hi : s.Carries d.rest.length φ item item' := hi.mono (by omega)
      exact carries_bind (ih hi (by omega) (by omega)) fun others => carries_pure rfl

theorem carries_itemsUpTo {item item' : Parser α} (hi : s.Carries n φ item item') (hn : n ≤ bound)
    (hn' : n ≤ bound') (stop : Symbol) :
    s.Carries n (List.map φ) (itemsUpTo bound stop item) (itemsUpTo bound' stop item') := by
  refine carries_bind (carries_check _) fun stopped => ?_
  exact carries_ite (carries_pure rfl) (carries_commaSeparated hi hn hn')

variable {expr expr' : Parser Expr}

/-- Brackets are tokens: there is one token more around an expression than in it. -/
theorem carries_primary (hx : s.Carries n (Expr.renumber s.rename) expr expr') (hn : n ≤ bound)
    (hn' : n ≤ bound') :
    s.Carries (n + 1) (Expr.renumber s.rename) (primary bound expr) (primary bound' expr') := by
  refine ⟨advancing_primary bound hx.advancing, fun c hc hlt => follows_peek_bind hc ?_⟩
  have hx := hx.mono (Nat.le_of_lt_succ hlt)
  cases hv : literal? c.peek.kind with
  | some value =>
    exact follows_next_bind hc (isEnd_of_literal? hv) (carries_pure (by rw [Expr.renumber]))
  | none =>
    generalize hk : c.peek.kind = kind
    have read {f g : Token → Parser Expr}
        (hf : s.Carries c.rest.length (Expr.renumber s.rename) (f c.peek) (g c.peek))
        (hend : kind.isEnd = false) :
        s.Follows (Expr.renumber s.rename) (next >>= f) (next >>= g) c :=
      follows_next_bind hc (hk ▸ hend) hf
    dsimp only
    split
    · refine read ?_ rfl
      refine carries_bind carries_freshId fun _ => carries_pure ?_
      rw [Expr.renumber, Reference.renumber]
    · refine read ?_ rfl
      exact carries_bind carries_freshId fun _ => carries_pure (by rw [Expr.renumber])
    · refine read ?_ rfl
      refine carries_bind (carries_expect rfl _) fun _ => ?_
      refine carries_bind (carries_name _) fun _ => ?_
      exact carries_bind carries_freshId fun _ => carries_pure (by rw [Expr.renumber, id])
    · refine read ?_ rfl
      refine carries_bind hx fun _ => ?_
      exact carries_bind (carries_expect rfl _) fun _ => carries_pure (by rw [Expr.renumber])
    · refine read ?_ rfl
      refine carries_bind (carries_itemsUpTo hx (by omega) (by omega) _) fun _ => ?_
      refine carries_bind (carries_expect rfl _) fun _ => carries_pure ?_
      rw [Expr.renumber, Expr.renumberAll_eq_map]
    · exact follows_unexpected hc _

theorem carries_postfixTail (hx : s.Carries n (Expr.renumber s.rename) expr expr') (hn : n ≤ bound)
    (hn' : n ≤ bound') {m : Nat} (hm : m ≤ n + 1) (hk : m ≤ k) (hk' : m ≤ k') (e : Expr) :
    s.Carries m (Expr.renumber s.rename) (postfixTail bound expr k e)
      (postfixTail bound' expr' k' (e.renumber s.rename)) := by
  have ha := advancing_postfixTail bound hx.advancing
  induction k generalizing m k' e with
  | zero => exact carries_zero (ha _ _) hk
  | succ k ih =>
    cases k' with
    | zero => exact carries_zero (ha _ _) hk'
    | succ k' =>
      refine ⟨ha _ _, fun c hc hlt => follows_peek_bind hc ?_⟩
      have hx : s.Carries c.rest.length (Expr.renumber s.rename) expr expr' := hx.mono (by omega)
      have tail {e e' : Expr} (he : e.renumber s.rename = e') :
          s.Carries c.rest.length (Expr.renumber s.rename) (postfixTail bound expr k e)
            (postfixTail bound' expr' k' e') :=
        he ▸ ih (by omega) (by omega) (by omega) e
      split
      · rename_i h
        refine follows_next_bind hc (by rw [h]; rfl) ?_
        refine carries_bind (carries_itemsUpTo hx (by omega) (by omega) _) fun _ => ?_
        refine carries_bind (carries_expect rfl _) fun _ => tail ?_
        rw [Expr.renumber, Expr.renumberAll_eq_map, id]
      · rename_i h
        refine follows_next_bind hc (by rw [h]; rfl) ?_
        refine carries_bind hx fun _ => ?_
        exact carries_bind (carries_expect rfl _) fun _ => tail (by rw [Expr.renumber])
      · rename_i h
        refine follows_next_bind hc (by rw [h]; rfl) ?_
        exact carries_bind (carries_name _) fun _ => tail (by rw [Expr.renumber, id])
      · exact follows_pure hc rfl

theorem carries_unary {operand operand' : Parser Expr}
    (ho : s.Carries n (Expr.renumber s.rename) operand operand') (hk : n ≤ k) (hk' : n ≤ k') :
    s.Carries n (Expr.renumber s.rename) (unary operand k) (unary operand' k') := by
  have ha := advancing_unary ho.advancing
  induction k generalizing n k' with
  | zero => exact carries_zero (ha _) hk
  | succ k ih =>
    cases k' with
    | zero => exact carries_zero (ha _) hk'
    | succ k' =>
      refine ⟨ha _, fun c hc hlt => follows_peek_bind hc ?_⟩
      cases h : unaryOp? c.peek.kind with
      | none => exact ho.follows c hc hlt
      | some op =>
        refine follows_next_bind hc (isEnd_of_unaryOp? h) ?_
        have ho := ho.mono (Nat.le_of_lt hlt)
        refine carries_bind (ih ho (by omega) (by omega)) fun _ => carries_pure ?_
        rw [Expr.renumber]

theorem carries_operation (hx : s.Carries n (Expr.renumber s.rename) expr expr')
    (hn : n + 1 ≤ bound) (hn' : n + 1 ≤ bound') :
    s.Carries (n + 1) (Expr.renumber s.rename) (operation bound expr)
      (operation bound' expr') := by
  have hp : s.Carries (n + 1) (Expr.renumber s.rename) (postfixChain bound expr)
      (postfixChain bound' expr') :=
    carries_bind (carries_primary hx (by omega) (by omega)) fun e =>
      carries_postfixTail hx (by omega) (by omega) (Nat.le_refl _) hn hn' e
  have chain (ls : List Level) (hls : ls ⊆ levels) :
      s.Carries (n + 1) (Expr.renumber s.rename)
        (ls.foldr (infixChain bound) (unary (postfixChain bound expr) bound))
        (ls.foldr (infixChain bound') (unary (postfixChain bound' expr') bound')) := by
    induction ls with
    | nil => exact carries_unary hp hn hn'
    | cons level rest ih =>
      rw [List.cons_subset] at hls
      exact carries_infixChain hls.1 (ih hls.2) hn hn'
  exact chain levels (List.Subset.refl _)

theorem carries_assignment (hx : s.Carries n (Expr.renumber s.rename) expr expr')
    (hn : n + 1 ≤ bound) (hn' : n + 1 ≤ bound') :
    s.Carries (n + 1) (Expr.renumber s.rename) (assignment bound expr)
      (assignment bound' expr') := by
  have ho := carries_operation hx hn hn'
  refine ⟨advancing_assignment _ hx.advancing, fun c hc hlt => ?_⟩
  refine follows_bind (ho.follows c hc hlt) fun target d hd hdc => follows_peek_bind hdc ?_
  have hle := (ho.advancing.of_ok hd).length_le
  refine follows_ite (fun h => ?_) fun _ => follows_pure hdc rfl
  rw [TokenKind.isSymbol_iff] at h
  refine follows_next_bind hdc (by rw [h]; rfl) ?_
  refine carries_bind (hx.mono (by omega)) fun value => ?_
  rw [assignTo?_renumber]
  cases assignTo? target value with
  | some e => exact carries_pure rfl
  | none => exact carries_bind (carries_report _) fun _ => carries_pure rfl

theorem carries_expression (hn : n ≤ bound) (hn' : n ≤ bound') :
    s.Carries n (Expr.renumber s.rename) (expression bound) (expression bound') := by
  induction bound generalizing n bound' with
  | zero => exact carries_zero advancing_exhausted hn
  | succ bound ih =>
    match n, bound' with
    | 0, _ => exact carries_zero (advancing_expression _) (Nat.le_refl 0)
    | n + 1, bound' + 1 =>
      have hx := ih (Nat.le_of_succ_le_succ hn) (Nat.le_of_succ_le_succ hn')
      exact carries_assignment hx hn hn'

end Expressions

section Clauses

variable {n bound bound' : Nat} (hn : n ≤ bound) (hn' : n ≤ bound')

include hn hn'

theorem carries_letClause :
    s.Carries n (Stmt.renumber s.rename) (letClause bound) (letClause bound') := by
  refine carries_bind (carries_name _) fun _ => ?_
  refine carries_bind (carries_accept rfl) fun _ => carries_ite ?_ ?_
  · refine carries_bind (carries_expression hn hn') fun _ => carries_pure ?_
    rw [Stmt.renumber, id, Option.map_some]
  · exact carries_pure (by rw [Stmt.renumber, id, Option.map_none])

theorem carries_forInit :
    s.Carries n (Option.map (Stmt.renumber s.rename)) (forInit bound) (forInit bound') := by
  refine carries_bind (carries_accept rfl) fun _ => carries_ite (carries_pure rfl) ?_
  have close (init : Stmt) : s.Carries n (Option.map (Stmt.renumber s.rename))
      (do let _ ← expectSymbol .semicolon "';' after loop initializer"; return some init)
      (do let _ ← expectSymbol .semicolon "';' after loop initializer"
          return some (init.renumber s.rename)) :=
    carries_bind (carries_expect rfl _) fun _ => carries_pure rfl
  refine carries_bind (carries_accept rfl) fun _ => carries_ite ?_ ?_
  · exact carries_bind (carries_letClause hn hn') close
  · refine carries_bind (carries_map (carries_expression hn hn') fun e => ?_) close
    rw [Stmt.renumber]

theorem carries_expressionUnless (stop : Symbol) :
    s.Carries n (Option.map (Expr.renumber s.rename)) (expressionUnless bound stop)
      (expressionUnless bound' stop) := by
  refine carries_bind (carries_check _) fun _ => carries_ite (carries_pure rfl) ?_
  exact carries_bind (carries_expression hn hn') fun _ => carries_pure rfl

omit hn hn' in
theorem carries_superclass :
    s.Carries n (Option.map (Reference.renumber s.rename)) superclass superclass := by
  refine carries_bind (carries_accept rfl) fun _ => carries_ite ?_ (carries_pure rfl)
  refine carries_bind (carries_name _) fun _ => ?_
  exact carries_bind carries_freshId fun _ => carries_pure rfl

end Clauses

end Situation

end Jal
