import Jal.Proofs.Grammar.Statements

namespace Jal

open Cursor

/-- No line or statement ends with the next of these words. -/
def Clear (us : List Word) : Prop :=
  Word.nextKind us ≠ .eol ∧ Word.nextKind us ≠ .symbol .semicolon

/-- These words may follow the statement: they do not end it once more, and no `else` among them is
taken by an `if` inside it. -/
def Stmt.Precedes (s : Stmt) (us : List Word) : Prop :=
  Clear us ∧ (s.endsInOpenIf = true → Word.nextKind us ≠ .keyword .elseKw)

def startsStatement (kind : TokenKind) : Bool :=
  startsExpression kind ||
    match kind with
    | .symbol .leftBrace => true
    | .keyword .letKw | .keyword .ifKw | .keyword .whileKw | .keyword .doKw => true
    | .keyword .breakKw | .keyword .defKw | .keyword .returnKw | .keyword .classKw => true
    | _ => false

theorem Stmt.words_eq_cons (s : Stmt) :
    ∃ w ws, s.words = w :: ws ∧ startsStatement w.kind = true := by
  cases s with
  | expr e =>
    obtain ⟨w, ws, he, hw⟩ := e.words_eq_cons
    simp only [Stmt.words, he, List.cons_append]
    exact ⟨_, _, rfl, by simp only [startsStatement, hw, Bool.true_or]⟩
  | letVar name init => cases init <;> exact ⟨_, _, rfl, rfl⟩
  | ifThen test consequence alternative => cases alternative <;> exact ⟨_, _, rfl, rfl⟩
  | returnWith line value => cases value <;> exact ⟨_, _, rfl, rfl⟩
  | block | whileDo | times | breakLoop | define | classDecl => exact ⟨_, _, rfl, rfl⟩

/-- What begins a statement does not end one. -/
theorem startsStatement_clear {kind : TokenKind} (h : startsStatement kind = true) :
    kind ≠ .eol ∧ kind ≠ .symbol .semicolon ∧ kind ≠ .keyword .elseKw ∧
      kind ≠ .symbol .rightBrace := by
  refine ⟨?_, ?_, ?_, ?_⟩ <;> rintro rfl <;> exact absurd h (by decide)

/-- Further statements and then a closing brace or the end may follow any statement. -/
theorem Stmt.precedes_statements (s : Stmt) (rest : List Stmt) {us : List Word}
    (hus : us = [] ∨ ∃ us', us = .symbol .rightBrace :: us') :
    s.Precedes (Stmt.wordsOfAll rest ++ us) := by
  -- the next word is the first of a statement, or there is no statement left
  cases rest with
  | nil =>
    rcases hus with rfl | ⟨us', rfl⟩
    · exact ⟨⟨nofun, nofun⟩, nofun⟩
    · exact ⟨⟨nofun, nofun⟩, nofun⟩
  | cons t rest =>
    obtain ⟨w, ws, ht, hw⟩ := t.words_eq_cons
    obtain ⟨he, hs, hl, -⟩ := startsStatement_clear hw
    simp only [Stmt.wordsOfAll, ht, List.cons_append]
    exact ⟨⟨he, hs⟩, fun _ => hl⟩

open Jal.Parser

section Recovery

variable {c : Cursor} {us : List Word} {n : Nat}

theorem terminator_of_semicolon (elseMayFollow : Bool) (h : c.ahead = .symbol .semicolon :: us)
    (hus : Clear us) :
    terminator elseMayFollow c = .ok () c.advance ∧ c.advance.ahead = us := by
  have ha := (peek_of_ahead h).2.1
  have hk := c.advance.kind_peek
  rw [ha] at hk
  exact ⟨terminator_semicolon (kind_of_ahead h) (hk ▸ hus.1), ha⟩

theorem terminator_of_brace (elseMayFollow : Bool) (h : c.ahead = .symbol .rightBrace :: us)
    (hus : Clear us) :
    terminator elseMayFollow c.advance = .ok () c.advance ∧ c.advance.ahead = us := by
  have ha := (peek_of_ahead h).2.1
  have hk := c.advance.kind_peek
  rw [ha] at hk
  exact ⟨terminator_brace (previous_advance h) (hk ▸ hus.1) (hk ▸ hus.2), ha⟩

theorem names_recovered (what : String) {w : Word} (hw : w.kind ≠ .symbol .comma)
    {names : List Name} (hne : names ≠ [])
    (h : c.ahead = commas (names.map fun p => [p.word]) ++ w :: us) (hn : c.rest.length < n) :
    Recovers (List.map Name.bare) (commaSeparated (name what) n) names c (w :: us) := by
  induction names generalizing c n with
  | nil => exact absurd rfl hne
  | cons first others ih =>
    obtain ⟨n, rfl⟩ := Nat.exists_eq_add_one.2 (Nat.zero_lt_of_lt hn)
    cases others with
    | nil =>
      obtain ⟨hk, hb⟩ := nextName_of_ahead h
      have hd := (peek_of_ahead h).2.1
      have hc : c.advance.peek.kind ≠ .symbol .comma := by rwa [kind_of_ahead hd]
      refine ⟨[c.nextName], c.advance, ?_, by simp [hb], hd, errors_advance c⟩
      rw [commaSeparated, bind_of_ok (name_of_kind hk), bind_of_ok (acceptSymbol_of_ne hc)]
      rfl
    | cons second others =>
      simp only [List.map_cons, commas, List.cons_append, List.nil_append] at h
      obtain ⟨hk, hb⟩ := nextName_of_ahead h
      obtain ⟨-, hd, hlt⟩ := peek_of_ahead h
      obtain ⟨-, hd', hlt'⟩ := peek_of_ahead hd
      obtain ⟨others', d, ho, hob, hu, he⟩ := ih (by simp) hd' (by omega : _ < n)
      refine ⟨c.nextName :: others', d, ?_, by simp [hb, hob], hu, ?_⟩
      · rw [commaSeparated, bind_of_ok (name_of_kind hk),
          bind_of_ok (acceptSymbol_of_kind (kind_of_ahead hd)), if_pos rfl, bind_of_ok ho]
        rfl
      · rw [he, errors_advance, errors_advance]

theorem params_recovered (what : String) (params : List Name)
    (h : c.ahead = commas (params.map fun p => [p.word]) ++ .symbol .rightParen :: us)
    (hn : c.rest.length < n) :
    Recovers (List.map Name.bare) (itemsUpTo n .rightParen (name what)) params c
      (.symbol .rightParen :: us) := by
  -- the closing parenthesis right away means no parameters, and a name is no parenthesis
  cases params with
  | nil => exact ⟨[], c, itemsUpTo_stop (kind_of_ahead h), rfl, h, rfl⟩
  | cons first others =>
    obtain ⟨params', d, hp, hrest⟩ :=
      names_recovered what (by nofun) (List.cons_ne_nil _ _) h hn
    refine ⟨params', d, ?_, hrest⟩
    have hk : c.peek.kind = .ident := by
      cases others with
      | nil => exact kind_of_ahead h
      | cons second others => exact kind_of_ahead h
    rw [itemsUpTo_some (by rw [hk]; nofun), hp]

theorem superclass_recovered (parent : Option Reference)
    (h : c.ahead = wordsOfSuperclass parent ++ .symbol .leftBrace :: us) :
    Recovers (Option.map Reference.bare) superclass parent c (.symbol .leftBrace :: us) := by
  cases parent with
  | none =>
    have hk : c.peek.kind ≠ .keyword .inheritsKw := by
      rw [kind_of_ahead h]
      nofun
    exact ⟨none, c, superclass_none hk, rfl, h, rfl⟩
  | some ref =>
    have hd := (peek_of_ahead h).2.1
    obtain ⟨hk, hb⟩ := nextName_of_ahead hd
    refine ⟨_, _, superclass_some (kind_of_ahead h) hk, ?_, (peek_of_ahead hd).2.1, ?_⟩
    · simp only [Option.map_some, Reference.bare, hb]
    · rw [errors_nextFresh, errors_advance, errors_advance]

theorem kind_of_statement {s : Stmt} (h : c.ahead = s.words ++ us) :
    startsStatement c.peek.kind = true := by
  obtain ⟨w, ws, hs, hw⟩ := s.words_eq_cons
  rw [hs] at h
  rwa [kind_of_ahead h]

theorem kind_of_expression {e : Expr} (h : c.ahead = e.words ++ us) :
    startsExpression c.peek.kind = true := by
  obtain ⟨w, ws, he, hw⟩ := e.words_eq_cons
  rw [he] at h
  rwa [kind_of_ahead h]

theorem peek_ne_eol {s : Stmt} (h : c.ahead = s.words ++ us) : c.peek.kind ≠ .eol :=
  (startsStatement_clear (kind_of_statement h)).1

/-- A parser that leaves the words `us` has used up those before them. -/
theorem length_of_ahead {d : Cursor} {ws : List Word} (hc : c.ahead = ws ++ us)
    (hd : d.ahead = us) : c.rest.length = ws.length + d.rest.length := by
  rw [← length_ahead, ← length_ahead, hc, hd, List.length_append]

theorem place_eq {place : Place} {s : Stmt} (h : place ≠ .declaration → s.isDeclaration = false)
    (hs : s.isDeclaration = true) : place = .declaration := by
  by_contra hne
  rw [h hne] at hs
  exact Bool.false_ne_true hs

theorem ne_declarator {e : Expr} (h : c.ahead = e.words ++ us) :
    ∀ k ∈ [Keyword.letKw, .defKw, .classKw], c.peek.kind ≠ .keyword k := by
  intro k hmem hk
  have hs := kind_of_expression h
  rw [hk] at hs
  clear hk h
  revert k
  decide

/-- Before the value of a `return` there is no end of it. -/
theorem atTerminator_eq_false {elseMayFollow : Bool} {e : Expr} (h : c.ahead = e.words ++ us) :
    c.atTerminator elseMayFollow = false := by
  have hs := kind_of_expression h
  obtain ⟨w, ws, he, -⟩ := e.words_eq_cons
  rw [he] at h
  have hne {kind : TokenKind} (hk : startsExpression kind = false) : c.peek.kind ≠ kind := by
    rintro rfl
    rw [hk] at hs
    exact Bool.false_ne_true hs
  have heol : c.nextIs TokenKind.isEol = false :=
    Bool.eq_false_iff.2 (mt TokenKind.isEol_iff.1 (hne rfl))
  have hsym {s : Symbol} (hk : startsExpression (.symbol s) = false) :
      c.nextIs (TokenKind.isSymbol s) = false :=
    Bool.eq_false_iff.2 (mt TokenKind.isSymbol_iff.1 (hne hk))
  have helse : c.nextIs (TokenKind.isKeyword .elseKw) = false :=
    Bool.eq_false_iff.2 (mt TokenKind.isKeyword_iff.1 (hne rfl))
  rw [atTerminator, atInlineElse, heol, hsym rfl, hsym rfl, atEnd_eq_false h, helse,
    Bool.and_false]
  rfl

end Recovery

/-- The statement is recovered from its words, in any place where it may stand. -/
def Stmt.Recoverable (s : Stmt) : Prop :=
  ∀ place c us n, (place ≠ .declaration → s.isDeclaration = false) → s.Precedes us →
    c.ahead = s.words ++ us → c.rest.length < n → Recovers Stmt.bare (statement n place) s c us

def Stmt.AllRecoverable (body : List Stmt) : Prop :=
  ∀ c us n m, c.ahead = Stmt.wordsOfAll body ++ .symbol .rightBrace :: us → c.rest.length < n →
    c.rest.length < m →
      Recovers Stmt.bareAll (blockItems (statement n) m) body c (.symbol .rightBrace :: us)

def Stmt.RoutineRecoverable (r : Routine Stmt) : Prop :=
  ∀ c us n, Clear us → c.ahead = Stmt.wordsOfRoutine r ++ us → c.rest.length < n →
    Recovers Stmt.bareRoutine (routine (n + 1) (statement n)) r c us

def Stmt.MethodsRecoverable (rs : List (Routine Stmt)) : Prop :=
  ∀ c us n m, c.ahead = Stmt.wordsOfMethods rs ++ .symbol .rightBrace :: us →
    c.rest.length < n → c.rest.length < m →
      Recovers Stmt.bareMethods (methods (n + 1) (statement n) m) rs c (.symbol .rightBrace :: us)

section Constructs

variable {e : Expr} {s consequence alternative : Stmt} {body : List Stmt} {r : Routine Stmt}
  {rs : List (Routine Stmt)}

theorem recoverable_expr (he : e.Layered) : (Stmt.expr e).Recoverable := by
  intro place c us n _ hp h hn
  obtain ⟨n, rfl⟩ := Nat.exists_eq_add_one.2 (Nat.zero_lt_of_lt hn)
  simp only [Stmt.words, List.append_assoc, List.cons_append, List.nil_append] at h
  obtain ⟨e', d, hread, hb, hd, herr⟩ := Expr.recovered he h rfl hn
  refine statement_of_body (ne_declarator h) fun elseMayFollow => ?_
  obtain ⟨ht, hu⟩ := terminator_of_semicolon elseMayFollow hd hp.1
  exact ⟨_, _, bodyStatement_expr (kind_of_expression h) hread ht, congrArg Stmt.expr hb, hu,
    by rw [errors_advance, herr]⟩

theorem recoverable_let (name : Name) : (Stmt.letVar name none).Recoverable := by
  intro place c us n hplace hp h hn
  obtain ⟨n, rfl⟩ := Nat.exists_eq_add_one.2 (Nat.zero_lt_of_lt hn)
  obtain rfl := place_eq hplace rfl
  have hc := (peek_of_ahead h).2.1
  obtain ⟨hk, hb⟩ := nextName_of_ahead hc
  have hd := (peek_of_ahead hc).2.1
  have ha : c.advance.advance.peek.kind ≠ .symbol .assign := by
    rw [kind_of_ahead hd]
    nofun
  obtain ⟨ht, hu⟩ := terminator_of_semicolon false hd hp.1
  exact ⟨_, _, declaration_let (kind_of_ahead h) (letClause_none hk ha) ht,
    congrArg (Stmt.letVar · none) hb, hu, by simp only [errors_advance]⟩

theorem recoverable_letInit (name : Name) (he : e.Layered) :
    (Stmt.letVar name (some e)).Recoverable := by
  intro place c us n hplace hp h hn
  obtain ⟨n, rfl⟩ := Nat.exists_eq_add_one.2 (Nat.zero_lt_of_lt hn)
  obtain rfl := place_eq hplace rfl
  simp only [Stmt.words, List.append_assoc, List.cons_append, List.nil_append] at h
  obtain ⟨-, hc, hlt⟩ := peek_of_ahead h
  obtain ⟨hk, hb⟩ := nextName_of_ahead hc
  obtain ⟨-, ha, hlt'⟩ := peek_of_ahead hc
  obtain ⟨-, hi, hlt''⟩ := peek_of_ahead ha
  obtain ⟨e', d, hread, hib, hd, herr⟩ := Expr.recovered he hi rfl (by omega : _ < n + 1)
  obtain ⟨ht, hu⟩ := terminator_of_semicolon false hd hp.1
  refine ⟨_, _, declaration_let (kind_of_ahead h) (letClause_some hk (kind_of_ahead ha) hread) ht,
    congrArg₂ (fun name init => Stmt.letVar name (some init)) hb hib, hu, ?_⟩
  rw [errors_advance, herr, errors_advance, errors_advance, errors_advance]

theorem recoverable_block (hbody : Stmt.AllRecoverable body) : (Stmt.block body).Recoverable := by
  intro place c us n _ hp h hn
  obtain ⟨n, rfl⟩ := Nat.exists_eq_add_one.2 (Nat.zero_lt_of_lt hn)
  simp only [Stmt.words, List.append_assoc, List.cons_append, List.nil_append] at h
  obtain ⟨-, hb, hlt⟩ := peek_of_ahead h
  obtain ⟨body', d, hread, hbare, hd, herr⟩ := hbody _ _ n (n + 1) hb (by omega) (by omega)
  have hk := kind_of_ahead h
  refine statement_of_body (by simp [hk, Word.kind]) fun elseMayFollow => ?_
  obtain ⟨ht, hu⟩ := terminator_of_brace elseMayFollow hd hp.1
  exact ⟨_, _, bodyStatement_block hk (block_of_items hread (kind_of_ahead hd)) ht,
    congrArg Stmt.block hbare, hu, by rw [errors_advance, herr, errors_advance]⟩

/-- What stands between the first keyword of an `if` or a loop and its first part. -/
theorem head_recovered {c : Cursor} {us : List Word} {n : Nat} {w w' : Word} (he : e.Layered)
    (hw : extendsAt w'.kind = none) (h : c.ahead = w :: (e.words ++ w' :: (s.words ++ us)))
    (hn : c.rest.length < n + 1) :
    ∃ e' d, expression (n + 1) c.advance = .ok e' d ∧ e'.bare = e.bare ∧ d.errors = c.errors ∧
      d.peek.kind = w'.kind ∧ d.advance.ahead = s.words ++ us ∧ d.advance.peek.kind ≠ .eol ∧
      d.advance.rest.length < n := by
  obtain ⟨-, ht, hlt⟩ := peek_of_ahead h
  obtain ⟨e', d, hread, hb, hd, herr⟩ := Expr.recovered he ht hw (by omega : _ < n + 1)
  have hltd := length_of_ahead ht hd
  obtain ⟨-, hs, hlt'⟩ := peek_of_ahead hd
  exact ⟨e', d, hread, hb, by rw [herr, errors_advance], kind_of_ahead hd, hs, peek_ne_eol hs,
    by omega⟩

theorem recoverable_ifThen (he : e.Layered) (hd : consequence.isDeclaration = false)
    (hc : consequence.Recoverable) : (Stmt.ifThen e consequence none).Recoverable := by
  intro place c us n _ hp h hn
  obtain ⟨n, rfl⟩ := Nat.exists_eq_add_one.2 (Nat.zero_lt_of_lt hn)
  simp only [Stmt.words, List.append_assoc, List.cons_append] at h
  obtain ⟨e', d, hread, heb, heerr, hdk, hb, heol, hlt⟩ := head_recovered he rfl h hn
  obtain ⟨consequence', d', hcread, hcb, hd', hcerr⟩ :=
    hc (.body true) _ _ n (fun _ => hd) ⟨hp.1, fun _ => hp.2 rfl⟩ hb hlt
  -- an `else` after the consequence would belong to this `if`
  have hl : d'.peek.kind ≠ .keyword .elseKw := by
    rw [kind_peek, hd']
    exact hp.2 rfl
  have hk := kind_of_ahead h
  refine statement_of_body (by simp [hk, Word.kind]) fun elseMayFollow => ?_
  exact ⟨_, _, bodyStatement_if hk hread hdk heol hcread hl,
    congrArg₂ (Stmt.ifThen · · none) heb hcb, hd', by rw [hcerr, errors_advance, heerr]⟩

theorem recoverable_ifElse (he : e.Layered) (hd : consequence.isDeclaration = false)
    (hc : consequence.Recoverable) (hopen : consequence.endsInOpenIf = false)
    (had : alternative.isDeclaration = false) (ha : alternative.Recoverable) :
    (Stmt.ifThen e consequence (some alternative)).Recoverable := by
  intro place c us n _ hp h hn
  obtain ⟨n, rfl⟩ := Nat.exists_eq_add_one.2 (Nat.zero_lt_of_lt hn)
  simp only [Stmt.words, List.append_assoc, List.cons_append] at h
  obtain ⟨e', d, hread, heb, heerr, hdk, hb, heol, hlt⟩ := head_recovered he rfl h hn
  -- the `else` is not taken by the consequence
  have hpc : consequence.Precedes (.keyword .elseKw :: (alternative.words ++ us)) := by
    refine ⟨⟨nofun, nofun⟩, fun ho => ?_⟩
    rw [hopen] at ho
    exact absurd ho Bool.false_ne_true
  obtain ⟨consequence', d', hcread, hcb, hd', hcerr⟩ :=
    hc (.body true) _ _ n (fun _ => hd) hpc hb hlt
  have hltd' := length_of_ahead hb hd'
  obtain ⟨-, haw, hlt''⟩ := peek_of_ahead hd'
  have hk := kind_of_ahead h
  refine statement_of_body (by simp [hk, Word.kind]) fun elseMayFollow => ?_
  obtain ⟨alternative', d'', haread, hab, hd'', haerr⟩ :=
    ha (.body elseMayFollow) _ _ n (fun _ => had) hp haw (by omega)
  refine ⟨_, _, bodyStatement_ifElse hk hread hdk heol hcread (kind_of_ahead hd')
    (peek_ne_eol haw) haread, ?_, hd'', ?_⟩
  · change Stmt.ifThen e'.bare consequence'.bare (some alternative'.bare) =
      Stmt.ifThen e.bare consequence.bare (some alternative.bare)
    rw [heb, hcb, hab]
  · rw [haerr, errors_advance, hcerr, errors_advance, heerr]

-- a loop ends with its body, so what may follow the one may follow the other
theorem recoverable_while (he : e.Layered) (hd : s.isDeclaration = false) (hs : s.Recoverable) :
    (Stmt.whileDo e s).Recoverable := by
  intro place c us n _ hp h hn
  obtain ⟨n, rfl⟩ := Nat.exists_eq_add_one.2 (Nat.zero_lt_of_lt hn)
  simp only [Stmt.words, List.append_assoc, List.cons_append] at h
  obtain ⟨e', d, hread, heb, heerr, hdk, hb, heol, hlt⟩ := head_recovered he rfl h hn
  have hk := kind_of_ahead h
  refine statement_of_body (by simp [hk, Word.kind]) fun elseMayFollow => ?_
  obtain ⟨s', d', hsread, hsb, hd', hserr⟩ :=
    hs (.body elseMayFollow) _ _ n (fun _ => hd) hp hb hlt
  exact ⟨_, _, bodyStatement_while hk hread hdk heol hsread, congrArg₂ Stmt.whileDo heb hsb, hd',
    by rw [hserr, errors_advance, heerr]⟩

theorem recoverable_times (line : Nat) (he : e.Layered) (hd : s.isDeclaration = false)
    (hs : s.Recoverable) : (Stmt.times line e s).Recoverable := by
  intro place c us n _ hp h hn
  obtain ⟨n, rfl⟩ := Nat.exists_eq_add_one.2 (Nat.zero_lt_of_lt hn)
  simp only [Stmt.words, List.append_assoc, List.cons_append] at h
  obtain ⟨e', d, hread, heb, heerr, hdk, hb, heol, hlt⟩ := head_recovered he rfl h hn
  have hk := kind_of_ahead h
  refine statement_of_body (by simp [hk, Word.kind]) fun elseMayFollow => ?_
  obtain ⟨s', d', hsread, hsb, hd', hserr⟩ :=
    hs (.body elseMayFollow) _ _ n (fun _ => hd) hp hb hlt
  exact ⟨_, _, bodyStatement_times hk hread hdk heol hsread, congrArg₂ (Stmt.times 0) heb hsb,
    hd', by rw [hserr, errors_advance, heerr]⟩

theorem recoverable_break (line : Nat) : (Stmt.breakLoop line).Recoverable := by
  intro place c us n _ hp h hn
  obtain ⟨n, rfl⟩ := Nat.exists_eq_add_one.2 (Nat.zero_lt_of_lt hn)
  have hk := kind_of_ahead h
  refine statement_of_body (by simp [hk, Word.kind]) fun elseMayFollow => ?_
  obtain ⟨ht, hu⟩ := terminator_of_semicolon elseMayFollow (peek_of_ahead h).2.1 hp.1
  exact ⟨_, _, bodyStatement_break hk ht, rfl, hu, by simp only [errors_advance]⟩

theorem recoverable_define (hr : Stmt.RoutineRecoverable r) : (Stmt.define r).Recoverable := by
  intro place c us n hplace hp h hn
  obtain ⟨n, rfl⟩ := Nat.exists_eq_add_one.2 (Nat.zero_lt_of_lt hn)
  obtain rfl := place_eq hplace rfl
  simp only [Stmt.words, List.cons_append] at h
  obtain ⟨-, hw, hlt⟩ := peek_of_ahead h
  obtain ⟨r', d, hread, hb, hd, herr⟩ := hr _ _ n hp.1 hw (by omega)
  exact ⟨_, _, declaration_define (kind_of_ahead h) hread, congrArg Stmt.define hb, hd,
    by rw [herr, errors_advance]⟩

theorem recoverable_return (line : Nat) : (Stmt.returnWith line none).Recoverable := by
  intro place c us n _ hp h hn
  obtain ⟨n, rfl⟩ := Nat.exists_eq_add_one.2 (Nat.zero_lt_of_lt hn)
  have hk := kind_of_ahead h
  refine statement_of_body (by simp [hk, Word.kind]) fun elseMayFollow => ?_
  have hs := (peek_of_ahead h).2.1
  -- the semicolon stands where a value would
  have hend : c.advance.atTerminator elseMayFollow = true := by
    simp only [atTerminator, nextIs, kind_of_ahead hs]
    rfl
  obtain ⟨ht, hu⟩ := terminator_of_semicolon elseMayFollow hs hp.1
  exact ⟨_, _, bodyStatement_return hk hend ht, rfl, hu, by simp only [errors_advance]⟩

theorem recoverable_returnValue (line : Nat) (he : e.Layered) :
    (Stmt.returnWith line (some e)).Recoverable := by
  intro place c us n _ hp h hn
  obtain ⟨n, rfl⟩ := Nat.exists_eq_add_one.2 (Nat.zero_lt_of_lt hn)
  simp only [Stmt.words, List.append_assoc, List.cons_append, List.nil_append] at h
  obtain ⟨-, hv, hlt⟩ := peek_of_ahead h
  obtain ⟨e', d, hread, hb, hd, herr⟩ := Expr.recovered he hv rfl (by omega : _ < n + 1)
  have hk := kind_of_ahead h
  refine statement_of_body (by simp [hk, Word.kind]) fun elseMayFollow => ?_
  obtain ⟨ht, hu⟩ := terminator_of_semicolon elseMayFollow hd hp.1
  exact ⟨_, _, bodyStatement_returnValue hk (atTerminator_eq_false hv) hread ht,
    congrArg (fun value => Stmt.returnWith 0 (some value)) hb, hu,
    by rw [errors_advance, herr, errors_advance]⟩

theorem recoverable_class (name : Name) (parent : Option Reference)
    (hrs : Stmt.MethodsRecoverable rs) : (Stmt.classDecl name parent rs).Recoverable := by
  intro place c us n hplace hp h hn
  obtain ⟨n, rfl⟩ := Nat.exists_eq_add_one.2 (Nat.zero_lt_of_lt hn)
  obtain rfl := place_eq hplace rfl
  simp only [Stmt.words, List.append_assoc, List.cons_append, List.nil_append] at h
  obtain ⟨-, hc, hlt⟩ := peek_of_ahead h
  obtain ⟨hk, hb⟩ := nextName_of_ahead hc
  obtain ⟨-, hs, hlt'⟩ := peek_of_ahead hc
  obtain ⟨parent', d, hpread, hpb, hd, hperr⟩ := superclass_recovered parent hs
  have hltd := length_of_ahead hs hd
  obtain ⟨-, hm, hlt''⟩ := peek_of_ahead hd
  obtain ⟨rs', d', hread, hrsb, hd', hrserr⟩ := hrs _ _ n (n + 1) hm (by omega) (by omega)
  obtain ⟨ht, hu⟩ := terminator_of_brace false hd' hp.1
  refine ⟨_, _, declaration_class (kind_of_ahead h) (classDeclaration_of_parts hk hpread
    (kind_of_ahead hd) hread (kind_of_ahead hd') ht), ?_, hu, ?_⟩
  · change Stmt.classDecl c.advance.nextName.bare (parent'.map Reference.bare)
      (Stmt.bareMethods rs') =
        Stmt.classDecl name.bare (parent.map Reference.bare) (Stmt.bareMethods rs)
    rw [hb, hpb, hrsb]
  · rw [errors_advance, hrserr, errors_advance, hperr, errors_advance, errors_advance]

theorem recoverable_noItems : Stmt.AllRecoverable [] := by
  intro c us n m h _ hm
  obtain ⟨m, rfl⟩ := Nat.exists_eq_add_one.2 (Nat.zero_lt_of_lt hm)
  exact ⟨[], c, blockItems_stop (kind_of_ahead h), rfl, h, rfl⟩

theorem recoverable_items (hs : s.Recoverable) (hbody : Stmt.AllRecoverable body) :
    Stmt.AllRecoverable (s :: body) := by
  intro c us n m h hn hm
  obtain ⟨m, rfl⟩ := Nat.exists_eq_add_one.2 (Nat.zero_lt_of_lt hm)
  simp only [Stmt.wordsOfAll, List.append_assoc] at h
  obtain ⟨s', d, hread, hsb, hd, hserr⟩ :=
    hs .declaration _ _ n (fun hne => absurd rfl hne)
      (s.precedes_statements body (.inr ⟨us, rfl⟩)) h hn
  -- a statement has one word at least, which pays for this turn of the loop
  have hlt := length_of_ahead h hd
  obtain ⟨w, ws, hsw, hstart⟩ := s.words_eq_cons
  obtain ⟨heol, -, -, hbrace⟩ := startsStatement_clear hstart
  rw [hsw] at h hlt
  rw [List.length_cons] at hlt
  obtain ⟨body', d', hread', hrb, hd', hrerr⟩ := hbody _ _ n m hd (by omega) (by omega)
  exact ⟨_, _, blockItems_step h heol hbrace hread hread', congrArg₂ List.cons hsb hrb, hd',
    by rw [hrerr, hserr]⟩

theorem recoverable_routine (name : Name) (params : List Name) (hbody : Stmt.AllRecoverable body) :
    Stmt.RoutineRecoverable ⟨name, params, body⟩ := by
  intro c us n hus h hn
  simp only [Stmt.wordsOfRoutine, List.append_assoc, List.cons_append, List.nil_append] at h
  obtain ⟨hk, hb⟩ := nextName_of_ahead h
  obtain ⟨-, hl, hlt⟩ := peek_of_ahead h
  obtain ⟨-, hp, hlt'⟩ := peek_of_ahead hl
  obtain ⟨params', d, hpread, hpb, hd, hperr⟩ :=
    params_recovered "parameter name" params hp (by omega : _ < n + 1)
  have hltd := length_of_ahead hp hd
  obtain ⟨-, hbrace, hltb⟩ := peek_of_ahead hd
  obtain ⟨-, hw, hltb'⟩ := peek_of_ahead hbrace
  obtain ⟨body', d', hread, hbare, hd', hberr⟩ := hbody _ _ n (n + 1) hw (by omega) (by omega)
  obtain ⟨ht, hu⟩ := terminator_of_brace false hd' hus
  refine ⟨_, _, routine_of_parts hk (kind_of_ahead hl) hpread (kind_of_ahead hd)
    (kind_of_ahead hbrace) (block_of_items hread (kind_of_ahead hd')) ht, ?_, hu, ?_⟩
  · change (⟨c.nextName.bare, params'.map Name.bare, Stmt.bareAll body'⟩ : Routine Stmt) =
      ⟨name.bare, params.map Name.bare, Stmt.bareAll body⟩
    rw [hb, hpb, hbare]
  · simp only [errors_advance, hberr, hperr]

theorem recoverable_noMethods : Stmt.MethodsRecoverable [] := by
  intro c us n m h _ hm
  obtain ⟨m, rfl⟩ := Nat.exists_eq_add_one.2 (Nat.zero_lt_of_lt hm)
  exact ⟨[], c, methods_stop (kind_of_ahead h), rfl, h, rfl⟩

theorem recoverable_methods (hr : Stmt.RoutineRecoverable r)
    (hrs : Stmt.MethodsRecoverable rs) : Stmt.MethodsRecoverable (r :: rs) := by
  intro c us n m h hn hm
  obtain ⟨m, rfl⟩ := Nat.exists_eq_add_one.2 (Nat.zero_lt_of_lt hm)
  simp only [Stmt.wordsOfMethods, List.append_assoc, List.cons_append] at h
  obtain ⟨-, hc, hlt⟩ := peek_of_ahead h
  -- after a method stands the next `def` or the closing brace
  have hclear : Clear (Stmt.wordsOfMethods rs ++ .symbol .rightBrace :: us) := by
    cases rs <;> exact ⟨nofun, nofun⟩
  obtain ⟨r', d, hread, hrb, hd, hrerr⟩ := hr _ _ n hclear hc (by omega)
  have hltd := length_of_ahead hc hd
  obtain ⟨rs', d', hread', hob, hd', hoerr⟩ := hrs _ _ n m hd (by omega) (by omega)
  exact ⟨_, _, methods_step h hread hread', congrArg₂ List.cons hrb hob, hd',
    by rw [hoerr, hrerr, errors_advance]⟩

end Constructs

mutual

/-- A well-formed statement is recovered from its words. -/
theorem Stmt.recoverable : (s : Stmt) → s.WellFormed → s.Recoverable
  | .expr _, hw => recoverable_expr hw
  | .letVar name none, _ => recoverable_let name
  | .letVar name (some _), hw => recoverable_letInit name hw
  | .block body, hw => recoverable_block (Stmt.allRecoverable body hw)
  | .ifThen _ consequence none, hw =>
    recoverable_ifThen hw.1 hw.2.1 (consequence.recoverable hw.2.2)
  | .ifThen _ consequence (some alternative), hw => by
    obtain ⟨he, hd, hc, hopen, had, ha⟩ := hw
    exact recoverable_ifElse he hd (consequence.recoverable hc) hopen had
      (alternative.recoverable ha)
  | .whileDo _ body, hw => recoverable_while hw.1 hw.2.1 (body.recoverable hw.2.2)
  | .times line _ body, hw => recoverable_times line hw.1 hw.2.1 (body.recoverable hw.2.2)
  | .breakLoop line, _ => recoverable_break line
  | .define r, hw => recoverable_define (Stmt.routineRecoverable r hw)
  | .returnWith line none, _ => recoverable_return line
  | .returnWith line (some _), hw => recoverable_returnValue line hw
  | .classDecl name parent members, hw =>
    recoverable_class name parent (Stmt.methodsRecoverable members hw)

theorem Stmt.allRecoverable : (body : List Stmt) → Stmt.AllWellFormed body →
    Stmt.AllRecoverable body
  | [], _ => recoverable_noItems
  | s :: rest, hw => recoverable_items (s.recoverable hw.1) (Stmt.allRecoverable rest hw.2)

theorem Stmt.routineRecoverable : (r : Routine Stmt) → Stmt.RoutineWellFormed r →
    Stmt.RoutineRecoverable r
  | ⟨name, params, body⟩, hw => recoverable_routine name params (Stmt.allRecoverable body hw)

theorem Stmt.methodsRecoverable : (rs : List (Routine Stmt)) → Stmt.MethodsWellFormed rs →
    Stmt.MethodsRecoverable rs
  | [], _ => recoverable_noMethods
  | r :: rest, hw =>
    recoverable_methods (Stmt.routineRecoverable r hw.1) (Stmt.methodsRecoverable rest hw.2)

end

theorem mem_commas {w : Word} {lists : List (List Word)} (h : w ∈ commas lists) :
    w = .symbol .comma ∨ ∃ ws ∈ lists, w ∈ ws := by
  fun_induction commas lists with
  | case1 => simp at h
  | case2 ws => exact .inr ⟨ws, List.mem_singleton_self _, h⟩
  | case3 ws us rest ih =>
    simp only [List.mem_append, List.mem_cons] at h
    rcases h with h | h | h
    · exact .inr ⟨ws, List.mem_cons_self, h⟩
    · exact .inl h
    · rcases ih h with h | ⟨vs, hvs, hw⟩
      · exact .inl h
      · exact .inr ⟨vs, List.mem_cons_of_mem _ hvs, hw⟩

theorem eof_notMem_commas {lists : List (List Word)} (h : ∀ ws ∈ lists, .eof ∉ ws) :
    .eof ∉ commas lists := by
  intro hmem
  rcases mem_commas hmem with he | ⟨ws, hws, hw⟩
  · cases he
  · exact h ws hws hw

mutual

/-- The end of the text is no word of an expression. -/
theorem Expr.eof_notMem_words : (e : Expr) → .eof ∉ e.words
  | .literal value => by
    cases value with
    | bool b => cases b <;> simp [Expr.words, Literal.word]
    | none | number | text => simp [Expr.words, Literal.word]
  | .unary op _ e => by cases op <;> simp [Expr.words, UnaryOp.word, e.eof_notMem_words]
  | .binary op _ e e' => by
    cases op <;> simp [Expr.words, BinaryOp.word, e.eof_notMem_words, e'.eof_notMem_words]
  | .logical op e e' => by
    cases op <;> simp [Expr.words, LogicalOp.word, e.eof_notMem_words, e'.eof_notMem_words]
  | .variable _ | .selfRef _ _ | .superRef _ _ _ => by simp [Expr.words, Name.word]
  | .grouping e | .assign _ e | .get e _ => by simp [Expr.words, Name.word, e.eof_notMem_words]
  | .set e _ e' | .index e _ e' => by
    simp [Expr.words, Name.word, e.eof_notMem_words, e'.eof_notMem_words]
  | .indexSet e _ e' e'' => by
    simp [Expr.words, e.eof_notMem_words, e'.eof_notMem_words, e''.eof_notMem_words]
  | .call e _ es => by
    simp [Expr.words, e.eof_notMem_words, eof_notMem_commas (Expr.eof_notMem_wordsOfEach es)]
  | .array es => by simp [Expr.words, eof_notMem_commas (Expr.eof_notMem_wordsOfEach es)]

theorem Expr.eof_notMem_wordsOfEach :
    (es : List Expr) → ∀ ws ∈ Expr.wordsOfEach es, .eof ∉ ws
  | [] => by simp [Expr.wordsOfEach]
  | e :: rest => by
    simp only [Expr.wordsOfEach, List.forall_mem_cons]
    exact ⟨e.eof_notMem_words, Expr.eof_notMem_wordsOfEach rest⟩

end

mutual

theorem Stmt.eof_notMem_words : (s : Stmt) → .eof ∉ s.words
  | .expr e | .letVar _ (some e) | .returnWith _ (some e) => by
    simp [Stmt.words, Name.word, e.eof_notMem_words]
  | .letVar _ none | .breakLoop _ | .returnWith _ none => by simp [Stmt.words, Name.word]
  | .block body => by simp [Stmt.words, Stmt.eof_notMem_wordsOfAll body]
  | .ifThen e s none | .whileDo e s | .times _ e s => by
    simp [Stmt.words, e.eof_notMem_words, s.eof_notMem_words]
  | .ifThen e s (some s') => by
    simp [Stmt.words, e.eof_notMem_words, s.eof_notMem_words, s'.eof_notMem_words]
  | .define r => by simp [Stmt.words, Stmt.eof_notMem_wordsOfRoutine r]
  | .classDecl _ parent members => by
    cases parent <;>
      simp [Stmt.words, wordsOfSuperclass, Name.word, Stmt.eof_notMem_wordsOfMethods members]

theorem Stmt.eof_notMem_wordsOfAll : (ss : List Stmt) → .eof ∉ Stmt.wordsOfAll ss
  | [] => by simp [Stmt.wordsOfAll]
  | s :: rest => by
    simp [Stmt.wordsOfAll, s.eof_notMem_words, Stmt.eof_notMem_wordsOfAll rest]

theorem Stmt.eof_notMem_wordsOfRoutine : (r : Routine Stmt) → .eof ∉ Stmt.wordsOfRoutine r
  | ⟨_, params, body⟩ => by
    have hp : .eof ∉ commas (params.map fun p => [p.word]) :=
      eof_notMem_commas (by simp [Name.word])
    simpa [Stmt.wordsOfRoutine, Name.word, Stmt.eof_notMem_wordsOfAll body] using hp

theorem Stmt.eof_notMem_wordsOfMethods : (rs : List (Routine Stmt)) → .eof ∉ Stmt.wordsOfMethods rs
  | [] => by simp [Stmt.wordsOfMethods]
  | r :: rest => by
    simp [Stmt.wordsOfMethods, Stmt.eof_notMem_wordsOfRoutine r,
      Stmt.eof_notMem_wordsOfMethods rest]

end

theorem slots_recovered {c : Cursor} {bound n : Nat} {p : Program} (hp : Stmt.AllWellFormed p)
    (h : c.ahead = Stmt.wordsOfAll p) (hb : c.rest.length < bound) (hn : c.rest.length < n) :
    ∃ p' c', slots bound n c = .ok (p'.map some) c' ∧ Stmt.bareAll p' = Stmt.bareAll p ∧
      c'.errors = c.errors := by
  induction p generalizing c n with
  | nil =>
    obtain ⟨n, rfl⟩ := Nat.exists_eq_add_one.2 (Nat.zero_lt_of_lt hn)
    have hr : c.rest = [] := List.map_eq_nil_iff.1 h
    have heol : c.peek.kind ≠ .eol := by
      rw [kind_peek, h]
      nofun
    refine ⟨[], c, ?_, rfl, rfl⟩
    rw [slots, bind_of_ok (skipEols_of_ne heol), bind_of_ok (get_apply c), atEnd, hr]
    rfl
  | cons s rest ih =>
    obtain ⟨n, rfl⟩ := Nat.exists_eq_add_one.2 (Nat.zero_lt_of_lt hn)
    rw [Stmt.wordsOfAll] at h
    have hs : s.Precedes (Stmt.wordsOfAll rest) := by
      have h : s.Precedes (Stmt.wordsOfAll rest ++ []) := s.precedes_statements rest (.inl rfl)
      rwa [List.append_nil] at h
    obtain ⟨s', d, hs', hsb, hd, hserr⟩ :=
      s.recoverable hp.1 .declaration _ _ bound (fun hne => absurd rfl hne) hs h hb
    have hlt := length_of_ahead h hd
    have heol := peek_ne_eol h
    obtain ⟨w, ws, hsw, -⟩ := s.words_eq_cons
    rw [hsw] at h hlt
    rw [List.length_cons] at hlt
    obtain ⟨rest', d', hr, hrb, hrerr⟩ := ih hp.2 hd (by omega) (by omega : _ < n)
    -- nothing fails, so there is nothing to recover from
    have hrec : recovering (statement bound .declaration) c = .ok (some s') d := by
      rw [recovering, hs']
    refine ⟨s' :: rest', d', ?_, ?_, by rw [hrerr, hserr]⟩
    · rw [slots, bind_of_ok (skipEols_of_ne heol), bind_of_ok (get_apply c), atEnd_eq_false h]
      simp only [Bool.false_eq_true, if_false]
      rw [bind_of_ok hrec, bind_of_ok hr]
      rfl
    · rw [Stmt.bareAll, Stmt.bareAll, hsb, hrb]

/-- The tokens before the first end of the text. -/
theorem ahead_start {firstId : Nat} {ts : List Token} {ws : List Word} (hw : .eof ∉ ws)
    (h : ts.map Token.word = ws ++ [.eof]) : (Cursor.start firstId ts).ahead = ws := by
  obtain ⟨front, last, rfl, rfl, hlast⟩ := List.map_eq_append_iff.1 h
  obtain ⟨t, rfl, ht⟩ := List.map_eq_singleton_iff.1 hlast
  -- `start` cuts the tokens at the first end of the text, and here that is the last token
  have hfront : ∀ t ∈ front, (!t.kind.isEof) = true := by
    intro t hmem
    cases hk : t.kind with
    | eof =>
      refine absurd (List.mem_map.2 ⟨t, hmem, ?_⟩) hw
      simp only [Token.word, hk]
    | _ => rfl
  have hstop : t.kind = .eof := by rw [← Token.kind_word, ht, Word.kind]
  have hr : (Cursor.start firstId (front ++ [t])).rest = front := by
    simp only [Cursor.start]
    rw [List.takeWhile_append_of_pos hfront,
      List.takeWhile_cons_of_neg (by simp [hstop, TokenKind.isEof]), List.append_nil]
  rw [ahead, hr]

/-- A well-formed program that is written down is parsed as itself, whatever lines its tokens stand
on. -/
theorem parse_words {p : Program} (hp : Stmt.AllWellFormed p) {ts : List Token}
    (hts : ts.map Token.word = Stmt.wordsOfAll p ++ [.eof]) (firstId : Nat) :
    (parse firstId ts).program?.map Stmt.bareAll = some (Stmt.bareAll p) := by
  have hc : (Cursor.start firstId ts).ahead = Stmt.wordsOfAll p :=
    ahead_start (Stmt.eof_notMem_wordsOfAll p) hts
  obtain ⟨p', c', hs, hb, herr⟩ :=
    slots_recovered hp hc (Nat.lt_succ_self _) (Nat.lt_succ_self _)
  have he : c'.errors = [] := herr
  simp only [parse, hs, he, List.reverse_nil, Parsed.program?, Parsed.survivors, List.isEmpty_nil,
    if_true, Option.map_some, List.filterMap_map, Function.comp_def, id, List.filterMap_some, hb]

/-- The program `def f(x) { if x then while x do break; else return f(x) - x; }`, all on one
line. -/
theorem parse_words_routine :
    let token (kind : TokenKind) (lexeme : String) : Token := ⟨kind, lexeme, 1⟩
    let x : Expr := .variable ⟨0, ⟨"x", 0⟩⟩
    let f : Expr := .variable ⟨0, ⟨"f", 0⟩⟩
    let body : Stmt :=
      .ifThen x (.whileDo x (.breakLoop 0))
        (some (.returnWith 0 (some (.binary .subtract 0 (.call f 0 [x]) x))))
    let p : Program := [.define ⟨⟨"f", 0⟩, [⟨"x", 0⟩], [body]⟩]
    let ts : List Token :=
      [token (.keyword .defKw) "def", token .ident "f", token (.symbol .leftParen) "(",
        token .ident "x", token (.symbol .rightParen) ")", token (.symbol .leftBrace) "\x7b",
        token (.keyword .ifKw) "if", token .ident "x", token (.keyword .thenKw) "then",
        token (.keyword .whileKw) "while", token .ident "x", token (.keyword .doKw) "do",
        token (.keyword .breakKw) "break", token (.symbol .semicolon) ";",
        token (.keyword .elseKw) "else", token (.keyword .returnKw) "return", token .ident "f",
        token (.symbol .leftParen) "(", token .ident "x", token (.symbol .rightParen) ")",
        token (.symbol .minus) "-", token .ident "x", token (.symbol .semicolon) ";",
        token (.symbol .rightBrace) "\x7d", token .eof ""]
    Stmt.AllWellFormed p ∧ ts.map Token.word = Stmt.wordsOfAll p ++ [.eof] ∧
      (parse 7 ts).program?.map Stmt.bareAll = some (Stmt.bareAll p) := by
  intro token x f body p ts
  have hp : Stmt.AllWellFormed p := by
    simp [p, body, x, f, Stmt.AllWellFormed, Stmt.WellFormed, Stmt.RoutineWellFormed,
      Stmt.isDeclaration, Stmt.endsInOpenIf, Expr.Layered, Expr.AllLayered, Expr.level,
      BinaryOp.level]
  have hts : ts.map Token.word = Stmt.wordsOfAll p ++ [.eof] := rfl
  exact ⟨hp, hts, parse_words hp hts 7⟩

end Jal
