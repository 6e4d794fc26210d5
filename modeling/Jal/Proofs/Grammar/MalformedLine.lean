import Jal.Proofs.Grammar.Resumption
import Jal.Proofs.Grammar.Statements

namespace Jal

open Jal.Parser

namespace TokenKind

/-- Kinds that a line is not made of: ends, what divides statements, and the words in the middle of
an `if` or a `do`. -/
def divides : TokenKind → Bool
  | eol | eof => true
  | symbol s => s ∈ [.semicolon, .leftBrace, .rightBrace]
  | keyword k => k ∈ [.thenKw, .timesKw]
  | _ => false

def leads : TokenKind → Bool
  | keyword k => k ∈ [.letKw, .defKw, .classKw, .ifKw, .whileKw, .forKw, .doKw, .returnKw, .breakKw]
  | _ => false

end TokenKind

/-- The tokens of one line without its end; only the first of them may begin a declaration or a
statement. -/
structure IsLine (u : List Token) : Prop where
  ne_nil : u ≠ []
  undivided : ∀ t ∈ u, t.kind.divides = false
  led : ∀ t ∈ u.tail, t.kind.leads = false

/-- Reading has come to the cursor within the line `u`, which ends with `e`. -/
structure Cursor.OnLine (u : List Token) (e : Token) (c : Cursor) : Prop where
  rest : ∃ w, w <:+ u ∧ c.rest = w ++ [e]
  previous : ∀ kind ∈ c.previous, kind.divides = false

namespace Cursor

variable {u : List Token} {e : Token} {c : Cursor}

/-- The end of the line comes next, or a token of the line. -/
theorem OnLine.peek_cases (h : c.OnLine u e) : c.peek = e ∨ c.peek ∈ u := by
  obtain ⟨w, hw, hr⟩ := h.rest
  rw [Cursor.peek, hr]
  cases w with
  | nil => exact .inl rfl
  | cons t w => exact .inr (hw.subset List.mem_cons_self)

theorem OnLine.advance (hu : IsLine u) (he : e.kind = .eol) (h : c.OnLine u e)
    (hk : c.peek.kind ≠ .eol) : c.advance.OnLine u e := by
  obtain ⟨w, hw, hr⟩ := h.rest
  cases w with
  | nil =>
    rw [Cursor.peek, hr] at hk
    exact absurd he hk
  | cons t w =>
    have hadv : c.advance = { c with previous := some t.kind, rest := w ++ [e] } := by
      rw [Cursor.advance, hr]
      rfl
    rw [hadv]
    refine ⟨⟨w, (List.suffix_cons t w).trans hw, rfl⟩, ?_⟩
    rintro kind ⟨⟩
    exact hu.undivided t (hw.subset List.mem_cons_self)

/-- Behind its first token reading is on the rest of the line. -/
theorem OnLine.tail (h : c.OnLine u e) (hlen : c.rest.length ≤ u.length) : c.OnLine u.tail e := by
  obtain ⟨w, hw, hr⟩ := h.rest
  refine ⟨⟨w, ?_, hr⟩, h.previous⟩
  cases u with
  | nil => exact hw
  | cons t rest =>
    refine (List.suffix_cons_iff.1 hw).resolve_left fun heq => ?_
    rw [hr, heq, List.length_append] at hlen
    exact absurd hlen (Nat.not_succ_le_self _)

end Cursor

namespace Parser

variable {c : Cursor}

theorem terminator_eol {elseMayFollow : Bool} (h : c.peek.kind = .eol) :
    terminator elseMayFollow c = .ok () c.advance := by
  have ha : accept TokenKind.isEol c = .ok true c.advance := by
    rw [accept_apply, TokenKind.isEol_iff.2 h, if_pos rfl]
  rw [terminator, bind_of_ok ha]
  rfl

theorem terminator_missing (hk : c.peek.kind.divides = false)
    (hp : c.previousIs (TokenKind.isSymbol .rightBrace) = false) :
    terminator false c = unexpected "end of line or closing brace" c := by
  have hne {kind : TokenKind} (h : kind.divides = true) : c.peek.kind ≠ kind := by
    intro heq
    rw [heq, h] at hk
    cases hk
  have hbrace : c.nextIs (TokenKind.isSymbol .rightBrace) = false :=
    Bool.eq_false_iff.2 (mt TokenKind.isSymbol_iff.1 (hne rfl))
  have hend : c.atEnd = false := by
    rw [Cursor.atEnd, List.isEmpty_eq_false_iff]
    intro hr
    have hne : c.peek.kind ≠ .eof := hne rfl
    exact hne (by rw [Cursor.peek, hr]; rfl)
  rw [terminator, bind_of_ok (accept_eol_of_ne (hne rfl))]
  simp only [Bool.false_eq_true, if_false]
  rw [bind_of_ok (acceptSymbol_of_ne (hne rfl))]
  simp only [Bool.false_eq_true, if_false]
  rw [bind_of_ok (get_apply c), hbrace, hend, hp]
  rfl

end Parser

namespace Situation

def onLine {u : List Token} (hu : IsLine u) {e : Token} (he : e.kind = .eol) (v : List Token)
    (firstId : Nat) : Situation where
  previous := none
  after := (Cursor.start firstId v).rest
  endLine := (Cursor.start firstId v).endLine
  errors := []
  fromId := 0
  toId := firstId
  Holds := Cursor.OnLine u e
  inSight h := by
    obtain ⟨w, -, hr⟩ := h.rest
    exact .inl (by simp [hr])
  fromId_le _ := Nat.zero_le _
  advance h hk := h.advance hu he hk
  nextFresh h := ⟨h.rest, h.previous⟩
  withError _ h := ⟨h.rest, h.previous⟩

section Steps

variable {α β : Type} {s : Situation} {n : Nat} {c : Cursor} {φ : α → α} {p q : Parser α}
  {f g : α → Parser β}

/-- From `c` on, either both parsers succeed or both fail, with the same error at the same
token. -/
def FailsAlike (s : Situation) (p q : Parser α) (c : Cursor) : Prop :=
  match p c with
  | .ok _ _ => ∃ a d, q (s.place c) = .ok a d
  | .error e d => q (s.place c) = .error e (s.place d) ∧ s.Holds d

def Concurs (s : Situation) (n : Nat) (p q : Parser α) : Prop :=
  ∀ c : Cursor, s.Holds c → c.rest.length < n → s.FailsAlike p q c

theorem failsAlike_bind (hp : s.Follows φ p q c)
    (hf : ∀ a d, p c = .ok a d → s.Holds d → s.FailsAlike (f a) (g (φ a)) d) :
    s.FailsAlike (p >>= f) (q >>= g) c := by
  unfold FailsAlike
  cases h : p c with
  | ok a d =>
    obtain ⟨hq, hd⟩ := hp.of_ok h
    simpa only [FailsAlike, bind, EStateM.bind, h, hq] using hf a d h hd
  | error e d =>
    obtain ⟨hq, hd⟩ := hp.of_error h
    simpa only [bind, EStateM.bind, h, hq, true_and] using hd

theorem concurs_bind (hp : s.Carries n φ p q) (hf : ∀ a, s.Concurs n (f a) (g (φ a))) :
    s.Concurs n (p >>= f) (q >>= g) := by
  intro c hc hlt
  refine failsAlike_bind (hp.follows c hc hlt) fun a d hd hdc => hf a d hdc ?_
  exact Nat.lt_of_le_of_lt (hp.advancing.of_ok hd).length_le hlt

theorem concurs_ite {P : Prop} [Decidable P] {p' q' : Parser α} (h : s.Concurs n p q)
    (h' : s.Concurs n p' q') : s.Concurs n (if P then p else p') (if P then q else q') := by
  by_cases hP : P
  · rwa [if_pos hP, if_pos hP]
  · rwa [if_neg hP, if_neg hP]

theorem failsAlike_next_bind {f g : Token → Parser β} (h : s.Holds c)
    (hk : c.peek.kind.isEnd = false) (hf : s.Concurs c.rest.length (f c.peek) (g c.peek)) :
    s.FailsAlike (next >>= f) (next >>= g) c := by
  obtain ⟨hne, hend⟩ := Cursor.ne_of_not_isEnd hk
  refine failsAlike_bind (follows_next h hne) ?_
  rintro _ _ ⟨⟩ hd
  exact hf _ hd (Cursor.length_rest_advance_lt hend)

/-- What is asked for and does not come is missed alike, whatever would be read after it. -/
theorem concurs_expect {k : TokenKind → Bool} {what : String} {f g : Token → Parser β}
    (heol : k .eol = false)
    (hk : ∀ c : Cursor, s.Holds c → c.rest.length < n → k c.peek.kind = false) :
    s.Concurs n (expect k what >>= f) (expect k what >>= g) := by
  intro c hc hlt
  refine failsAlike_bind ((carries_expect heol what).follows c hc hlt) fun t d hd => ?_
  rw [expect_eq_ok, hk c hc hlt] at hd
  exact absurd hd.1 Bool.false_ne_true

end Steps

/-- The cursors of the situation are those on the line `u` before its end `e`, with no token before
it. -/
structure Confines (s : Situation) (u : List Token) (e : Token) : Prop where
  line : IsLine u
  eol : e.kind = .eol
  previous : s.previous = none
  onLine : ∀ {c : Cursor}, s.Holds c → c.OnLine u e

section Line

variable {s : Situation} {u : List Token} {e : Token} {n bound bound' : Nat} (hs : s.Confines u e)

include hs

/-- What no line is made of does not come next. -/
theorem peek_ne {c : Cursor} (hc : s.Holds c) {kind : TokenKind} (hdivides : kind.divides = true)
    (hne : kind.isEol = false) : c.peek.kind ≠ kind := by
  rintro rfl
  rcases (hs.onLine hc).peek_cases with h | h
  · rw [h, hs.eol] at hne
    cases hne
  · rw [hs.line.undivided _ h] at hdivides
    cases hdivides

theorem concurs_absent {β : Type} {k : TokenKind → Bool} {kind : TokenKind} {what : String}
    {f g : Token → Parser β} (hk : ∀ {kind'}, k kind' = true → kind' = kind)
    (hdivides : kind.divides = true) (hne : kind.isEol = false) :
    s.Concurs n (expect k what >>= f) (expect k what >>= g) := by
  have heol : k .eol = false := by
    refine Bool.eq_false_iff.2 fun h => ?_
    rw [← hk h] at hne
    cases hne
  refine concurs_expect heol fun c hc _ => ?_
  exact Bool.eq_false_iff.2 fun h => peek_ne hs hc hdivides hne (hk h)

theorem concurs_terminator {β : Type} (a b : β) :
    s.Concurs n (do terminator false; return a) (do terminator false; return b) := by
  intro c hc _
  have hpeek := peek_place hc
  rcases (hs.onLine hc).peek_cases with h | h
  · have hk : c.peek.kind = .eol := h ▸ hs.eol
    unfold FailsAlike
    rw [bind_of_ok (terminator_eol hk)]
    exact ⟨b, _, bind_of_ok (terminator_eol (hpeek ▸ hk))⟩
  · have hk := hs.line.undivided _ h
    -- the token before is none of another line, and no closing brace
    have hp : c.previousIs (TokenKind.isSymbol .rightBrace) = false := by
      refine Bool.eq_false_iff.2 fun h => ?_
      obtain ⟨kind, hkind, hbrace⟩ := (Option.any_eq_true _ _).1 h
      have hd := (hs.onLine hc).previous kind hkind
      rw [TokenKind.isSymbol_iff.1 hbrace] at hd
      cases hd
    have hp' : (s.place c).previousIs (TokenKind.isSymbol .rightBrace) = false := by
      simpa [Cursor.previousIs, place, hs.previous] using hp
    have hf : s.Follows id (terminator false) (terminator false) c := by
      refine follows_of_error (terminator_missing hk hp) ?_ hc
      rw [terminator_missing (hpeek ▸ hk) hp', unexpected, hpeek]
    refine failsAlike_bind hf fun _ d hd => ?_
    rw [terminator_missing hk hp] at hd
    cases hd

variable (hn : n ≤ bound) (hn' : n ≤ bound') {item item' : Place → Parser Stmt}

include hn hn'

theorem concurs_returnStatement (line : Nat) :
    s.Concurs n (returnStatement bound line false) (returnStatement bound' line false) := by
  intro c hc hlt
  have hget : s.Follows s.place get get c := follows_of_ok rfl rfl rfl rfl hc
  refine failsAlike_bind hget ?_
  rintro _ _ ⟨⟩ -
  -- on neither side the end is in sight
  obtain ⟨w, -, hr⟩ := (hs.onLine hc).rest
  have hend : c.atEnd = false := by simp [Cursor.atEnd, hr]
  have hend' : (s.place c).atEnd = false := by simp [Cursor.atEnd, place, hr]
  have hat : (s.place c).atTerminator false = c.atTerminator false := by
    simp only [Cursor.atTerminator, Cursor.atInlineElse, nextIs_place hc, hend, hend']
  rw [hat]
  have bare : s.Concurs n (do terminator false; return Stmt.returnWith line none)
      (do terminator false; return Stmt.returnWith line none) :=
    concurs_terminator hs _ _
  have valued : s.Concurs n
      (do let value ← expression bound
          terminator false
          return Stmt.returnWith line (some value))
      (do let value ← expression bound'
          terminator false
          return Stmt.returnWith line (some value)) :=
    concurs_bind (carries_expression hn hn') fun _ => concurs_terminator hs _ _
  exact concurs_ite bare valued c hc hlt

theorem concurs_routine {β : Type} {f g : Routine Stmt → Parser β} :
    s.Concurs n (routine bound item >>= f) (routine bound' item' >>= g) := by
  simp only [routine, bind_assoc]
  refine concurs_bind (carries_name _) fun _ => ?_
  refine concurs_bind (carries_expect rfl _) fun _ => ?_
  refine concurs_bind (carries_itemsUpTo (carries_name _) hn hn' _) fun _ => ?_
  refine concurs_bind (carries_expect rfl _) fun _ => ?_
  exact concurs_absent hs TokenKind.isSymbol_iff.1 rfl rfl

omit hn hn' in
theorem concurs_classDeclaration :
    s.Concurs n (classDeclaration bound item) (classDeclaration bound' item') := by
  refine concurs_bind (carries_name _) fun _ => ?_
  refine concurs_bind carries_superclass fun _ => ?_
  exact concurs_absent hs TokenKind.isSymbol_iff.1 rfl rfl

theorem concurs_ifStatement :
    s.Concurs n (ifStatement bound false item) (ifStatement bound' false item') := by
  refine concurs_bind (carries_expression hn hn') fun _ => ?_
  exact concurs_absent hs TokenKind.isKeyword_iff.1 rfl rfl

theorem concurs_timesStatement (line : Nat) :
    s.Concurs n (timesStatement bound line false item)
      (timesStatement bound' line false item') := by
  refine concurs_bind (carries_expression hn hn') fun _ => ?_
  exact concurs_absent hs TokenKind.isKeyword_iff.1 rfl rfl

/-- The `do` of a `while` would have to be the first token of the line. -/
theorem concurs_whileStatement (hlen : n ≤ u.length + 1) :
    s.Concurs n (whileStatement bound false item) (whileStatement bound' false item') := by
  refine concurs_bind (carries_expression hn hn') fun _ => ?_
  refine concurs_expect rfl fun c hc hlt => ?_
  have htail := (hs.onLine hc).tail (Nat.le_of_lt_succ (Nat.lt_of_lt_of_le hlt hlen))
  refine Bool.eq_false_iff.2 fun hdo => ?_
  rw [TokenKind.isKeyword_iff] at hdo
  rcases htail.peek_cases with h | h
  · rw [h, hs.eol] at hdo
    cases hdo
  · have hl := hs.line.led _ h
    rw [hdo] at hl
    cases hl

theorem concurs_forStatement :
    s.Concurs n (forStatement bound false item) (forStatement bound' false item') := by
  refine concurs_bind (carries_expect rfl _) fun _ => ?_
  refine concurs_bind (carries_forInit hn hn') fun _ => ?_
  refine concurs_bind (carries_expressionUnless hn hn' _) fun _ => ?_
  exact concurs_absent hs TokenKind.isSymbol_iff.1 rfl rfl

theorem concurs_bodyStatement (hlen : n ≤ u.length + 2) :
    s.Concurs n (bodyStatement bound false item) (bodyStatement bound' false item') := by
  intro c hc hlt
  have hpeek : s.Follows id peek peek c := follows_of_ok rfl rfl (peek_place hc).symm rfl hc
  refine failsAlike_bind hpeek ?_
  rintro _ _ ⟨⟩ -
  have hb : c.rest.length ≤ bound := by omega
  have hb' : c.rest.length ≤ bound' := by omega
  have hl : c.rest.length ≤ u.length + 1 := by omega
  have hbrace : c.peek.kind ≠ .symbol .leftBrace := peek_ne hs hc rfl rfl
  rw [id]
  generalize hk : c.peek.kind = kind at hbrace
  have read {f g : Token → Parser Stmt}
      (hf : s.Concurs c.rest.length (f c.peek) (g c.peek)) (hend : kind.isEnd = false) :
      s.FailsAlike (next >>= f) (next >>= g) c :=
    failsAlike_next_bind hc (hk ▸ hend) hf
  split
  · exact read (concurs_ifStatement hs hb hb') rfl
  · exact ⟨rfl, hc⟩
  · exact read (concurs_whileStatement hs hb hb' hl) rfl
  · exact read (concurs_timesStatement hs hb hb' _) rfl
  · exact read (concurs_forStatement hs hb hb') rfl
  · exact read (concurs_terminator hs _ _) rfl
  · exact read (concurs_returnStatement hs hb hb' _) rfl
  · contradiction
  · have hx := carries_expression (s := s) hn hn'
    exact concurs_bind hx (fun _ => concurs_terminator hs _ _) c hc hlt

theorem concurs_declaration (hlen : n ≤ u.length + 2) :
    s.Concurs n (declaration bound item) (declaration bound' item') := by
  refine concurs_bind (carries_accept rfl) fun _ => concurs_ite ?_ ?_
  · exact concurs_bind (carries_letClause hn hn') fun _ => concurs_terminator hs _ _
  refine concurs_bind (carries_accept rfl) fun _ => concurs_ite ?_ ?_
  · exact concurs_routine hs hn hn'
  refine concurs_bind (carries_accept rfl) fun _ => concurs_ite ?_ ?_
  · simpa using concurs_classDeclaration hs
  · exact concurs_bodyStatement hs hn hn' hlen

end Line

theorem confines_onLine {u : List Token} (hu : IsLine u) {e : Token} (he : e.kind = .eol)
    (v : List Token) (firstId : Nat) : (onLine hu he v firstId).Confines u e :=
  ⟨hu, he, rfl, id⟩

end Situation

namespace Cursor

theorem not_endsStatement {kind : TokenKind} (h : kind.divides = false) :
    endsStatement kind = false := by
  cases kind with
  | symbol x => cases x <;> first | rfl | cases h
  | eol => cases h
  | _ => rfl

theorem not_startsAfresh {kind : TokenKind} (h : kind.divides = false) (h' : kind.leads = false) :
    startsAfresh kind = false := by
  cases kind with
  | symbol x => cases x <;> first | rfl | cases h
  | keyword k => exact h'
  | _ => rfl

/-- Skipping on a line stops right behind its end. -/
theorem skipStatement_line {w : List Token} (hw : ∀ t ∈ w, t.kind.divides = false)
    (hw' : ∀ t ∈ w, t.kind.leads = false) {e : Token} (he : e.kind = .eol) (rest : List Token)
    {previous : Option TokenKind} (hp : previous.any endsStatement = false) :
    skipStatement previous (w ++ e :: rest) = (some .eol, rest) := by
  induction w generalizing previous with
  | nil =>
    rw [List.nil_append, skipStatement, hp, he]
    cases rest <;> rfl
  | cons t w ih =>
    rw [List.forall_mem_cons] at hw hw'
    rw [List.cons_append, skipStatement, hp, not_startsAfresh hw.1 hw'.1]
    exact ih hw.2 hw'.2 (not_endsStatement hw.1)

theorem pastStatement_line {w : List Token} (hw : ∀ t ∈ w, t.kind.divides = false)
    (hw' : ∀ t ∈ w, t.kind.leads = false) {e : Token} (he : e.kind = .eol) {rest : List Token}
    {c : Cursor} (hc : c.rest = w ++ e :: rest)
    (hp : ∀ kind ∈ c.previous, kind.divides = false) :
    c.pastStatement = { c with previous := some .eol, rest := rest } := by
  have hp : c.previous.any endsStatement = false := by
    rw [Option.any_eq_false]
    intro kind hkind
    simpa using not_endsStatement (hp kind hkind)
  rw [pastStatement, hc, skipStatement_line hw hw' he rest hp]

/-- After an error on a line, whatever comes behind it, reading goes on right behind its end. -/
theorem synchronize_line {u w : List Token} (hu : IsLine u) {e : Token} (he : e.kind = .eol)
    {rest : List Token} {c d : Cursor} (hc : c.rest = u ++ e :: rest) (hw : w <:+ u)
    (hd : d.rest = w ++ e :: rest) (hp : ∀ kind ∈ d.previous, kind.divides = false) :
    c.synchronize d = { d with previous := some .eol, rest := rest } := by
  obtain ⟨t, tail, rfl⟩ := List.exists_cons_of_ne_nil hu.ne_nil
  have hundivided := hu.undivided
  rw [List.forall_mem_cons] at hundivided
  rw [synchronize_eq]
  rcases List.suffix_cons_iff.1 hw with rfl | hw
  · -- nothing was read before the error, so that the first token is stepped over
    have hadv : d.advance = { d with previous := some t.kind, rest := tail ++ e :: rest } := by
      rw [advance, hd]
      rfl
    rw [if_pos (by rw [hc, hd]; exact beq_self_eq_true _), hadv]
    refine pastStatement_line hundivided.2 hu.led he rfl ?_
    rintro kind ⟨⟩
    exact hundivided.1
  · have hlen := hw.length_le
    rw [if_neg (by simp [hc, hd]; omega)]
    exact pastStatement_line (fun t ht => hundivided.2 t (hw.subset ht))
      (fun t ht => hu.led t (hw.subset ht)) he hd hp

theorem rest_start_append {ts : List Token} (h : ∀ t ∈ ts, t.kind.isEof = false) (firstId : Nat)
    (v : List Token) : (start firstId (ts ++ v)).rest = ts ++ (start firstId v).rest :=
  List.takeWhile_append_of_pos fun t ht => by simp [h t ht]

theorem endLine_start_append {ts v : List Token} (h : ∀ t ∈ ts, t.kind.isEof = false)
    (hv : v ≠ []) (firstId : Nat) :
    (start firstId (ts ++ v)).endLine = (start firstId v).endLine := by
  have hfind : ts.find? (·.kind.isEof) = none := by simpa using h
  have hlast : (ts ++ v).getLast? = v.getLast? := by
    rw [List.getLast?_append, List.getLast?_eq_some_getLast hv, Option.some_or]
  simp only [start, List.find?_append, hfind, Option.none_or, hlast]

end Cursor

/-- Parsing begins with an attempt at the declaration that the first token begins. -/
theorem parse_eq_cons {firstId n : Nat} {tokens : List Token} {d c' : Cursor}
    {slot : Option Stmt} {others : List (Option Stmt)}
    (hn : (Cursor.start firstId tokens).rest.length = n)
    (hr : (Cursor.start firstId tokens).rest ≠ [])
    (hk : (Cursor.start firstId tokens).peek.kind ≠ .eol)
    (hd : recovering (statement (n + 1) .declaration) (Cursor.start firstId tokens) = .ok slot d)
    (hs : slots (n + 1) n d = .ok others c') :
    parse firstId tokens = ⟨slot :: others, c'.errors.reverse, c'.nextId⟩ := by
  have hskip := Cursor.skipEols_of_ne hk
  have h : slots (n + 1) (n + 1) (Cursor.start firstId tokens) = .ok (slot :: others) c' :=
    slots_step (by rwa [hskip]) (by rwa [hskip]) hs
  simp only [parse, hn, h]

theorem head_slots_of_ok {firstId : Nat} {tokens : List Token} {d : Cursor} {a : Stmt}
    (hr : (Cursor.start firstId tokens).rest ≠ [])
    (hk : (Cursor.start firstId tokens).peek.kind ≠ .eol)
    (h : statement ((Cursor.start firstId tokens).rest.length + 1) .declaration
      (Cursor.start firstId tokens) = .ok a d) :
    (parse firstId tokens).slots.head? = some (some a) := by
  have hlt := consuming_statement _ _ _ _ _ h
  obtain ⟨others, c', hs, -⟩ := slots_ends (Nat.lt_succ_of_lt hlt) hlt
  rw [parse_eq_cons rfl hr hk (recovering_eq_some.2 h) hs]
  rfl

section Malformed

variable {u v : List Token} {e : Token} (hu : IsLine u) (he : e.kind = .eol)

include hu he

theorem not_isEof_of_line : ∀ t ∈ u ++ [e], t.kind.isEof = false := by
  intro t ht
  cases hk : t.kind with
  | eof =>
    rcases List.mem_append.1 ht with ht | ht
    · have hd := hu.undivided t ht
      rw [hk] at hd
      cases hd
    · rw [List.mem_singleton.1 ht, he] at hk
      cases hk
  | _ => rfl

theorem rest_start_line (firstId : Nat) (v : List Token) :
    (Cursor.start firstId (u ++ e :: v)).rest = u ++ e :: (Cursor.start firstId v).rest := by
  simpa using Cursor.rest_start_append (not_isEof_of_line hu he) firstId v

/-- In front of other tokens a line begins as it does alone, in its situation. -/
theorem start_append (hv : v ≠ []) (firstId : Nat) :
    Cursor.start firstId (u ++ e :: v) =
      (Situation.onLine hu he v firstId).place (Cursor.start 0 (u ++ [e])) := by
  have hend := Cursor.endLine_start_append (not_isEof_of_line hu he) hv firstId
  rw [List.append_assoc, List.singleton_append] at hend
  have hrest : u ++ e :: (Cursor.start firstId v).rest =
      (Cursor.start 0 (u ++ [e])).rest ++ (Cursor.start firstId v).rest := by
    rw [rest_start_line hu he 0 [], List.append_assoc]
    rfl
  calc Cursor.start firstId (u ++ e :: v)
      = ⟨none, (Cursor.start firstId (u ++ e :: v)).rest,
          (Cursor.start firstId (u ++ e :: v)).endLine, [], firstId⟩ := rfl
    _ = ⟨none, (Cursor.start 0 (u ++ [e])).rest ++ (Cursor.start firstId v).rest,
          (Cursor.start firstId v).endLine, [], 0 - 0 + firstId⟩ := by
        rw [rest_start_line hu he, hrest, hend, Nat.sub_self, Nat.zero_add]

theorem begins_line (firstId : Nat) (v : List Token) :
    (Cursor.start firstId (u ++ e :: v)).rest ≠ [] ∧
      (Cursor.start firstId (u ++ e :: v)).peek.kind ≠ .eol := by
  obtain ⟨t, tail, rfl⟩ := List.exists_cons_of_ne_nil hu.ne_nil
  rw [Cursor.peek, rest_start_line hu he]
  refine ⟨List.cons_ne_nil _ _, fun hk => ?_⟩
  have hd := hu.undivided t List.mem_cons_self
  rw [show t.kind = .eol from hk] at hd
  cases hd

/-- Whatever comes behind it, a line fails as it does alone. -/
theorem line_failsAlike (v : List Token) (firstId : Nat) {bound : Nat}
    (hb : u.length + 1 ≤ bound) :
    (Situation.onLine hu he v firstId).FailsAlike (statement (u.length + 2) .declaration)
      (statement (bound + 1) .declaration) (Cursor.start 0 (u ++ [e])) := by
  have hrest : (Cursor.start 0 (u ++ [e])).rest = u ++ [e] := rest_start_line hu he 0 []
  have hlen : (Cursor.start 0 (u ++ [e])).rest.length < u.length + 2 := by
    rw [hrest, List.length_append]
    exact Nat.lt_succ_self _
  -- nothing was read before
  have hon : (Cursor.start 0 (u ++ [e])).OnLine u e :=
    ⟨⟨u, List.suffix_refl u, hrest⟩, fun kind h => absurd h (Option.not_mem_none kind)⟩
  exact Situation.concurs_declaration (Situation.confines_onLine hu he v firstId) (Nat.le_refl _)
    (Nat.succ_le_succ hb) (Nat.le_refl _) _ hon hlen

/-- Reading goes on right behind a line on which it failed. -/
theorem recovering_line {firstId bound : Nat} {err : ParseError} {d : Cursor} {w : List Token}
    (h : statement bound .declaration (Cursor.start firstId (u ++ e :: v)) = .error err d)
    (hw : w <:+ u) (hd : d.rest = w ++ e :: (Cursor.start firstId v).rest)
    (hp : ∀ kind ∈ d.previous, kind.divides = false) :
    recovering (statement bound .declaration) (Cursor.start firstId (u ++ e :: v)) =
      .ok none
        { d.withError err with previous := some .eol, rest := (Cursor.start firstId v).rest } := by
  have hsync := Cursor.synchronize_line hu he (rest_start_line hu he firstId v) hw
    (d := d.withError err) hd hp
  rw [recovering_of_error h, hsync]

theorem recovering_place {firstId bound : Nat} {err : ParseError} {d : Cursor}
    (h : statement bound .declaration (Cursor.start firstId (u ++ e :: v)) =
      .error err ((Situation.onLine hu he v firstId).place d)) (hd : d.OnLine u e) :
    recovering (statement bound .declaration) (Cursor.start firstId (u ++ e :: v)) =
      .ok none ⟨some .eol, (Cursor.start firstId v).rest, (Cursor.start firstId v).endLine,
        err :: d.errors, d.nextId + firstId⟩ := by
  obtain ⟨w, hw, hr⟩ := hd.rest
  have hr : ((Situation.onLine hu he v firstId).place d).rest =
      w ++ e :: (Cursor.start firstId v).rest := by
    rw [Situation.place, hr, List.append_assoc]
    rfl
  have hp : ∀ kind ∈ ((Situation.onLine hu he v firstId).place d).previous,
      kind.divides = false := by
    simpa [Situation.place, Situation.onLine] using hd.previous
  rw [recovering_line hu he h hw hr hp]
  simp [Situation.place, Situation.onLine, Situation.rename, Cursor.withError]

end Malformed

/-- A malformed line does not affect what comes behind it: its slot is empty, the other slots are
those of the tokens behind it up to the ids, and its errors, which depend on nothing behind it, come
before theirs. -/
theorem malformed_line_contained {u v : List Token} {e : Token} (hu : IsLine u)
    (he : e.kind = .eol) (hv : v ≠ []) (firstId other : Nat)
    (h : (parse firstId (u ++ e :: v)).slots.head? = some none) :
    let line := parse 0 (u ++ [e])
    let alone := parse other v
    line.slots = [none] ∧
      (parse firstId (u ++ e :: v)).slots =
        none :: alone.slots.map
          (Option.map (Stmt.renumber fun id => id - other + (line.nextId + firstId))) ∧
      (parse firstId (u ++ e :: v)).errors = line.errors ++ alone.errors := by
  obtain ⟨hne, hk⟩ := begins_line hu he firstId v
  obtain ⟨hne', hk'⟩ := begins_line hu he 0 []
  have hlen : (Cursor.start 0 (u ++ [e])).rest.length = u.length + 1 := by
    rw [rest_start_line hu he, List.length_append]
    rfl
  have hle : u.length + 1 ≤ (Cursor.start firstId (u ++ e :: v)).rest.length := by
    simp [rest_start_line hu he]
  have hf := line_failsAlike hu he v firstId hle
  rw [Situation.FailsAlike, ← start_append hu he hv firstId] at hf
  cases hp : statement (u.length + 2) .declaration (Cursor.start 0 (u ++ [e])) with
  | ok a d =>
    rw [hp] at hf
    obtain ⟨a', d', hq⟩ := hf
    rw [head_slots_of_ok hne hk hq] at h
    cases h
  | error err d =>
    rw [hp] at hf
    obtain ⟨hq, hd⟩ := hf
    obtain ⟨w, hw, hr⟩ := hd.rest
    have hline : parse 0 (u ++ [e]) = ⟨[none], (err :: d.errors).reverse, d.nextId⟩ :=
      parse_eq_cons hlen hne' hk' (recovering_line hu he hp hw hr hd.previous) (slots_stop rfl)
    have hlt : (Cursor.start other v).rest.length <
        (Cursor.start firstId (u ++ e :: v)).rest.length := by
      rw [rest_start_line hu he, List.length_append, List.length_cons]
      exact Nat.lt_add_left _ (Nat.lt_succ_self _)
    obtain ⟨c, hs, herrors⟩ := slots_afterLine v (err :: d.errors) other (d.nextId + firstId)
      (Nat.lt_succ_of_lt hlt) hlt
    rw [parse_eq_cons rfl hne hk (recovering_place hu he hq hd) hs, hline]
    refine ⟨rfl, rfl, ?_⟩
    rw [herrors, List.reverse_append, List.reverse_reverse]

/-- `x y` on the line before `z`: the use of `x` has taken an id when the line is given up. -/
theorem malformed_line_contained_names :
    let word (text : String) (line : Nat) : Token := ⟨.ident, text, line⟩
    let u := [word "x" 1, word "y" 1]
    let e : Token := ⟨.eol, "", 1⟩
    let v := [word "z" 2, ⟨.eof, "", 2⟩]
    (parse 5 (u ++ e :: v)).slots.head? = some none ∧
      (parse 5 (u ++ e :: v)).slots =
        none :: (parse 3 v).slots.map (Option.map (Stmt.renumber fun id => id - 3 + (1 + 5))) ∧
      (parse 5 (u ++ e :: v)).errors =
        [.expected 1 "end of line or closing brace" "'y'"] ++ (parse 3 v).errors := by
  intro word u e v
  have hu : IsLine u := ⟨List.cons_ne_nil _ _, by decide, by decide⟩
  have h : (parse 5 (u ++ e :: v)).slots.head? = some none := by with_unfolding_all rfl
  have hid : (parse 0 (u ++ [e])).nextId = 1 := by with_unfolding_all rfl
  have herrors : (parse 0 (u ++ [e])).errors =
      [.expected 1 "end of line or closing brace" "'y'"] := by with_unfolding_all rfl
  have hv : v ≠ [] := List.cons_ne_nil _ _
  rw [← herrors, ← hid]
  exact ⟨h, (malformed_line_contained hu rfl hv 5 3 h).2⟩

end Jal
