import Jal.Proofs.Grammar.Situations

namespace Jal

open Jal.Parser

/-- Reading that began with `tokens` has come to the cursor; unless a token was read, all of them
are to come. -/
structure Cursor.Amidst (tokens : List Token) (endLine firstId : Nat) (c : Cursor) : Prop where
  rest : c.rest <:+ tokens
  unread : c.previous = none → c.rest = tokens
  endLine : c.endLine = endLine
  nextId : firstId ≤ c.nextId

namespace Cursor

variable {tokens : List Token} {endLine firstId : Nat} {c d : Cursor}

theorem Amidst.advance (h : c.Amidst tokens endLine firstId) :
    c.advance.Amidst tokens endLine firstId := by
  cases hr : c.rest with
  | nil => rwa [Cursor.advance, hr]
  | cons t rest =>
    rw [Cursor.advance, hr]
    have hrest := (List.suffix_cons t rest).trans (hr ▸ h.rest)
    exact ⟨hrest, fun hp => absurd hp (Option.some_ne_none _), h.endLine, h.nextId⟩

theorem Amidst.skipEols (h : c.Amidst tokens endLine firstId) :
    c.skipEols.Amidst tokens endLine firstId := by
  refine ⟨c.advances_skipEols.rest.trans h.rest, fun hp => ?_, h.endLine, h.nextId⟩
  simp only [Cursor.skipEols, List.span_eq_takeWhile_dropWhile, Option.orElse_eq_orElse,
    Option.orElse_eq_or, Option.or_eq_none_iff, Option.map_eq_none_iff,
    List.getLast?_eq_none_iff] at hp ⊢
  have hrest := List.takeWhile_append_dropWhile (p := fun t : Token => t.kind.isEol) (l := c.rest)
  rw [hp.1, List.nil_append] at hrest
  rw [hrest, h.unread hp.2]

def pastStatement (c : Cursor) : Cursor :=
  { c with
    previous := (skipStatement c.previous c.rest).1
    rest := (skipStatement c.previous c.rest).2 }

theorem synchronize_eq (c d : Cursor) :
    c.synchronize d =
      (if d.rest.length == c.rest.length then d.advance else d).pastStatement := rfl

theorem skipStatement_ne_none (kind : TokenKind) (ts : List Token) :
    (skipStatement (some kind) ts).1 ≠ none := by
  induction ts generalizing kind with
  | nil => exact Option.some_ne_none kind
  | cons t rest ih =>
    rw [skipStatement]
    split
    · exact Option.some_ne_none kind
    · exact ih t.kind

theorem Amidst.pastStatement (h : c.Amidst tokens endLine firstId)
    (hread : c.previous = none → c.rest = []) : c.pastStatement.Amidst tokens endLine firstId := by
  refine ⟨(skipStatement_suffix _ _).trans h.rest, fun hp => ?_, h.endLine, h.nextId⟩
  cases hprevious : c.previous with
  | some kind =>
    rw [Cursor.pastStatement, hprevious] at hp
    exact absurd hp (skipStatement_ne_none _ _)
  | none =>
    rw [← h.unread hprevious, Cursor.pastStatement, hread hprevious]
    rfl

/-- Where reading goes on after an error in what began at `c`, a token was read, if there is
one. -/
theorem Amidst.read (hc : c.Amidst tokens endLine firstId) (hd : d.Amidst tokens endLine firstId)
    (hsuffix : d.rest <:+ c.rest) :
    let d' := if d.rest.length == c.rest.length then d.advance else d
    d'.previous = none → d'.rest = [] := by
  dsimp only
  split
  · cases hr : d.rest with
    | nil =>
      rw [Cursor.advance, hr]
      exact fun _ => hr
    | cons t rest =>
      rw [Cursor.advance, hr]
      exact fun hp => absurd hp (Option.some_ne_none _)
  · rename_i hne
    intro hp
    have hlen := hc.rest.length_le
    rw [← hd.unread hp] at hlen
    exact absurd (Nat.le_antisymm hsuffix.length_le hlen) (by simpa using hne)

end Cursor

theorem Parser.recovering_of_error {α : Type} {p : Parser α} {c d : Cursor} {e : ParseError}
    (h : p c = .error e d) : recovering p c = .ok none (c.synchronize (d.withError e)) := by
  simp only [recovering, h, Cursor.withError]

namespace Situation

/-- The situation is that of the rest of a token list, where reading can also go on after an error:
nothing comes after the tokens, the last token before them is no closing brace, and the places
where reading goes on are the same. -/
structure Resumes (s : Situation) : Prop where
  after : s.after = []
  previous : s.previous.any (TokenKind.isSymbol .rightBrace) = false
  advance : ∀ {c : Cursor}, s.Holds c → s.Holds c.advance
  skipEols : ∀ {c : Cursor}, s.Holds c → s.Holds c.skipEols
  synchronize : ∀ {c d : Cursor}, s.Holds c → s.Holds d → d.rest <:+ c.rest →
    (s.place c).synchronize (s.place d) = s.place (c.synchronize d) ∧ s.Holds (c.synchronize d)

/-- The place of `tokens` behind the end of a line, with these errors before and the ids from
`toId` on. -/
def afterLine (tokens : List Token) (endLine : Nat) (errors : List ParseError)
    (fromId toId : Nat) : Situation where
  previous := some .eol
  after := []
  endLine := endLine
  errors := errors
  fromId := fromId
  toId := toId
  Holds := Cursor.Amidst tokens endLine fromId
  inSight h := .inr ⟨rfl, h.endLine.symm⟩
  fromId_le h := h.nextId
  advance h _ := h.advance
  nextFresh h := ⟨h.rest, h.unread, h.endLine, Nat.le_succ_of_le h.nextId⟩
  withError _ h := ⟨h.rest, h.unread, h.endLine, h.nextId⟩

theorem pastStatement_place {s : Situation} (ha : s.after = []) {c : Cursor}
    (hread : c.previous = none → c.rest = []) :
    (s.place c).pastStatement = s.place c.pastStatement := by
  cases hp : c.previous with
  | none => simp [Cursor.pastStatement, place, ha, hread hp, hp, Cursor.skipStatement]
  | some kind =>
    have hsome := Cursor.skipStatement_ne_none kind c.rest
    obtain ⟨kind', hkind⟩ := Option.ne_none_iff_exists'.1 hsome
    simp [Cursor.pastStatement, place, ha, hp, hkind]

theorem resumes_afterLine (tokens : List Token) (endLine : Nat) (errors : List ParseError)
    (fromId toId : Nat) : (afterLine tokens endLine errors fromId toId).Resumes := by
  refine ⟨rfl, rfl, fun h => h.advance, fun h => h.skipEols, fun {c d} hc hd hsuffix => ?_⟩
  have hread := hc.read hd hsuffix
  simp only [Cursor.synchronize_eq] at hread ⊢
  refine ⟨?_, Cursor.Amidst.pastStatement ?_ hread⟩
  · rw [← pastStatement_place rfl hread, apply_ite (place _), advance_place hd]
    simp only [place, afterLine, List.append_nil]
  · split
    · exact hd.advance
    · exact hd

section Steps

variable {α β : Type} {s : Situation} {n : Nat} {c : Cursor} {φ : α → α} {ψ : β → β}
  {p q : Parser α} (hs : s.Resumes)

include hs

theorem rest_place (c : Cursor) : (s.place c).rest = c.rest := by
  rw [place, hs.after, List.append_nil]

theorem atEnd_place (c : Cursor) : (s.place c).atEnd = c.atEnd := by
  rw [Cursor.atEnd, rest_place hs, Cursor.atEnd]

theorem previousIs_place (c : Cursor) :
    (s.place c).previousIs (TokenKind.isSymbol .rightBrace) =
      c.previousIs (TokenKind.isSymbol .rightBrace) := by
  cases hp : c.previous with
  | none => simpa [Cursor.previousIs, place, hp] using hs.previous
  | some kind => simp [Cursor.previousIs, place, hp]

omit hs in
theorem nextIs_place (h : s.Holds c) (k : TokenKind → Bool) :
    (s.place c).nextIs k = c.nextIs k := by
  rw [Cursor.nextIs, peek_place h, Cursor.nextIs]

theorem atTerminator_place (h : s.Holds c) (elseMayFollow : Bool) :
    (s.place c).atTerminator elseMayFollow = c.atTerminator elseMayFollow := by
  simp only [Cursor.atTerminator, Cursor.atInlineElse, nextIs_place h, atEnd_place hs]

theorem skipEols_place (c : Cursor) : (s.place c).skipEols = s.place c.skipEols := by
  simp [Cursor.skipEols, place, hs.after, List.span_eq_takeWhile_dropWhile, Option.or_assoc]

theorem carries_accept_any (k : TokenKind → Bool) : s.Carries n id (accept k) (accept k) :=
  ⟨advancing_accept k, fun _ hc _ => follows_accept hc fun _ => hs.advance hc⟩

theorem carries_acceptEol : s.Carries n id acceptEol acceptEol :=
  carries_bind (carries_accept_any hs _) fun _ => carries_pure rfl

omit hs in
theorem follows_get_bind {f g : Cursor → Parser β} (h : s.Holds c)
    (hf : s.Follows ψ (f c) (g (s.place c)) c) : s.Follows ψ (get >>= f) (get >>= g) c := by
  have hp : s.Follows s.place get get c := follows_of_ok rfl rfl rfl rfl h
  refine follows_bind hp ?_
  rintro _ _ ⟨⟩ -
  exact hf

omit hs in
theorem carries_get_bind {f g : Cursor → Parser β} (ha : ∀ c, Advancing (f c))
    (hf : ∀ c : Cursor, s.Holds c → c.rest.length < n → s.Follows ψ (f c) (g (s.place c)) c) :
    s.Carries n ψ (get >>= f) (get >>= g) :=
  ⟨advancing_bind advancing_get ha, fun c hc hlt => follows_get_bind hc (hf c hc hlt)⟩

/-- A turn of a loop begins behind the ends of lines. -/
theorem follows_turn {f g : Cursor → Parser β} (h : s.Holds c)
    (hf : s.Follows ψ (f c.skipEols) (g (s.place c.skipEols)) c.skipEols) :
    s.Follows ψ (do skipEols; let d ← get; f d) (do skipEols; let d ← get; g d) c := by
  have hp : s.Follows id skipEols skipEols c :=
    follows_of_ok rfl rfl rfl (skipEols_place hs c) (hs.skipEols h)
  refine follows_bind hp ?_
  rintro _ _ ⟨⟩ hd
  exact follows_get_bind hd hf

theorem carries_recovering (h : s.Carries n φ p q) :
    s.Carries n (Option.map φ) (recovering p) (recovering q) := by
  refine ⟨advancing_recovering h.advancing, fun c hc hlt => ?_⟩
  have hf := h.follows c hc hlt
  cases hp : p c with
  | ok a d =>
    obtain ⟨hq, hd⟩ := hf.of_ok hp
    exact follows_of_ok (recovering_eq_some.2 hp) (recovering_eq_some.2 hq) rfl rfl hd
  | error e d =>
    obtain ⟨hq, hd⟩ := hf.of_error hp
    have hsuffix := (h.advancing.of_error hp).rest
    obtain ⟨hplace, hd'⟩ := hs.synchronize hc (s.withError e hd) hsuffix
    exact follows_of_ok (recovering_of_error hp) (recovering_of_error hq) rfl hplace hd'

/-- An attempt uses up a token even where it fails, so there are fewer to come for what is read
after it. -/
theorem follows_attempt {γ : Type} {χ : γ → γ} {join : Option α → β → γ} {tail tail' : Parser β}
    (h : s.Carries n φ p q) (hp : Consuming p) (hc : s.Holds c) (hne : c.rest ≠ [])
    (hlt : c.rest.length < n) (ht : s.Carries c.rest.length ψ tail tail')
    (hjoin : ∀ slot b, χ (join slot b) = join (slot.map φ) (ψ b)) :
    s.Follows χ (do let slot ← recovering p; let b ← tail; return join slot b)
      (do let slot ← recovering q; let b ← tail'; return join slot b) c := by
  refine follows_bind ((carries_recovering hs h).follows c hc hlt) fun slot d hd hdc => ?_
  have hless := length_lt_of_recovering h.advancing hp hne hd
  refine follows_bind (ht.follows d hdc hless) fun b d' _ hdc' => ?_
  exact follows_pure hdc' (hjoin slot b)

theorem carries_terminator (elseMayFollow : Bool) :
    s.Carries n id (terminator elseMayFollow) (terminator elseMayFollow) := by
  refine carries_bind (carries_accept_any hs _) fun _ => carries_ite (carries_pure rfl) ?_
  refine carries_bind (carries_accept_any hs _) fun _ => carries_ite ?_ ?_
  · exact carries_bind (carries_acceptEol hs) fun _ => carries_pure rfl
  · refine carries_get_bind (fun c => ?_) fun c hc _ => ?_
    · split
      · exact advancing_pure _
      · exact advancing_unexpected _
    · simp only [nextIs_place hc, atEnd_place hs, previousIs_place hs, Cursor.atInlineElse]
      exact follows_ite (fun _ => follows_pure hc rfl) fun _ => follows_unexpected hc _

end Steps

section Statements

variable {s : Situation} {n bound bound' k k' : Nat} (hs : s.Resumes) (hn : n ≤ bound)
  (hn' : n ≤ bound')

include hs hn hn'

theorem carries_returnStatement (line : Nat) (elseMayFollow : Bool) :
    s.Carries n (Stmt.renumber s.rename) (returnStatement bound line elseMayFollow)
      (returnStatement bound' line elseMayFollow) := by
  have bare : s.Carries n (Stmt.renumber s.rename)
      (do terminator elseMayFollow; return .returnWith line none)
      (do terminator elseMayFollow; return .returnWith line none) :=
    carries_bind (carries_terminator hs _) fun _ => carries_pure (by rw [Stmt.renumber]; rfl)
  have valued : s.Carries n (Stmt.renumber s.rename)
      (do let value ← expression bound
          terminator elseMayFollow
          return .returnWith line (some value))
      (do let value ← expression bound'
          terminator elseMayFollow
          return .returnWith line (some value)) := by
    refine carries_bind (carries_expression hn hn') fun _ => ?_
    exact carries_bind (carries_terminator hs _) fun _ => carries_pure (by rw [Stmt.renumber]; rfl)
  refine carries_get_bind (fun c => ?_) fun c hc hlt => ?_
  · split
    · exact bare.advancing
    · exact valued.advancing
  · simp only [atTerminator_place hs hc]
    exact follows_ite (fun _ => bare.follows c hc hlt) fun _ => valued.follows c hc hlt

variable {item item' : Place → Parser Stmt}
  (hi : ∀ place, s.Carries n (Stmt.renumber s.rename) (item place) (item' place))
  (hc : Consuming (item .declaration))

include hi

theorem carries_ifStatement (elseMayFollow : Bool) :
    s.Carries n (Stmt.renumber s.rename) (ifStatement bound elseMayFollow item)
      (ifStatement bound' elseMayFollow item') := by
  refine carries_bind (carries_expression hn hn') fun _ => ?_
  refine carries_bind (carries_expect rfl _) fun _ => ?_
  refine carries_bind (carries_acceptEol hs) fun _ => ?_
  refine carries_bind (hi _) fun _ => ?_
  refine carries_bind (carries_accept rfl) fun _ => carries_ite ?_ ?_
  · refine carries_bind (carries_acceptEol hs) fun _ => ?_
    exact carries_bind (hi _) fun _ => carries_pure (by rw [Stmt.renumber])
  · exact carries_pure (by rw [Stmt.renumber])

theorem carries_whileStatement (elseMayFollow : Bool) :
    s.Carries n (Stmt.renumber s.rename) (whileStatement bound elseMayFollow item)
      (whileStatement bound' elseMayFollow item') := by
  refine carries_bind (carries_expression hn hn') fun _ => ?_
  refine carries_bind (carries_expect rfl _) fun _ => ?_
  refine carries_bind (carries_acceptEol hs) fun _ => ?_
  exact carries_bind (hi _) fun _ => carries_pure (by rw [Stmt.renumber])

theorem carries_timesStatement (line : Nat) (elseMayFollow : Bool) :
    s.Carries n (Stmt.renumber s.rename) (timesStatement bound line elseMayFollow item)
      (timesStatement bound' line elseMayFollow item') := by
  refine carries_bind (carries_expression hn hn') fun _ => ?_
  refine carries_bind (carries_expect rfl _) fun _ => ?_
  refine carries_bind (carries_acceptEol hs) fun _ => ?_
  exact carries_bind (hi _) fun _ => carries_pure (by rw [Stmt.renumber])

theorem carries_forStatement (elseMayFollow : Bool) :
    s.Carries n (Stmt.renumber s.rename) (forStatement bound elseMayFollow item)
      (forStatement bound' elseMayFollow item') := by
  refine carries_bind (carries_expect rfl _) fun _ => ?_
  refine carries_bind (carries_forInit hn hn') fun _ => ?_
  refine carries_bind (carries_expressionUnless hn hn' _) fun _ => ?_
  refine carries_bind (carries_expect rfl _) fun _ => ?_
  refine carries_bind (carries_expressionUnless hn hn' _) fun _ => ?_
  refine carries_bind (carries_expect rfl _) fun _ => ?_
  refine carries_bind (carries_acceptEol hs) fun _ => ?_
  exact carries_bind (hi _) fun _ => carries_pure (forLoop_renumber ..).symm

include hc

omit hn hn' in
/-- Each turn attempts a declaration, which uses up a token even where it fails. -/
theorem carries_blockItems (hk : n ≤ k) (hk' : n ≤ k') :
    s.Carries n (List.map (Stmt.renumber s.rename)) (blockItems item k) (blockItems item' k') := by
  have ha := fun place => (hi place).advancing
  induction k generalizing n k' with
  | zero => exact carries_zero advancing_exhausted hk
  | succ k ih =>
    cases k' with
    | zero => exact carries_zero (advancing_blockItems ha _) hk'
    | succ k' =>
      refine ⟨advancing_blockItems ha _, fun c hh hlt => follows_turn hs hh ?_⟩
      have hh := hs.skipEols hh
      have hle := c.advances_skipEols.length_le
      simp only [nextIs_place hh, atEnd_place hs]
      refine follows_ite (fun _ => follows_pure hh rfl) fun h => ?_
      have hne : c.skipEols.rest ≠ [] := by
        intro hnil
        simp [Cursor.atEnd, hnil] at h
      have hrest : s.Carries c.skipEols.rest.length (List.map (Stmt.renumber s.rename))
          (blockItems item k) (blockItems item' k') :=
        ih (fun place => (hi place).mono (by omega)) (by omega) (by omega)
      refine follows_attempt hs (hi .declaration) hc hh hne (by omega) hrest fun slot others => ?_
      cases slot <;> rfl

theorem carries_block :
    s.Carries n (List.map (Stmt.renumber s.rename)) (block bound item) (block bound' item') := by
  refine carries_bind (carries_blockItems hs hi hc hn hn') fun _ => ?_
  exact carries_bind (carries_expect rfl _) fun _ => carries_pure rfl

theorem carries_routine :
    s.Carries n (Stmt.renumberRoutine s.rename) (routine bound item) (routine bound' item') := by
  refine carries_bind (carries_name _) fun _ => ?_
  refine carries_bind (carries_expect rfl _) fun _ => ?_
  refine carries_bind (carries_itemsUpTo (carries_name _) hn hn' _) fun _ => ?_
  refine carries_bind (carries_expect rfl _) fun _ => ?_
  refine carries_bind (carries_expect rfl _) fun _ => ?_
  refine carries_bind (carries_block hs hn hn' hi hc) fun _ => ?_
  refine carries_bind (carries_terminator hs _) fun _ => carries_pure ?_
  rw [Stmt.renumberRoutine, Stmt.renumberAll_eq_map, List.map_id, id]

theorem carries_methods (hk : n ≤ k) (hk' : n ≤ k') :
    s.Carries n (List.map (Stmt.renumberRoutine s.rename)) (methods bound item k)
      (methods bound' item' k') := by
  have ha := fun place => (hi place).advancing
  induction k generalizing n k' with
  | zero => exact carries_zero advancing_exhausted hk
  | succ k ih =>
    cases k' with
    | zero => exact carries_zero (advancing_methods ha _ _) hk'
    | succ k' =>
      refine ⟨advancing_methods ha _ _, fun c hh hlt => follows_turn hs hh ?_⟩
      have hh := hs.skipEols hh
      have hle := c.advances_skipEols.length_le
      simp only [nextIs_place hh, atEnd_place hs]
      refine follows_ite (fun _ => follows_pure hh rfl) fun h => ?_
      refine follows_bind ((carries_expect rfl _).follows _ hh (Nat.lt_succ_self _)) ?_
      intro t d hd hhd
      -- the `def` has been read
      obtain ⟨hkind, -, rfl⟩ := expectKeyword_eq_ok.1 hd
      have hless := Cursor.length_rest_advance_lt (c := c.skipEols) (by simp [hkind])
      have hi := fun place => (hi place).mono (Nat.le_of_lt hlt)
      have hrest : s.Carries c.rest.length (List.map (Stmt.renumberRoutine s.rename))
          (methods bound item k) (methods bound' item' k') :=
        ih (by omega) (by omega) hi (by omega) (by omega)
      have hr : s.Carries c.rest.length (Stmt.renumberRoutine s.rename)
          (routine bound item) (routine bound' item') :=
        carries_routine hs (by omega) (by omega) hi hc
      refine (carries_bind hr fun _ => ?_).follows _ hhd (by omega)
      exact carries_bind hrest fun _ => carries_pure rfl

theorem carries_classDeclaration :
    s.Carries n (Stmt.renumber s.rename) (classDeclaration bound item)
      (classDeclaration bound' item') := by
  refine carries_bind (carries_name _) fun _ => ?_
  refine carries_bind carries_superclass fun _ => ?_
  refine carries_bind (carries_expect rfl _) fun _ => ?_
  refine carries_bind (carries_methods hs hn hn' hi hc hn hn') fun _ => ?_
  refine carries_bind (carries_expect rfl _) fun _ => ?_
  refine carries_bind (carries_terminator hs _) fun _ => carries_pure ?_
  rw [Stmt.renumber, Stmt.renumberMethods_eq_map, id]

omit hn hn' in
/-- What stands in a statement comes after a token of the statement's own. -/
theorem carries_bodyStatement (hn : n + 1 ≤ bound) (hn' : n + 1 ≤ bound') (elseMayFollow : Bool) :
    s.Carries (n + 1) (Stmt.renumber s.rename) (bodyStatement bound elseMayFollow item)
      (bodyStatement bound' elseMayFollow item') := by
  have ha := fun place => (hi place).advancing
  refine ⟨advancing_bodyStatement ha _ _, fun c hh hlt => follows_peek_bind hh ?_⟩
  have hi := fun place => (hi place).mono (Nat.le_of_lt_succ hlt)
  have hb : c.rest.length ≤ bound := by omega
  have hb' : c.rest.length ≤ bound' := by omega
  generalize hk : c.peek.kind = kind
  have read {f g : Token → Parser Stmt}
      (hf : s.Carries c.rest.length (Stmt.renumber s.rename) (f c.peek) (g c.peek))
      (hend : kind.isEnd = false) :
      s.Follows (Stmt.renumber s.rename) (next >>= f) (next >>= g) c :=
    follows_next_bind hh (hk ▸ hend) hf
  split
  · exact read (carries_ifStatement hs hb hb' hi _) rfl
  · exact follows_of_error rfl rfl hh
  · exact read (carries_whileStatement hs hb hb' hi _) rfl
  · exact read (carries_timesStatement hs hb hb' hi _ _) rfl
  · exact read (carries_forStatement hs hb hb' hi _) rfl
  · refine read ?_ rfl
    exact carries_bind (carries_terminator hs _) fun _ => carries_pure (by rw [Stmt.renumber])
  · exact read (carries_returnStatement hs hb hb' _ _) rfl
  · refine read ?_ rfl
    refine carries_bind (carries_block hs hb hb' hi hc) fun _ => ?_
    refine carries_bind (carries_terminator hs _) fun _ => carries_pure ?_
    rw [Stmt.renumber, Stmt.renumberAll_eq_map]
  · refine (carries_bind (carries_expression hn hn') fun _ => ?_).follows c hh hlt
    exact carries_bind (carries_terminator hs _) fun _ => carries_pure (by rw [Stmt.renumber])

omit hn hn' in
theorem carries_declaration (hn : n + 1 ≤ bound) (hn' : n + 1 ≤ bound') :
    s.Carries (n + 1) (Stmt.renumber s.rename) (declaration bound item)
      (declaration bound' item') := by
  have ha := fun place => (hi place).advancing
  have hbody := carries_bodyStatement hs hi hc hn hn' false
  refine ⟨advancing_declaration ha _, fun c hh hlt => ?_⟩
  have hi := fun place => (hi place).mono (Nat.le_of_lt_succ hlt)
  have hb : c.rest.length ≤ bound := by omega
  have hb' : c.rest.length ≤ bound' := by omega
  refine follows_accept_bind rfl hh rfl ?_ ?_
  · refine carries_bind (carries_letClause hb hb') fun _ => ?_
    exact carries_bind (carries_terminator hs _) fun _ => carries_pure rfl
  refine follows_accept_bind rfl hh rfl ?_ ?_
  · refine carries_bind (carries_routine hs hb hb' hi hc) fun _ => carries_pure ?_
    rw [Stmt.renumber]
  refine follows_accept_bind rfl hh rfl ?_ ?_
  · exact carries_classDeclaration hs hb hb' hi hc
  · exact hbody.follows c hh hlt

end Statements

theorem carries_statement {s : Situation} (hs : s.Resumes) {n bound bound' : Nat} (hn : n ≤ bound)
    (hn' : n ≤ bound') (place : Place) :
    s.Carries n (Stmt.renumber s.rename) (statement bound place) (statement bound' place) := by
  induction bound generalizing n bound' place with
  | zero => exact carries_zero (advancing_statement 0 place) hn
  | succ bound ih =>
    match n, bound' with
    | 0, _ => exact carries_zero (advancing_statement _ _) (Nat.le_refl 0)
    | n + 1, bound' + 1 =>
      have hi := ih (Nat.le_of_succ_le_succ hn) (Nat.le_of_succ_le_succ hn')
      have hc := consuming_statement bound .declaration
      cases place with
      | declaration => exact carries_declaration hs hi hc hn hn'
      | body elseMayFollow => exact carries_bodyStatement hs hi hc hn hn' elseMayFollow

/-- The declarations of a token list are read alike where it goes on behind other tokens. -/
theorem carries_slots {s : Situation} (hs : s.Resumes) {n bound bound' k k' : Nat} (hn : n ≤ bound)
    (hn' : n ≤ bound') (hk : n ≤ k) (hk' : n ≤ k') :
    s.Carries n (List.map (Option.map (Stmt.renumber s.rename))) (slots bound k)
      (slots bound' k') := by
  induction k generalizing n k' with
  | zero => exact carries_zero (advancing_slots _ _) hk
  | succ k ih =>
    cases k' with
    | zero => exact carries_zero (advancing_slots _ _) hk'
    | succ k' =>
      refine ⟨advancing_slots _ _, fun c hh hlt => follows_turn hs hh ?_⟩
      have hh := hs.skipEols hh
      have hle := c.advances_skipEols.length_le
      simp only [atEnd_place hs]
      refine follows_ite (fun _ => follows_pure hh rfl) fun h => ?_
      have hne : c.skipEols.rest ≠ [] := by
        intro hnil
        simp [Cursor.atEnd, hnil] at h
      have hrest : s.Carries c.skipEols.rest.length
          (List.map (Option.map (Stmt.renumber s.rename))) (slots bound k) (slots bound' k') :=
        ih (by omega) (by omega) (by omega) (by omega)
      exact follows_attempt hs (carries_statement hs hn hn' .declaration)
        (consuming_statement _ _) hh hne (by omega) hrest fun _ _ => rfl

end Situation

/-- Behind the end of a line the declarations of a token list are read as they are alone, but for
their ids, and their errors come after those before. -/
theorem Parser.slots_afterLine (tokens : List Token) (errors : List ParseError) (fromId toId : Nat)
    {bound k : Nat} (hb : (Cursor.start fromId tokens).rest.length < bound)
    (hk : (Cursor.start fromId tokens).rest.length < k) :
    ∃ c, slots bound k
        ⟨some .eol, (Cursor.start fromId tokens).rest, (Cursor.start fromId tokens).endLine, errors,
          toId⟩ =
        .ok ((parse fromId tokens).slots.map
          (Option.map (Stmt.renumber fun id => id - fromId + toId))) c ∧
      c.errors = (parse fromId tokens).errors.reverse ++ errors := by
  generalize hc : Cursor.start fromId tokens = c at hb hk
  have hlt := Nat.lt_succ_self c.rest.length
  obtain ⟨found, d, hs, -⟩ := slots_ends hlt hlt
  have hp : parse fromId tokens = ⟨found, d.errors.reverse, d.nextId⟩ := by
    simp only [parse, hc, hs]
  let s := Situation.afterLine c.rest c.endLine errors fromId toId
  have hamidst : s.Holds c := by
    subst hc
    exact ⟨List.suffix_refl _, fun _ => rfl, rfl, Nat.le_refl _⟩
  have hcarries : s.Carries (c.rest.length + 1) _ (slots (c.rest.length + 1) (c.rest.length + 1))
      (slots bound k) :=
    Situation.carries_slots (Situation.resumes_afterLine ..) (Nat.le_refl _) hb (Nat.le_refl _) hk
  have hrun := ((hcarries.follows c hamidst hlt).of_ok hs).1
  have hplace : s.place c = ⟨some .eol, c.rest, c.endLine, errors, toId⟩ := by
    subst hc
    simp [s, Situation.place, Situation.afterLine, Situation.rename, Cursor.start]
  rw [hplace] at hrun
  refine ⟨s.place d, ?_, ?_⟩
  · rw [hrun, hp]
    rfl
  · rw [hp, List.reverse_reverse]
    rfl

end Jal
