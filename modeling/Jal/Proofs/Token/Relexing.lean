import Jal.Proofs.Token.Lines

namespace Jal

/-- The text that goes on in this way lets the lexeme before it end. -/
def Detached (rest : List Char) : Prop := ∀ c ∈ rest.head?, c = ' '

theorem detached_nil : Detached [] := fun _ hc => nomatch hc

theorem detached_blank (rest : List Char) : Detached (' ' :: rest) := by
  rintro c hc
  exact (Option.some.inj hc).symm

namespace Detached

variable {rest cs : List Char} {p : Char → Bool}

theorem cases (h : Detached rest) : rest = [] ∨ ∃ after, rest = ' ' :: after := by
  cases rest with
  | nil => exact .inl rfl
  | cons c after =>
    obtain rfl := h c rfl
    exact .inr ⟨after, rfl⟩

/-- A run of characters ends where the text is detached, if a blank is not one of them. -/
theorem takeWhile_append (h : Detached rest) (hp : ¬p ' ' = true) (hcs : ∀ c ∈ cs, p c = true) :
    (cs ++ rest).takeWhile p = cs := by
  rw [List.takeWhile_append_of_pos hcs]
  rcases h.cases with rfl | ⟨after, rfl⟩
  · exact List.append_nil cs
  · rw [List.takeWhile_cons_of_neg hp, List.append_nil]

theorem dropWhile_append (h : Detached rest) (hp : ¬p ' ' = true) (hcs : ∀ c ∈ cs, p c = true) :
    (cs ++ rest).dropWhile p = rest := by
  rw [List.dropWhile_append_of_pos hcs]
  rcases h.cases with rfl | ⟨after, rfl⟩
  · rfl
  · exact List.dropWhile_cons_of_neg hp

theorem splitPoint (h : Detached rest) : splitPoint rest = ([], rest) := by
  rcases h.cases with rfl | ⟨after, rfl⟩ <;> rfl

theorem cutOperator (h : Detached rest) (c : Char) (alone extended : Symbol) :
    cutOperator c alone extended rest = (.token (.symbol alone) [c], rest) := by
  rcases h.cases with rfl | ⟨after, rfl⟩ <;> rfl

end Detached

theorem segments_of_cut {c : Char} {cs rest : List Char} {s : Segment} (h : cut c cs = (s, rest)) :
    segments (c :: cs) = s :: segments rest := by
  rw [segments, h]

theorem Keyword.ofWord?_word (k : Keyword) : ofWord? k.word = some k := by
  cases k <;> rfl

section Cut

variable {rest : List Char}

theorem Symbol.segments_append (s : Symbol) (h : Detached rest) :
    segments (s.spelling ++ rest) = .token (.symbol s) s.spelling :: segments rest := by
  cases s
  case bang => exact segments_of_cut (h.cutOperator '!' .bang .bangEqual)
  case assign => exact segments_of_cut (h.cutOperator '=' .assign .equal)
  case less => exact segments_of_cut (h.cutOperator '<' .less .lessEqual)
  case greater => exact segments_of_cut (h.cutOperator '>' .greater .greaterEqual)
  all_goals exact segments_of_cut rfl

theorem IsWord.segments_append {w : List Char} (hw : IsWord w) (h : Detached rest) :
    segments (w ++ rest) =
      .token ((Keyword.ofWord? (String.ofList w)).elim .ident .keyword) w :: segments rest := by
  cases hw with
  | @intro c cs hc hcs =>
    have hblank : ¬isWordChar ' ' = true := by decide
    rw [List.cons_append]
    apply segments_of_cut
    rw [cut_of_isLetter _ hc, cutWord, h.takeWhile_append hblank hcs, h.dropWhile_append hblank hcs]
    cases Keyword.ofWord? (String.ofList (c :: cs)) <;> rfl

theorem IsDigits.segments_append {ds : List Char} (hd : IsDigits ds) (h : Detached rest) :
    segments (ds ++ rest) = .token (.number (Number.ofLiteral ds [])) ds :: segments rest := by
  cases hd with
  | @intro c cs hc hcs =>
    have hblank : ¬Char.isDigit ' ' = true := by decide
    rw [List.cons_append]
    apply segments_of_cut
    rw [cut_of_isDigit _ hc, cutNumber, h.takeWhile_append hblank hcs,
      h.dropWhile_append hblank hcs, h.splitPoint]
    simp only [List.drop_nil, List.append_nil]

theorem splitPoint_append_of_detached {fs : List Char} (hf : IsDigits fs) (h : Detached rest) :
    splitPoint ('.' :: (fs ++ rest)) = ('.' :: fs, rest) := by
  have hblank : ¬Char.isDigit ' ' = true := by decide
  have hrest : rest.takeWhile Char.isDigit = [] := h.takeWhile_append hblank (List.forall_mem_nil _)
  have hpoint := splitPoint_of_isDigits hf rest
  rw [hrest, List.append_nil] at hpoint
  have happend := splitPoint_append ('.' :: (fs ++ rest))
  rw [hpoint, ← List.cons_append] at happend
  exact Prod.ext hpoint (List.append_cancel_left happend)

theorem IsDigits.segments_append_decimal {ds fs : List Char} (hd : IsDigits ds) (hf : IsDigits fs)
    (h : Detached rest) :
    segments (ds ++ '.' :: fs ++ rest) =
      .token (.number (Number.ofLiteral ds fs)) (ds ++ '.' :: fs) :: segments rest := by
  cases hd with
  | @intro c cs hc hcs =>
    have hdot : ¬Char.isDigit '.' = true := by decide
    rw [List.append_assoc, List.cons_append, List.cons_append]
    apply segments_of_cut
    rw [cut_of_isDigit _ hc, cutNumber, List.takeWhile_append_of_pos hcs,
      List.dropWhile_append_of_pos hcs, List.takeWhile_cons_of_neg hdot,
      List.dropWhile_cons_of_neg hdot, splitPoint_append_of_detached hf h, List.append_nil]
    rfl

/-- A closing quote ends a string literal whatever follows it. -/
theorem IsTextBody.segments_append {body : List Char} (hb : IsTextBody body) (rest : List Char) :
    segments ('"' :: body ++ ['"'] ++ rest) =
      .token (.text (String.ofList (unescape body))) ('"' :: body ++ ['"']) ::
        segments rest := by
  rw [List.append_assoc, List.cons_append, List.singleton_append]
  apply segments_of_cut
  change cutText (body ++ '"' :: rest) = _
  rw [cutText, splitText_of_isTextBody hb rest]

end Cut

/-- The segment that a lexeme of this kind is cut as: an end of line is only a newline until the
token before it is known. -/
def TokenKind.segment (lexeme : List Char) : TokenKind → Segment
  | .eol => .newline
  | kind => .token kind lexeme

/-- Where nothing or a blank follows a lexeme, it is cut as it was before. -/
theorem IsLexeme.segments_append {kind : TokenKind} {lexeme rest : List Char}
    (hl : IsLexeme kind lexeme) (h : Detached rest) :
    segments (lexeme ++ rest) = kind.segment lexeme :: segments rest := by
  cases hl with
  | eol => exact segments_of_cut rfl
  | symbol s => exact s.segments_append h
  | @keyword k w hw hk =>
    rw [hw.segments_append h, ← hk, k.ofWord?_word]
    rfl
  | ident hw hk =>
    have hnone : Keyword.ofWord? (String.ofList lexeme) = none :=
      List.find?_eq_none.2 fun k _ he => hk k (beq_iff_eq.1 he)
    rw [hw.segments_append h, hnone]
    rfl
  | whole hd => exact hd.segments_append h
  | decimal hd hf => exact hd.segments_append_decimal hf h
  | text hb => exact hb.segments_append rest

def Token.unplaced (t : Token) : TokenKind × String := (t.kind, t.lexeme)

/-- The lexemes of the tokens, with one blank between two of them. -/
def respelled (tokens : List Token) : String := " ".intercalate (tokens.map Token.lexeme)

def Token.segment (t : Token) : Segment := t.kind.segment t.lexeme.toList

theorem toList_respelled_cons_cons (t t' : Token) (ts : List Token) :
    (respelled (t :: t' :: ts)).toList =
      t.lexeme.toList ++ ' ' :: (respelled (t' :: ts)).toList := by
  simp [respelled, String.toList_intercalate]

/-- Each lexeme is one segment of the respelled text, and there is a blank between two. -/
theorem segments_respelled {ts : List Token} (h : ∀ t ∈ ts, IsLexeme t.kind t.lexeme.toList) :
    segments (respelled ts).toList = (ts.map Token.segment).intersperse (.blank ' ') := by
  induction ts with
  | nil => simp [respelled, segments]
  | cons t ts ih =>
    have hl := h t List.mem_cons_self
    have ih := ih fun t' ht' => h t' (List.mem_cons_of_mem t ht')
    cases ts with
    | nil =>
      have hone := hl.segments_append detached_nil
      rw [List.append_nil, segments] at hone
      simpa [respelled, String.toList_intercalate, Token.segment] using hone
    | cons t' ts =>
      have hblank (cs : List Char) : segments (' ' :: cs) = .blank ' ' :: segments cs :=
        segments_of_cut rfl
      rw [toList_respelled_cons_cons, hl.segments_append (detached_blank _), hblank, ih]
      rfl

theorem Token.error?_segment (t : Token) (line : Nat) :
    Located.error? ⟨line, t.segment⟩ = none := by
  rw [segment]
  cases t.kind <;> rfl

theorem errors_intersperse (ts : List Token) (line : Nat) :
    (locate line ((ts.map Token.segment).intersperse (.blank ' '))).filterMap Located.error? =
      [] := by
  induction ts generalizing line with
  | nil => rfl
  | cons t ts ih =>
    cases ts with
    | nil => exact List.filterMap_cons_none (t.error?_segment line)
    | cons t' ts =>
      rw [List.map_cons, List.map_cons, List.intersperse_cons_cons, locate,
        List.filterMap_cons_none (t.error?_segment line), locate, ← List.map_cons]
      exact ih _

/-- The segment of a token is read as the same token, if a line may end where the token says so. -/
theorem tokensAfter_segment {last : Option TokenKind} {t : Token} (line : Nat) (ls : List Located)
    (hl : IsLexeme t.kind t.lexeme.toList) (hend : t.kind = .eol → mayEndLine last = true) :
    tokensAfter last (⟨line, t.segment⟩ :: ls) =
      ⟨t.kind, t.lexeme, line⟩ :: tokensAfter (some t.kind) ls := by
  obtain ⟨kind, lexeme, _⟩ := t
  cases kind with
  | eol =>
    have hspelled : lexeme.toList = ['\n'] := by
      generalize hcs : lexeme.toList = cs at hl
      cases hl
      rfl
    have hlexeme : lexeme = "\n" := String.toList_inj.1 hspelled
    rw [Token.segment, TokenKind.segment, tokensAfter, if_pos (hend rfl), hlexeme]
  | _ => simp only [Token.segment, TokenKind.segment, tokensAfter, String.ofList_toList]

/-- What the tokens say is read off their segments, whatever line they begin on. -/
theorem unplaced_intersperse {ts : List Token} {last : Option TokenKind} (line : Nat)
    (hl : ∀ t ∈ ts, IsLexeme t.kind t.lexeme.toList)
    (hfirst : ∀ t ∈ ts.head?, t.kind = .eol → mayEndLine last = true)
    (hnext : ts.IsChain fun t t' => t'.kind = .eol → mayEndLine (some t.kind) = true) :
    (tokensAfter last (locate line ((ts.map Token.segment).intersperse (.blank ' ')))).map
      Token.unplaced = ts.map Token.unplaced := by
  induction ts generalizing last line with
  | nil => rfl
  | cons t ts ih =>
    have hread := fun ls =>
      tokensAfter_segment line ls (hl t List.mem_cons_self) (hfirst t rfl)
    cases ts with
    | nil =>
      rw [List.map_singleton, List.intersperse_singleton, locate, hread]
      rfl
    | cons t' ts =>
      obtain ⟨hpair, hrest⟩ := List.isChain_cons_cons.1 hnext
      have hfirst' : ∀ s ∈ (t' :: ts).head?, s.kind = .eol → mayEndLine (some t.kind) = true :=
        fun s hs => Option.some.inj hs ▸ hpair
      have ih := fun line' => ih line'
        (fun s hs => hl s (List.mem_cons_of_mem t hs)) hfirst' hrest
      rw [List.map_cons, List.map_cons, List.intersperse_cons_cons, locate, hread, locate,
        tokensAfter, ← List.map_cons, List.map_cons, ih]
      · rfl
      -- a blank is no token and ends no line
      · intro line' kind chars h
        cases h
      · intro line' h
        cases h

theorem Pieced.isLexeme {source : String} {pieces : List Piece} {eof t : Token}
    (h : Pieced source pieces eof) (ht : t ∈ pieces.filterMap Piece.token?) :
    IsLexeme t.kind t.lexeme.toList := by
  obtain ⟨p, hp, hpt⟩ := List.mem_filterMap.1 ht
  obtain ⟨before, after, rfl⟩ := List.append_of_mem hp
  cases p <;> cases hpt
  cases h.fits _ _ _ rfl with
  | token hl hlong hend => rwa [String.toList_ofList]

/-- The lexemes of a text's tokens, the `eof` apart, written in a row with one blank between two:
scanned again they give no error and the same tokens with the same lexemes, on other lines
perhaps. The text itself may have had errors. -/
theorem lexemes_rescanned (source : String) :
    (scan (respelled (scan source).tokens.dropLast)).errors = [] ∧
    (scan (respelled (scan source).tokens.dropLast)).tokens.map Token.unplaced =
      (scan source).tokens.map Token.unplaced := by
  obtain ⟨pieces, eof, h⟩ := exists_pieced source
  have htokens := h.tokens
  rw [List.filterMap_append] at htokens
  change _ = pieces.filterMap Piece.token? ++ [eof] at htokens
  set ts := pieces.filterMap Piece.token?
  have hlexeme : ∀ t ∈ ts, IsLexeme t.kind t.lexeme.toList := fun t ht => h.isLexeme ht
  have hfirst : ∀ t ∈ ts.head?, t.kind = .eol → mayEndLine none = true := by
    intro t ht hk
    have hhead : t ∈ (scan source).tokens.head? := by
      rw [htokens, List.head?_append, ht]
      rfl
    exact absurd hk (h.head_ne_eol hhead)
  have hnext : ts.IsChain fun t t' => t'.kind = .eol → mayEndLine (some t.kind) = true := by
    refine (Piece.isChain_eol fun before t after hs => ?_).imp fun t t' hend hk =>
      mayEndLine_some_iff.2 (hend hk)
    cases h.fits _ _ _ hs with
    | token hl hlong hend => exact hend
  rw [htokens, List.dropLast_concat]
  constructor
  · rw [scan_eq, segments_respelled hlexeme]
    exact errors_intersperse ts 1
  · rw [scan_eq, segments_respelled hlexeme, List.map_append, List.map_append,
      unplaced_intersperse 1 hlexeme hfirst hnext]
    simp [Token.unplaced, h.ending]

/-- A stray character, newlines that end nothing and a text over two lines: what is scanned again
is the words with blanks between them. -/
example :
    respelled (scan "do\x7b\n\nx@<=\"a\nb\"\n\n\x7d1.").tokens.dropLast =
      "do \x7b x <= \"a\nb\" \n \x7d 1 ." := by
  decide +kernel

end Jal
