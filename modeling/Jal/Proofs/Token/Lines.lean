import Mathlib.Data.List.Chain
import Mathlib.Data.List.Induction
import Jal.Proofs.Token.Segmentation

namespace Jal

/-- The line of the character at an offset of the text, or of its end. -/
def lineAt (source : String) (offset : Nat) : Nat :=
  1 + (source.toList.take offset).count '\n'

def Piece.unquoted : Piece → List Char
  | .token ⟨.text _, _, _⟩ => []
  | .openText _ _ => []
  | p => p.chars

/-- The scan of a text is read off the pieces: they cover the text, each fits where it stands, and
the tokens are theirs in order with an `eof` after the last. -/
structure Pieced (source : String) (pieces : List Piece) (eof : Token) : Prop where
  text : Piece.text pieces = source.toList
  ending : eof.kind = .eof ∧ eof.lexeme = ""
  tokens : (scan source).tokens = (pieces ++ [Piece.token eof]).filterMap Piece.token?
  errors : (scan source).errors = pieces.filterMap Piece.error?
  fits : ∀ before p after, pieces = before ++ p :: after → p.Fits before after

theorem exists_pieced (source : String) : ∃ pieces eof, Pieced source pieces eof := by
  refine ⟨_, ⟨.eof, "", 1 + source.toList.count '\n'⟩, text_piecesAfter none 1 source.toList,
    ⟨rfl, rfl⟩, ?_, ?_, ?_⟩
  · rw [scan_eq, List.filterMap_append, tokens_piecesAfter]
    rfl
  · rw [scan_eq, errors_piecesAfter]
  · exact fun before p after h => fits_piecesAfter source.toList [] before after p h

theorem mayEndLine_some_iff {kind : TokenKind} :
    mayEndLine (some kind) = true ↔ kind ≠ .eol ∧ kind ≠ .symbol .leftBrace := by
  cases kind <;> simp [mayEndLine, TokenKind.isEol, TokenKind.isSymbol]

namespace Piece

variable {before after between ps : List Piece} {t : Token}

/-- The last token before a place, if there is none between it and the place. -/
theorem lastKind_of_quiet (hq : ∀ p ∈ between, p.token? = none) :
    lastKind (before ++ .token t :: between) = some t.kind := by
  have hnone : between.filterMap token? = [] := List.filterMap_eq_nil_iff.2 hq
  have htoken : (Piece.token t).token? = some t := rfl
  rw [lastKind, List.filterMap_append, List.filterMap_cons_some htoken, hnone, List.map_append,
    List.map_singleton, List.getLast?_concat]

theorem tokens_concat_of_quiet {p : Piece} (hq : p.token? = none) :
    (ps ++ [p]).filterMap token? = ps.filterMap token? := by
  rw [List.filterMap_append, List.filterMap_cons_none hq, List.filterMap_nil, List.append_nil]

theorem lineAfter_le_append (ps qs : List Piece) : lineAfter ps ≤ lineAfter (ps ++ qs) := by
  rw [lineAfter, lineAfter, text, text, List.flatMap_append, List.count_append]
  omega

/-- Tokens that stand on the lines of their first characters are in the order of their lines. -/
theorem pairwise_line
    (h : ∀ before t after, ps = before ++ .token t :: after → t.line = lineAfter before) :
    (ps.filterMap token?).Pairwise fun t t' => t.line ≤ t'.line := by
  induction ps using List.reverseRecOn with
  | nil => exact .nil
  | append_singleton ps p ih =>
    have hps := ih fun before t after hs => h before t (after ++ [p]) (by simp [hs])
    cases p with
    | token t' =>
      rw [List.filterMap_append, List.pairwise_append]
      refine ⟨hps, List.pairwise_singleton _ _, fun t ht _ ht' => ?_⟩
      rw [List.mem_singleton.1 ht']
      obtain ⟨q, hq, hqt⟩ := List.mem_filterMap.1 ht
      obtain ⟨before, after, rfl⟩ := List.append_of_mem hq
      cases q <;> cases hqt
      rw [h before t (after ++ [.token t']) (by simp), h _ t' [] rfl]
      exact lineAfter_le_append _ _
    | _ => rwa [tokens_concat_of_quiet rfl]

/-- Where an end of line is kept, the token before it neither is one nor opens a block. -/
theorem isChain_eol (h : ∀ before t after, ps = before ++ .token t :: after → t.kind = .eol →
      mayEndLine (lastKind before) = true) :
    (ps.filterMap token?).IsChain fun t t' =>
      t'.kind = .eol → t.kind ≠ .eol ∧ t.kind ≠ .symbol .leftBrace := by
  induction ps using List.reverseRecOn with
  | nil => exact .nil
  | append_singleton ps p ih =>
    have hps := ih fun before t after hs => h before t (after ++ [p]) (by simp [hs])
    cases p with
    | token t' =>
      rw [List.filterMap_append, List.isChain_append]
      refine ⟨hps, .singleton _, fun t ht _ ht' heol => ?_⟩
      cases ht'
      have hmay := h ps t' [] rfl heol
      -- the last token of all so far is the one before
      rw [lastKind, List.getLast?_map, ht, Option.map_some] at hmay
      exact mayEndLine_some_iff.1 hmay
    | _ => rwa [tokens_concat_of_quiet rfl]

/-- A newline outside of string literals is the end of a line, kept or not. -/
theorem Fits.newline_cases {p : Piece} (h : p.Fits before after)
    (hn : '\n' ∈ p.unquoted) (hk : ∀ t, p.token? = some t → t.kind = .eol) :
    (∃ t, p = .token t ∧ t.kind = .eol) ∨ p = .newline := by
  cases h with
  | token hl hlong hend => exact .inl ⟨_, rfl, hk _ rfl⟩
  | blank hc =>
    obtain rfl := List.mem_singleton.1 hn
    exact absurd hc (by decide)
  | newline hend => exact .inr rfl
  | stray hnone hc =>
    obtain rfl := List.mem_singleton.1 hn
    exact absurd ⟨_, rfl⟩ (hnone .eol ['\n'] .eol)
  | openText => cases hn

end Piece

namespace Pieced

variable {source : String} {pieces before between after : List Piece} {eof t t' : Token}

theorem offset (h : Pieced source pieces eof) (hs : pieces = before ++ after) :
    lineAt source (Piece.text before).length = Piece.lineAfter before := by
  have htext := h.text
  rw [hs, Piece.text, List.flatMap_append, ← Piece.text] at htext
  rw [lineAt, ← htext, List.take_left, Piece.lineAfter]

/-- A piece stands in the text, unless it is the `eof` at the end. -/
theorem split {p : Piece} (h : pieces ++ [.token eof] = before ++ p :: after) :
    (∃ rest, pieces = before ++ p :: rest ∧ after = rest ++ [.token eof]) ∨
      pieces = before ∧ p = .token eof ∧ after = [] := by
  rcases List.eq_nil_or_concat' after with rfl | ⟨rest, q, rfl⟩
  · obtain ⟨rfl, hp⟩ := List.append_inj' h rfl
    cases hp
    exact .inr ⟨rfl, rfl, rfl⟩
  · rw [← List.cons_append, ← List.append_assoc] at h
    obtain ⟨rfl, hp⟩ := List.append_inj' h rfl
    cases hp
    exact .inl ⟨rest, rfl, rfl⟩

/-- What stands before a token stands in the text. -/
theorem fits_before (h : Pieced source pieces eof) {p : Piece}
    (hs : pieces ++ [.token eof] = before ++ p :: (between ++ .token t :: after)) :
    ∃ rest, p.Fits before rest := by
  rcases split hs with ⟨rest, hp, -⟩ | ⟨-, -, hnil⟩
  · exact ⟨rest, h.fits _ _ _ hp⟩
  · simp at hnil

/-- The `eof` stands behind the last newline. -/
theorem eof_line (h : Pieced source pieces eof) : eof.line = Piece.lineAfter pieces := by
  have htokens := h.tokens
  rw [scan_eq, List.filterMap_append] at htokens
  obtain ⟨-, heof⟩ := List.append_inj' htokens rfl
  rw [Piece.lineAfter, h.text]
  exact congrArg Token.line (List.singleton_inj.1 heof).symm

theorem line_eq (h : Pieced source pieces eof)
    (hs : pieces ++ [.token eof] = before ++ .token t :: after) :
    t.line = Piece.lineAfter before := by
  rcases split hs with ⟨rest, hp, -⟩ | ⟨rfl, ht, -⟩
  · cases h.fits _ _ _ hp
    rfl
  · cases ht
    exact h.eof_line

theorem endsLine (h : Pieced source pieces eof)
    (hs : pieces ++ [.token eof] = before ++ .token t :: after) (hk : t.kind = .eol) :
    mayEndLine (Piece.lastKind before) = true := by
  rcases split hs with ⟨rest, hp, -⟩ | ⟨-, ht, -⟩
  · cases h.fits _ _ _ hp with
    | token hl hlong hend => exact hend hk
  · cases ht
    rw [h.ending.1] at hk
    cases hk

/-- Every lexical error is that of a piece, whose first character is the offending one. -/
theorem error_line (h : Pieced source pieces eof) {p : Piece} {e : LexError}
    (hs : pieces = before ++ p :: after) (he : p.error? = some e) :
    e.line = Piece.lineAfter before := by
  cases h.fits _ _ _ hs with
  | stray hn hc =>
    cases he
    rfl
  | openText hn hlast =>
    cases he
    rfl
  | _ => cases he

theorem head_ne_eol (h : Pieced source pieces eof) (ht : t ∈ (scan source).tokens.head?) :
    t.kind ≠ .eol := by
  intro hk
  rw [h.tokens] at ht
  obtain ⟨rest, hrest⟩ := List.head?_eq_some_iff.1 ht
  obtain ⟨quiet, p, others, hs, hquiet, hp, -⟩ := List.filterMap_eq_cons_iff.1 hrest
  cases p <;> cases hp
  have hmay := h.endsLine hs hk
  have hnone : quiet.filterMap Piece.token? = [] := List.filterMap_eq_nil_iff.2 hquiet
  rw [Piece.lastKind, hnone] at hmay
  cases hmay

section Between

variable (h : Pieced source pieces eof)
  (hs : pieces ++ [.token eof] = before ++ .token t :: (between ++ .token t' :: after))

include h hs

/-- The first end of line after a token was kept because of that token. -/
theorem newline_of_eol (hq : ∀ s ∈ between.filterMap Piece.token?, s.kind = .eol)
    (hne : between.filterMap Piece.token? ≠ []) :
    t.kind ≠ .symbol .leftBrace ∧ '\n' ∈ between.flatMap Piece.unquoted := by
  obtain ⟨s, rest, hfirst⟩ := List.exists_cons_of_ne_nil hne
  obtain ⟨quiet, p, others, rfl, hquiet, hp, -⟩ := List.filterMap_eq_cons_iff.1 hfirst
  cases p <;> cases hp
  have hk : s.kind = .eol := hq s (hfirst ▸ List.mem_cons_self)
  rw [List.append_assoc, ← List.cons_append, ← List.append_assoc] at hs
  have hmay := h.endsLine hs hk
  rw [Piece.lastKind_of_quiet hquiet] at hmay
  refine ⟨(mayEndLine_some_iff.1 hmay).2, ?_⟩
  refine List.mem_flatMap.2 ⟨.token s, by simp, ?_⟩
  obtain ⟨rest, hfits⟩ := h.fits_before hs
  cases hfits with
  | token hl =>
    cases hk
    cases hl
    simp [Piece.unquoted, Piece.chars]

/-- After a token that may end a line, the first newline is kept. -/
theorem eol_of_newline (ht : t.kind ≠ .eol) (hb : t.kind ≠ .symbol .leftBrace)
    (hq : ∀ s ∈ between.filterMap Piece.token?, s.kind = .eol)
    (hn : '\n' ∈ between.flatMap Piece.unquoted) :
    ∃ s ∈ between.filterMap Piece.token?, s.kind = .eol := by
  obtain ⟨p, hp, hpn⟩ := List.mem_flatMap.1 hn
  obtain ⟨left, right, rfl⟩ := List.append_of_mem hp
  rw [List.append_assoc, ← List.cons_append, ← List.append_assoc] at hs
  obtain ⟨rest, hfits⟩ := h.fits_before hs
  rcases hfits.newline_cases hpn fun s hs => hq s (List.mem_filterMap.2 ⟨p, hp, hs⟩) with
    ⟨s, rfl, hk⟩ | rfl
  · exact ⟨s, List.mem_filterMap.2 ⟨_, hp, rfl⟩, hk⟩
  -- a newline that was not kept comes after one that was
  by_cases hquiet : left.filterMap Piece.token? = []
  · cases hfits with
    | newline hend =>
      rw [Piece.lastKind_of_quiet (List.filterMap_eq_nil_iff.1 hquiet)] at hend
      exact absurd (mayEndLine_some_iff.2 ⟨ht, hb⟩) (hend ▸ Bool.false_ne_true)
  · obtain ⟨s, hmem⟩ := List.exists_mem_of_ne_nil _ hquiet
    have hmem : s ∈ (left ++ .newline :: right).filterMap Piece.token? := by
      rw [List.filterMap_append]
      exact List.mem_append_left _ hmem
    exact ⟨s, hmem, hq s hmem⟩

end Between

end Pieced

/-- Every token of a scan, the `eof` at the end included, and every lexical error stands on the
line of its first character: one more than there are newlines before it. So tokens are in the
order of their lines. -/
theorem lines_exact (source : String) :
    ∃ pieces eof, Pieced source pieces eof ∧
      (∀ before t after, pieces ++ [.token eof] = before ++ .token t :: after →
        t.line = lineAt source (Piece.text before).length) ∧
      (∀ before p after e, pieces = before ++ p :: after → p.error? = some e →
        e.line = lineAt source (Piece.text before).length) ∧
      (scan source).tokens.Pairwise fun t t' => t.line ≤ t'.line := by
  obtain ⟨pieces, eof, h⟩ := exists_pieced source
  refine ⟨pieces, eof, h, ?_, ?_, ?_⟩
  · intro before t after hs
    rw [h.line_eq hs]
    rcases Pieced.split hs with ⟨rest, hp, -⟩ | ⟨hp, -⟩
    · exact (h.offset hp).symm
    · exact (h.offset (hp.trans (List.append_nil _).symm)).symm
  · intro before p after e hs he
    rw [h.error_line hs he, h.offset hs]
  · rw [h.tokens]
    exact Piece.pairwise_line fun before t after hs => h.line_eq hs

/-- A string over two lines and a stray character after it: the token after them is on line 2, the
end of that line too, and so is the error. -/
example :
    let s := scan "\"a\nb\" @x\ny"
    s.tokens.map Token.line = [1, 2, 2, 3, 3] ∧ s.errors.map LexError.line = [2] := by
  decide +kernel

/-- No scan begins with an end of line, and none has one after another or after an opening brace.
Between two tokens with no other but ends of lines between them, the `eof` being the last, there is
an end of line exactly if the first is no opening brace and a newline stands between them outside
of string literals. -/
theorem ends_of_lines_kept (source : String) :
    (∀ t ∈ (scan source).tokens.head?, t.kind ≠ .eol) ∧
    ((scan source).tokens.IsChain fun t t' =>
      t'.kind = .eol → t.kind ≠ .eol ∧ t.kind ≠ .symbol .leftBrace) ∧
    ∃ pieces eof, Pieced source pieces eof ∧
      ∀ before t between t' after,
        pieces ++ [.token eof] = before ++ .token t :: (between ++ .token t' :: after) →
        t.kind ≠ .eol → t'.kind ≠ .eol → (∀ s ∈ between.filterMap Piece.token?, s.kind = .eol) →
        ((∃ s ∈ between.filterMap Piece.token?, s.kind = .eol) ↔
          t.kind ≠ .symbol .leftBrace ∧ '\n' ∈ between.flatMap Piece.unquoted) := by
  obtain ⟨pieces, eof, h⟩ := exists_pieced source
  refine ⟨fun t ht => h.head_ne_eol ht, ?_, pieces, eof, h, ?_⟩
  · rw [h.tokens]
    exact Piece.isChain_eol fun before t after hs => h.endsLine hs
  · intro before t between t' after hs ht ht' hq
    constructor
    · rintro ⟨s, hmem, -⟩
      exact h.newline_of_eol hs hq (List.ne_nil_of_mem hmem)
    · rintro ⟨hb, hn⟩
      exact h.eol_of_newline hs ht hb hq hn

end Jal
