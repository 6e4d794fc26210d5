import Jal.Token.Scan

namespace Jal

def segments : List Char → List Segment
  | [] => []
  | c :: cs => (cut c cs).1 :: segments (cut c cs).2
termination_by cs => cs.length
decreasing_by exact length_cut_lt c cs

def Segment.newlines (s : Segment) : Nat := s.chars.count '\n'

structure Located where
  line : Nat
  segment : Segment
deriving Repr, Inhabited

def locate (line : Nat) : List Segment → List Located
  | [] => []
  | s :: rest => ⟨line, s⟩ :: locate (line + s.newlines) rest

/-- The tokens of the segments, where `last` is the kind of the token before them. -/
def tokensAfter (last : Option TokenKind) : List Located → List Token
  | [] => []
  | ⟨line, .token kind lexeme⟩ :: rest =>
    ⟨kind, String.ofList lexeme, line⟩ :: tokensAfter (some kind) rest
  | ⟨line, .newline⟩ :: rest =>
    if mayEndLine last then ⟨.eol, "\n", line⟩ :: tokensAfter (some .eol) rest
    else tokensAfter last rest
  | _ :: rest => tokensAfter last rest

def Located.error? : Located → Option LexError
  | ⟨line, .stray c⟩ => some (.unexpectedCharacter line c)
  | ⟨line, .openText _⟩ => some (.unterminatedString line)
  | _ => none

/-- The loop over a literal counts the newlines in it, shielded or not. -/
theorem readBody_fst (line : Nat) (cs : List Char) :
    (readBody line cs).1 = line + ((splitText cs).elim cs Prod.fst).count '\n' := by
  have hcount (n k : Nat) (c : Char) :
      (if c = '\n' then n + 1 else n) + k = n + (k + if c = '\n' then 1 else 0) := by
    split <;> omega
  fun_induction readBody line cs with
  | case1 => rfl
  | case2 => rfl
  | case3 line c rest _ _ hread ih =>
    rw [hread] at ih
    rw [ih, splitText]
    cases splitText rest <;>
      simp only [Option.map_none, Option.map_some, Option.elim_none, Option.elim_some,
        List.count_cons, beq_iff_eq, hcount] <;> simp
  | case4 line c rest hq hb _ _ hread ih =>
    rw [hread] at ih
    rw [ih, splitText.eq_4 _ _ hq hb]
    cases splitText rest <;>
      simp only [Option.map_none, Option.map_some, Option.elim_none, Option.elim_some,
        List.count_cons, beq_iff_eq, hcount]

theorem notMem_takeWhile {p : Char → Bool} {c : Char} (hp : p c = false) (cs : List Char) :
    c ∉ cs.takeWhile p := by
  intro hc
  have hall := List.all_takeWhile (p := p) (l := cs)
  rw [List.all_eq_true] at hall
  rw [hall c hc] at hp
  cases hp

section Cuts

variable {c : Char} (hn : c ≠ '\n')

include hn

theorem newline_notMem_cutNumber (cs : List Char) : '\n' ∉ (cutNumber c cs).1.chars := by
  have hdigits (ds : List Char) : '\n' ∉ ds.takeWhile Char.isDigit := notMem_takeWhile rfl ds
  have hpoint (ds : List Char) : '\n' ∉ (splitPoint ds).1 := by
    unfold splitPoint
    split
    · next rest =>
      split
      · exact List.not_mem_nil
      · exact fun h => (List.mem_cons.1 h).elim (by decide) (hdigits rest)
    · exact List.not_mem_nil
  simp only [cutNumber, Segment.chars, List.mem_append, List.mem_cons, not_or]
  exact ⟨⟨hn.symm, hdigits cs⟩, hpoint _⟩

theorem newline_notMem_cutWord (cs : List Char) : '\n' ∉ (cutWord c cs).1.chars := by
  simp only [cutWord, Segment.chars, List.mem_cons, not_or]
  exact ⟨hn.symm, notMem_takeWhile rfl cs⟩

theorem newline_notMem_cutOperator (alone extended : Symbol) (cs : List Char) :
    '\n' ∉ (cutOperator c alone extended cs).1.chars := by
  unfold cutOperator
  split <;> simp [Segment.chars, hn.symm]

/-- A line ends only at a newline and in a string literal. -/
theorem newline_notMem_cut (hq : c ≠ '"') (cs : List Char) :
    '\n' ∉ (cut c cs).1.chars ∧ ∀ body, (cut c cs).1 ≠ .openText body := by
  have hone : '\n' ∉ [c] := fun h => hn (List.mem_singleton.1 h).symm
  unfold cut
  split
  · exact ⟨hone, nofun⟩
  · refine ⟨newline_notMem_cutOperator hn _ _ cs, ?_⟩
    unfold cutOperator
    split <;> exact nofun
  · simp only [if_neg hn, if_neg hq]
    split
    · exact ⟨hone, nofun⟩
    split
    · exact ⟨newline_notMem_cutNumber hn cs, nofun⟩
    split
    · exact ⟨newline_notMem_cutWord hn cs, nofun⟩
    · exact ⟨hone, nofun⟩

end Cuts

namespace Lexer

def lastKind (l : Lexer) : Option TokenKind := l.tokens.head?.map Token.kind

def past (l : Lexer) (s : Segment) : Lexer where
  line := l.line + s.newlines
  tokens := (tokensAfter l.lastKind [⟨l.line, s⟩]).reverse ++ l.tokens
  errors := (Located.error? ⟨l.line, s⟩).toList ++ l.errors

theorem readText_fst (l : Lexer) (cs : List Char) :
    (l.readText cs).1 = l.past (cutText cs).1 := by
  have hline := readBody_fst l.line cs
  have hfound := readBody_snd l.line cs
  rw [readText, cutText]
  rcases hr : readBody l.line cs with ⟨line, _ | ⟨body, rest⟩⟩ <;>
    rw [hr] at hline hfound <;> rw [← hfound] at hline ⊢ <;> dsimp only at hline <;> rw [hline]
  · rfl
  · have hcount : (Segment.token (.text (String.ofList (unescape body)))
        ('"' :: body ++ ['"'])).newlines = body.count '\n' := by
      simp [Segment.newlines, Segment.chars, List.count_append]
    simp only [past, hcount]
    rfl

/-- Each of the lexer's steps takes one segment. -/
theorem scanToken_fst (l : Lexer) (c : Char) (cs : List Char) :
    (l.scanToken c cs).1 = l.past (cut c cs).1 := by
  unfold scanToken
  split
  · next h =>
    subst h
    have hcut : cut '\n' cs = (.newline, cs) := rfl
    rw [hcut, readNewline, past, tokensAfter, lastKind]
    split <;> rfl
  split
  · next h =>
    subst h
    exact l.readText_fst cs
  · next hn hq =>
    obtain ⟨hline, hopen⟩ := newline_notMem_cut hn hq cs
    have hcount : (cut c cs).1.newlines = 0 := List.count_eq_zero.2 hline
    rcases hc : cut c cs with ⟨_ | _ | _ | _ | _, rest⟩ <;> rw [hc] at hcount
    case newline => cases hcount
    case openText body => exact absurd (congrArg Prod.fst hc) (hopen body)
    all_goals
      simp only [past, hcount]
      rfl

theorem tokensAfter_cons (l : Lexer) (s : Segment) (rest : List Located) :
    tokensAfter l.lastKind (⟨l.line, s⟩ :: rest) =
      tokensAfter l.lastKind [⟨l.line, s⟩] ++ tokensAfter (l.past s).lastKind rest := by
  cases s with
  | newline =>
    by_cases h : mayEndLine (l.tokens.head?.map Token.kind) = true <;>
      simp [lastKind, past, tokensAfter, h]
  | _ => rfl

/-- A lexer that has gone through a text has taken its segments, and stands behind all newlines. -/
theorem scanAll_eq (l : Lexer) (cs : List Char) :
    l.scanAll cs =
      { line := l.line + cs.count '\n'
        tokens := (tokensAfter l.lastKind (locate l.line (segments cs))).reverse ++ l.tokens
        errors :=
          ((locate l.line (segments cs)).filterMap Located.error?).reverse ++ l.errors } := by
  fun_induction scanAll l cs with
  | case1 l =>
    rw [segments]
    rfl
  | case2 l c cs ih =>
    have hcount : (c :: cs).count '\n' = (cut c cs).1.newlines + (cut c cs).2.count '\n' := by
      rw [← cut_append c cs, List.count_append]
      rfl
    rw [ih, scanToken_fst, scanToken_snd, segments, locate, hcount, tokensAfter_cons]
    simp only [past, Nat.add_assoc, List.reverse_append, List.append_assoc, mk.injEq, true_and,
      List.filterMap_cons]
    cases Located.error? ⟨l.line, (cut c cs).1⟩ <;> simp

end Lexer

theorem scan_eq (source : String) :
    scan source =
      { tokens := tokensAfter none (locate 1 (segments source.toList)) ++
          [⟨.eof, "", 1 + source.toList.count '\n'⟩]
        errors := (locate 1 (segments source.toList)).filterMap Located.error? } := by
  rw [scan, Lexer.scanAll_eq]
  simp [Lexer.start, Lexer.lastKind]

end Jal
