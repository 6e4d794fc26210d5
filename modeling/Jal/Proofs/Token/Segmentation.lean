import Jal.Proofs.Token.Segments

namespace Jal

def Symbol.spelling : Symbol → List Char
  | leftParen => ['(']
  | rightParen => [')']
  | leftBrace => ['\x7b']
  | rightBrace => ['\x7d']
  | leftBracket => ['[']
  | rightBracket => [']']
  | comma => [',']
  | dot => ['.']
  | semicolon => [';']
  | plus => ['+']
  | minus => ['-']
  | star => ['*']
  | slash => ['/']
  | bang => ['!']
  | assign => ['=']
  | less => ['<']
  | greater => ['>']
  | bangEqual => ['!', '=']
  | equal => ['=', '=']
  | lessEqual => ['<', '=']
  | greaterEqual => ['>', '=']

inductive IsWord : List Char → Prop where
  | intro {c : Char} {cs : List Char} (hc : isLetter c = true)
      (hcs : ∀ d ∈ cs, isWordChar d = true) : IsWord (c :: cs)

inductive IsDigits : List Char → Prop where
  | intro {c : Char} {cs : List Char} (hc : c.isDigit = true)
      (hcs : ∀ d ∈ cs, d.isDigit = true) : IsDigits (c :: cs)

/-- What may stand between two quotes: every backslash comes with the character after it, and no
other character is a quote. -/
inductive IsTextBody : List Char → Prop where
  | nil : IsTextBody []
  | plain {c : Char} {cs : List Char} (hq : c ≠ '"') (hb : c ≠ '\\') (h : IsTextBody cs) :
      IsTextBody (c :: cs)
  | shielded (c : Char) {cs : List Char} (h : IsTextBody cs) : IsTextBody ('\\' :: c :: cs)

/-- The characters from which a token of this kind may be cut. None belong to an `eof`. -/
inductive IsLexeme : TokenKind → List Char → Prop where
  | eol : IsLexeme .eol ['\n']
  | symbol (s : Symbol) : IsLexeme (.symbol s) s.spelling
  | keyword {k : Keyword} {w : List Char} (hw : IsWord w) (hk : k.word = String.ofList w) :
      IsLexeme (.keyword k) w
  | ident {w : List Char} (hw : IsWord w) (hk : ∀ k : Keyword, k.word ≠ String.ofList w) :
      IsLexeme .ident w
  | whole {ds : List Char} (hd : IsDigits ds) : IsLexeme (.number (Number.ofLiteral ds [])) ds
  | decimal {ds fs : List Char} (hd : IsDigits ds) (hf : IsDigits fs) :
      IsLexeme (.number (Number.ofLiteral ds fs)) (ds ++ '.' :: fs)
  | text {body : List Char} (hb : IsTextBody body) :
      IsLexeme (.text (String.ofList (unescape body))) ('"' :: body ++ ['"'])

def NoLexeme (cs : List Char) : Prop := ∀ kind lexeme, IsLexeme kind lexeme → ¬lexeme <+: cs

/-- No token may be cut from more of the text than `lexeme`. -/
def Longest (lexeme cs : List Char) : Prop :=
  ∀ kind other, IsLexeme kind other → other <+: cs → other.length ≤ lexeme.length

theorem cut_of_isWordChar {c : Char} (cs : List Char) (hc : isWordChar c = true) :
    cut c cs = if c.isDigit then cutNumber c cs else cutWord c cs := by
  have hsingle : Symbol.single? c = none := by
    fun_cases Symbol.single? c <;> first | rfl | exact absurd hc (by decide)
  have hextensible : Symbol.extensible? c = none := by
    fun_cases Symbol.extensible? c <;> first | rfl | exact absurd hc (by decide)
  have hline : c ≠ '\n' := by
    rintro rfl
    exact absurd hc (by decide)
  have hblank : ¬isSeparator c = true := by
    intro hb
    simp only [isSeparator, Bool.or_eq_true, beq_iff_eq] at hb
    rcases hb with (rfl | rfl) | rfl <;> exact absurd hc (by decide)
  have hquote : c ≠ '"' := by
    rintro rfl
    exact absurd hc (by decide)
  rw [cut, hsingle, hextensible]
  simp only [if_neg hline, if_neg hblank, if_neg hquote]
  by_cases hd : c.isDigit = true
  · rw [if_pos hd, if_pos hd]
  · have hl : isLetter c = true := by
      rw [isWordChar, Bool.or_eq_true] at hc
      exact hc.resolve_right hd
    rw [if_neg hd, if_neg hd, if_pos hl]

theorem cut_of_isDigit {c : Char} (cs : List Char) (hc : c.isDigit = true) :
    cut c cs = cutNumber c cs := by
  rw [cut_of_isWordChar cs (by rw [isWordChar, hc, Bool.or_true]), if_pos hc]

theorem not_isDigit_of_isLetter {c : Char} (hc : isLetter c = true) : ¬c.isDigit = true := by
  intro hd
  have hhigh : c.val.toNat ≤ 57 :=
    UInt32.le_iff_toNat_le.1 (of_decide_eq_true (Bool.and_eq_true_iff.1 hd).2)
  rcases Bool.or_eq_true_iff.1 hc with halpha | he
  · rcases Bool.or_eq_true_iff.1 halpha with hupper | hlower
    · have hlow : 65 ≤ c.val.toNat :=
        UInt32.le_iff_toNat_le.1 (of_decide_eq_true hupper).1
      omega
    · have hlow : 97 ≤ c.val.toNat :=
        UInt32.le_iff_toNat_le.1 (of_decide_eq_true (Bool.and_eq_true_iff.1 hlower).1)
      omega
  · obtain rfl := eq_of_beq he
    exact absurd hd (by decide)

theorem cut_of_isLetter {c : Char} (cs : List Char) (hc : isLetter c = true) :
    cut c cs = cutWord c cs := by
  rw [cut_of_isWordChar cs (by rw [isWordChar, hc, Bool.true_or]),
    if_neg (not_isDigit_of_isLetter hc)]

theorem splitText_of_isTextBody {body : List Char} (hb : IsTextBody body) (rest : List Char) :
    splitText (body ++ '"' :: rest) = some (body, rest) := by
  induction hb with
  | nil => rfl
  | @plain c cs hq hb h ih =>
    rw [List.cons_append, splitText, ih]
    · rfl
    · exact hq
    · exact fun _ _ hc _ => hb hc
  | shielded c h ih =>
    rw [List.cons_append, List.cons_append, splitText, ih]
    rfl

theorem isTextBody_of_splitText {cs body rest : List Char}
    (h : splitText cs = some (body, rest)) : IsTextBody body := by
  fun_induction splitText cs generalizing body rest with
  | case1 => cases h
  | case2 rest' =>
    obtain ⟨rfl, rfl⟩ := Prod.mk.inj (Option.some.inj h)
    exact .nil
  | case3 c cs ih =>
    obtain ⟨⟨b, r⟩, hb, he⟩ := Option.map_eq_some_iff.1 h
    obtain ⟨rfl, rfl⟩ := Prod.mk.inj he
    exact .shielded c (ih hb)
  | case4 c cs hq hb' ih =>
    obtain ⟨⟨b, r⟩, hb, he⟩ := Option.map_eq_some_iff.1 h
    obtain ⟨rfl, rfl⟩ := Prod.mk.inj he
    refine .plain hq ?_ (ih hb)
    -- a backslash at the very end shields nothing, and then no quote follows either
    rintro rfl
    cases cs with
    | nil => cases hb
    | cons d cs => exact hb' d cs rfl rfl

def Segment.lexeme? : Segment → Option (List Char)
  | token _ lexeme => some lexeme
  | newline => some ['\n']
  | _ => none

theorem of_mem_takeWhile {p : Char → Bool} {cs : List Char} {c : Char}
    (hc : c ∈ cs.takeWhile p) : p c = true :=
  List.all_eq_true.1 List.all_takeWhile c hc

/-- What stands after the whole digits of a number: nothing, or a point with digits. -/
theorem splitPoint_cases (cs : List Char) :
    (splitPoint cs).1 = [] ∨ ∃ fs, (splitPoint cs).1 = '.' :: fs ∧ IsDigits fs := by
  fun_cases splitPoint cs with
  | case1 => exact .inl rfl
  | case2 rest hne =>
    refine .inr ⟨_, rfl, ?_⟩
    cases hd : rest.takeWhile Char.isDigit with
    | nil => exact absurd hd hne
    | cons d ds =>
      have hall : ∀ e ∈ d :: ds, e.isDigit = true := fun e he => of_mem_takeWhile (hd ▸ he)
      exact .intro (hall d List.mem_cons_self) fun e he => hall e (List.mem_cons_of_mem d he)
  | case3 => exact .inl rfl

theorem splitPoint_of_isDigits {fs : List Char} (hf : IsDigits fs) (rest : List Char) :
    (splitPoint ('.' :: (fs ++ rest))).1 = '.' :: (fs ++ rest.takeWhile Char.isDigit) := by
  cases hf with
  | @intro d ds hd hds =>
    rw [List.cons_append, splitPoint, List.takeWhile_cons_of_pos hd,
      List.takeWhile_append_of_pos hds]
    rfl

theorem Keyword.mem_all (k : Keyword) : k ∈ all := by cases k <;> decide

def Segment.Sound (rest : List Char) : Segment → Prop
  | token kind lexeme => IsLexeme kind lexeme
  | blank c => c = ' ' ∨ c = '\t' ∨ c = '\r'
  | newline => True
  | stray c => c ≠ ' ' ∧ c ≠ '\t' ∧ c ≠ '\r' ∧ c ≠ '"'
  | openText _ => rest = []

theorem cutWord_sound {c : Char} {cs : List Char} (hc : isLetter c = true) :
    (cutWord c cs).1.Sound (cutWord c cs).2 := by
  have hw : IsWord (c :: cs.takeWhile isWordChar) := .intro hc fun _ => of_mem_takeWhile
  simp only [cutWord, Segment.Sound]
  split
  · next k hk =>
    have hword := List.find?_some (p := fun k : Keyword => k.word == String.ofList _) hk
    exact .keyword hw (beq_iff_eq.1 hword)
  · next hk =>
    refine .ident hw fun k he => ?_
    exact List.find?_eq_none.1 hk k k.mem_all (beq_iff_eq.2 he)

theorem cutNumber_sound {c : Char} {cs : List Char} (hc : c.isDigit = true) :
    (cutNumber c cs).1.Sound (cutNumber c cs).2 := by
  have hd : IsDigits (c :: cs.takeWhile Char.isDigit) := .intro hc fun _ => of_mem_takeWhile
  simp only [cutNumber, Segment.Sound]
  rcases splitPoint_cases (cs.dropWhile Char.isDigit) with hp | ⟨fs, hp, hf⟩
  · rw [hp, List.append_nil]
    exact .whole hd
  · rw [hp]
    exact .decimal hd hf

theorem cutText_sound (cs : List Char) : (cutText cs).1.Sound (cutText cs).2 := by
  fun_cases cutText cs with
  | case1 body rest hs => exact .text (isTextBody_of_splitText hs)
  | case2 => rfl

theorem spelling_of_single? {c : Char} {s : Symbol} (h : Symbol.single? c = some s) :
    s.spelling = [c] := by
  revert h
  fun_cases Symbol.single? c <;> rintro ⟨⟩ <;> rfl

theorem spelling_of_extensible? {c : Char} {alone extended : Symbol}
    (h : Symbol.extensible? c = some (alone, extended)) :
    alone.spelling = [c] ∧ extended.spelling = [c, '='] := by
  revert h
  fun_cases Symbol.extensible? c <;> rintro ⟨⟩ <;> exact ⟨rfl, rfl⟩

theorem cutOperator_sound {c : Char} {alone extended : Symbol} {cs : List Char}
    (ha : alone.spelling = [c]) (he : extended.spelling = [c, '=']) :
    (cutOperator c alone extended cs).1.Sound (cutOperator c alone extended cs).2 := by
  fun_cases cutOperator c alone extended cs with
  | case1 => exact he ▸ .symbol extended
  | case2 => exact ha ▸ .symbol alone

theorem cut_sound (c : Char) (cs : List Char) : (cut c cs).1.Sound (cut c cs).2 := by
  have hsep : isSeparator c = true ↔ c = ' ' ∨ c = '\t' ∨ c = '\r' := by
    simp only [isSeparator, Bool.or_eq_true, beq_iff_eq, or_assoc]
  fun_cases cut c cs with
  | case1 s hs => exact spelling_of_single? hs ▸ .symbol s
  | case2 alone extended he =>
    obtain ⟨ha, he⟩ := spelling_of_extensible? he
    exact cutOperator_sound ha he
  | case3 => trivial
  | case4 _ _ _ hb => exact hsep.1 hb
  | case5 => exact cutText_sound cs
  | case6 _ _ _ _ _ hd => exact cutNumber_sound hd
  | case7 _ _ _ _ _ _ hl => exact cutWord_sound hl
  | case8 _ _ _ hb hq =>
    rw [hsep, not_or, not_or] at hb
    exact ⟨hb.1, hb.2.1, hb.2.2, hq⟩

theorem IsWord.le_cut {w cs : List Char} {c : Char} (hw : IsWord w) (hp : w <+: c :: cs) :
    ∃ longer, (cut c cs).1.lexeme? = some longer ∧ w.length ≤ longer.length := by
  obtain ⟨rest, hr⟩ := hp
  cases hw with
  | @intro d ds hd hds =>
    rw [List.cons_append] at hr
    obtain ⟨rfl, rfl⟩ := List.cons.inj hr
    rw [cut_of_isLetter _ hd]
    refine ⟨_, rfl, ?_⟩
    rw [List.takeWhile_append_of_pos hds, List.length_cons, List.length_cons, List.length_append]
    omega

theorem lexeme?_cutNumber (c : Char) (cs : List Char) :
    (cutNumber c cs).1.lexeme? =
      some (c :: cs.takeWhile Char.isDigit ++ (splitPoint (cs.dropWhile Char.isDigit)).1) := rfl

theorem IsDigits.le_cut {ds cs : List Char} {c : Char} (hd : IsDigits ds) (hp : ds <+: c :: cs) :
    ∃ longer, (cut c cs).1.lexeme? = some longer ∧ ds.length ≤ longer.length := by
  obtain ⟨rest, hr⟩ := hp
  cases hd with
  | @intro d ds hd hds =>
    rw [List.cons_append] at hr
    obtain ⟨rfl, rfl⟩ := List.cons.inj hr
    rw [cut_of_isDigit _ hd]
    refine ⟨_, lexeme?_cutNumber .., ?_⟩
    rw [List.takeWhile_append_of_pos hds]
    simp only [List.length_cons, List.length_append]
    omega

theorem IsDigits.le_cut_decimal {ds fs cs : List Char} {c : Char} (hd : IsDigits ds)
    (hf : IsDigits fs) (hp : ds ++ '.' :: fs <+: c :: cs) :
    ∃ longer, (cut c cs).1.lexeme? = some longer ∧ (ds ++ '.' :: fs).length ≤ longer.length := by
  obtain ⟨rest, hr⟩ := hp
  cases hd with
  | @intro d ds hd hds =>
    rw [List.cons_append, List.cons_append, List.append_assoc, List.cons_append] at hr
    obtain ⟨rfl, rfl⟩ := List.cons.inj hr
    rw [cut_of_isDigit _ hd]
    have hdot : ¬Char.isDigit '.' = true := by decide
    refine ⟨_, lexeme?_cutNumber .., ?_⟩
    rw [List.takeWhile_append_of_pos hds, List.dropWhile_append_of_pos hds,
      List.dropWhile_cons_of_neg hdot, List.takeWhile_cons_of_neg hdot,
      splitPoint_of_isDigits hf]
    simp only [List.length_cons, List.length_append, List.length_nil]
    omega

theorem IsTextBody.le_cut {body cs : List Char} {c : Char} (hb : IsTextBody body)
    (hp : '"' :: body ++ ['"'] <+: c :: cs) :
    ∃ longer, (cut c cs).1.lexeme? = some longer ∧
      ('"' :: body ++ ['"']).length ≤ longer.length := by
  obtain ⟨rest, hr⟩ := hp
  rw [List.append_assoc, List.cons_append] at hr
  obtain ⟨rfl, rfl⟩ := List.cons.inj hr
  refine ⟨'"' :: body ++ ['"'], ?_, Nat.le_refl _⟩
  have hs := splitText_of_isTextBody hb rest
  have hc : cut '"' (body ++ '"' :: rest) = cutText (body ++ '"' :: rest) := rfl
  change (cut '"' (body ++ '"' :: rest)).1.lexeme? = _
  rw [hc, cutText, hs]
  rfl

theorem one_le_cutOperator (c : Char) (alone extended : Symbol) (cs : List Char) :
    ∃ longer, (cutOperator c alone extended cs).1.lexeme? = some longer ∧ 1 ≤ longer.length := by
  fun_cases cutOperator c alone extended cs with
  | case1 rest => exact ⟨[c, '='], rfl, Nat.le_succ 1⟩
  | case2 => exact ⟨[c], rfl, Nat.le_refl 1⟩

theorem Symbol.le_cut {s : Symbol} {cs : List Char} {c : Char} (hp : s.spelling <+: c :: cs) :
    ∃ longer, (cut c cs).1.lexeme? = some longer ∧ s.spelling.length ≤ longer.length := by
  obtain ⟨rest, hr⟩ := hp
  cases s <;> obtain ⟨rfl, rfl⟩ := List.cons.inj hr
  case bang => exact one_le_cutOperator ..
  case assign => exact one_le_cutOperator ..
  case less => exact one_le_cutOperator ..
  case greater => exact one_le_cutOperator ..
  all_goals exact ⟨_, rfl, Nat.le_refl _⟩

/-- Where a lexeme stands, the cut takes one at least as long. -/
theorem IsLexeme.le_cut {kind : TokenKind} {lexeme cs : List Char} {c : Char}
    (hl : IsLexeme kind lexeme) (hp : lexeme <+: c :: cs) :
    ∃ longer, (cut c cs).1.lexeme? = some longer ∧ lexeme.length ≤ longer.length := by
  cases hl with
  | eol =>
    obtain ⟨rfl, -⟩ := List.cons_prefix_cons.1 hp
    exact ⟨['\n'], rfl, Nat.le_refl _⟩
  | symbol s => exact s.le_cut hp
  | keyword hw => exact hw.le_cut hp
  | ident hw => exact hw.le_cut hp
  | whole hd => exact hd.le_cut hp
  | decimal hd hf => exact hd.le_cut_decimal hf hp
  | text hb => exact hb.le_cut hp

theorem longest_cut {c : Char} {cs lexeme : List Char} (h : (cut c cs).1.lexeme? = some lexeme) :
    Longest lexeme (c :: cs) := by
  intro kind other hl hp
  obtain ⟨longer, hc, hle⟩ := hl.le_cut hp
  rw [h, Option.some.injEq] at hc
  rwa [hc]

theorem noLexeme_cut {c : Char} {cs : List Char} (h : (cut c cs).1.lexeme? = none) :
    NoLexeme (c :: cs) := by
  intro kind lexeme hl hp
  obtain ⟨longer, hc, -⟩ := hl.le_cut hp
  rw [h] at hc
  cases hc

inductive Piece where
  | token (t : Token)
  | blank (c : Char)
  | newline
  | stray (line : Nat) (c : Char)
  | openText (line : Nat) (body : List Char)

namespace Piece

def chars : Piece → List Char
  | token t => t.lexeme.toList
  | blank c => [c]
  | newline => ['\n']
  | stray _ c => [c]
  | openText _ body => '"' :: body

def token? : Piece → Option Token
  | token t => some t
  | _ => none

def error? : Piece → Option LexError
  | stray line c => some (.unexpectedCharacter line c)
  | openText line _ => some (.unterminatedString line)
  | _ => none

def text (ps : List Piece) : List Char := ps.flatMap chars

def lineAfter (ps : List Piece) : Nat := 1 + (text ps).count '\n'

def lastKind (ps : List Piece) : Option TokenKind := ((ps.filterMap token?).map (·.kind)).getLast?

inductive Fits (before after : List Piece) : Piece → Prop where
  | token {kind : TokenKind} {lexeme : List Char} (hl : IsLexeme kind lexeme)
      (hlong : Longest lexeme (lexeme ++ text after))
      (hend : kind = .eol → mayEndLine (lastKind before) = true) :
      Fits before after (.token ⟨kind, String.ofList lexeme, lineAfter before⟩)
  | blank {c : Char} (hc : c = ' ' ∨ c = '\t' ∨ c = '\r') : Fits before after (.blank c)
  | newline (hend : mayEndLine (lastKind before) = false) : Fits before after .newline
  | stray {c : Char} (hn : NoLexeme (c :: text after))
      (hc : c ≠ ' ' ∧ c ≠ '\t' ∧ c ≠ '\r' ∧ c ≠ '"') :
      Fits before after (.stray (lineAfter before) c)
  | openText {body : List Char} (hn : NoLexeme ('"' :: body)) (hlast : after = []) :
      Fits before after (.openText (lineAfter before) body)

end Piece

/-- The kind of the last token once the piece is read, where `last` is the one before it. -/
def Piece.kindAfter (last : Option TokenKind) : Piece → Option TokenKind
  | token t => some t.kind
  | _ => last

def Located.piece (last : Option TokenKind) : Located → Piece
  | ⟨line, .token kind lexeme⟩ => .token ⟨kind, String.ofList lexeme, line⟩
  | ⟨line, .newline⟩ => if mayEndLine last then .token ⟨.eol, "\n", line⟩ else .newline
  | ⟨_, .blank c⟩ => .blank c
  | ⟨line, .stray c⟩ => .stray line c
  | ⟨line, .openText body⟩ => .openText line body

def piecesAfter (last : Option TokenKind) : List Located → List Piece
  | [] => []
  | l :: rest => l.piece last :: piecesAfter ((l.piece last).kindAfter last) rest

theorem Located.chars_piece (last : Option TokenKind) (l : Located) :
    (l.piece last).chars = l.segment.chars := by
  fun_cases Located.piece last l with
  | case1 line kind lexeme => exact String.toList_ofList
  | case2 => exact String.toList_ofList
  | case3 => rfl
  | case4 => rfl
  | case5 => rfl
  | case6 => rfl

theorem Located.error?_piece (last : Option TokenKind) (l : Located) :
    (l.piece last).error? = l.error? := by
  fun_cases Located.piece last l <;> rfl

theorem tokensAfter_cons (last : Option TokenKind) (l : Located) (rest : List Located) :
    tokensAfter last (l :: rest) =
      (l.piece last).token?.toList ++ tokensAfter ((l.piece last).kindAfter last) rest := by
  fun_cases Located.piece last l with
  | case1 line kind lexeme => rfl
  | case2 line hend =>
    rw [tokensAfter, if_pos hend]
    rfl
  | case3 line hend =>
    rw [tokensAfter, if_neg hend]
    rfl
  | case4 => rfl
  | case5 => rfl
  | case6 => rfl

theorem tokens_piecesAfter (last : Option TokenKind) (ls : List Located) :
    (piecesAfter last ls).filterMap Piece.token? = tokensAfter last ls := by
  induction ls generalizing last with
  | nil => rfl
  | cons l rest ih =>
    rw [piecesAfter, tokensAfter_cons, ← ih, List.filterMap_cons]
    cases (l.piece last).token? <;> rfl

theorem errors_piecesAfter (last : Option TokenKind) (ls : List Located) :
    (piecesAfter last ls).filterMap Piece.error? = ls.filterMap Located.error? := by
  induction ls generalizing last with
  | nil => rfl
  | cons l rest ih =>
    rw [piecesAfter, List.filterMap_cons, List.filterMap_cons, Located.error?_piece, ih]

/-- The pieces of a text cover it. -/
theorem text_piecesAfter (last : Option TokenKind) (line : Nat) (cs : List Char) :
    Piece.text (piecesAfter last (locate line (segments cs))) = cs := by
  fun_induction segments cs generalizing last line with
  | case1 => rfl
  | case2 c cs ih =>
    rw [locate, piecesAfter, Piece.text, List.flatMap_cons, Located.chars_piece]
    rw [← Piece.text, ih, cut_append]

namespace Piece

theorem text_append_singleton (ps : List Piece) (p : Piece) :
    text (ps ++ [p]) = text ps ++ p.chars := by
  rw [text, List.flatMap_append, List.flatMap_singleton, ← text]

theorem lineAfter_append_singleton (ps : List Piece) (p : Piece) :
    lineAfter (ps ++ [p]) = lineAfter ps + p.chars.count '\n' := by
  rw [lineAfter, text_append_singleton, List.count_append, lineAfter, Nat.add_assoc]

theorem lastKind_append_singleton (ps : List Piece) (p : Piece) :
    lastKind (ps ++ [p]) = p.kindAfter (lastKind ps) := by
  cases p <;> simp [lastKind, kindAfter, token?]

end Piece

/-- A newline never comes as a token of its own. -/
theorem cut_ne_eol {c : Char} {cs lexeme : List Char} : (cut c cs).1 ≠ .token .eol lexeme := by
  intro hs
  have hl := cut_sound c cs
  have happend := cut_append c cs
  rw [hs] at hl happend
  cases hl
  obtain ⟨rfl, -⟩ := List.cons.inj happend
  cases hs

theorem fits_cut {c : Char} {cs : List Char} {before after : List Piece}
    (hafter : Piece.text after = (cut c cs).2) (hnil : (cut c cs).2 = [] → after = []) :
    (Located.piece (Piece.lastKind before) ⟨Piece.lineAfter before, (cut c cs).1⟩).Fits
      before after := by
  have hsound := cut_sound c cs
  have happend := cut_append c cs
  rw [← hafter] at happend
  cases hs : (cut c cs).1 with
  | token kind lexeme =>
    have hlong := longest_cut (congrArg Segment.lexeme? hs)
    rw [hs] at hsound happend
    refine .token hsound (happend ▸ hlong) fun hk => ?_
    subst hk
    exact absurd hs cut_ne_eol
  | blank d =>
    rw [hs] at hsound
    exact .blank hsound
  | newline =>
    have hlong := longest_cut (congrArg Segment.lexeme? hs)
    rw [hs] at happend
    by_cases hend : mayEndLine (Piece.lastKind before) = true
    · rw [Located.piece, if_pos hend]
      exact .token .eol (happend ▸ hlong) fun _ => hend
    · rw [Located.piece, if_neg hend]
      exact .newline (Bool.eq_false_iff.2 hend)
  | stray d =>
    have hnone := noLexeme_cut (congrArg Segment.lexeme? hs)
    rw [hs] at hsound happend
    rw [← happend] at hnone
    exact .stray hnone hsound
  | openText body =>
    have hnone := noLexeme_cut (congrArg Segment.lexeme? hs)
    rw [hs] at hsound happend
    obtain rfl := hnil hsound
    rw [← happend, Piece.text, List.flatMap_nil, List.append_nil] at hnone
    exact .openText hnone rfl

theorem fits_piecesAfter (cs : List Char) (before mid after : List Piece) (p : Piece)
    (h : piecesAfter (Piece.lastKind before) (locate (Piece.lineAfter before) (segments cs)) =
      mid ++ p :: after) : p.Fits (before ++ mid) after := by
  fun_induction segments cs generalizing before mid with
  | case1 => simp [locate, piecesAfter] at h
  | case2 c cs ih =>
    rw [locate, piecesAfter] at h
    cases mid with
    | nil =>
      obtain ⟨rfl, rfl⟩ := List.cons.inj h
      rw [List.append_nil]
      refine fits_cut (text_piecesAfter _ _ _) fun hnil => ?_
      rw [hnil, segments]
      rfl
    | cons q mid =>
      rw [List.cons_append] at h
      obtain ⟨rfl, htail⟩ := List.cons.inj h
      rw [← List.singleton_append, ← List.append_assoc]
      apply ih
      rw [← htail, Piece.lastKind_append_singleton, Piece.lineAfter_append_singleton,
        Located.chars_piece]
      rfl

/-- A source text is cut into pieces without loss, and the tokens and errors of a scan are those of
the pieces in order. Each piece stands within the text. It is a lexeme that no longer one could
replace, a blank, a newline where no line may end, a character that begins no lexeme, or, at the
very end, a text without a closing quote. -/
theorem scan_segmentation (source : String) :
    ∃ pieces : List Piece,
      Piece.text pieces = source.toList ∧
      (scan source).tokens =
        pieces.filterMap Piece.token? ++ [⟨.eof, "", 1 + source.toList.count '\n'⟩] ∧
      (scan source).errors = pieces.filterMap Piece.error? ∧
      ∀ before p after, pieces = before ++ p :: after →
        p.Fits before after ∧
        (Piece.text before).length + p.chars.length ≤ source.toList.length ∧
        (source.toList.drop (Piece.text before).length).take p.chars.length = p.chars := by
  refine ⟨piecesAfter none (locate 1 (segments source.toList)), text_piecesAfter _ _ _, ?_, ?_,
    fun before p after h => ?_⟩
  · rw [scan_eq, tokens_piecesAfter]
  · rw [scan_eq, errors_piecesAfter]
  · have htext := text_piecesAfter none 1 source.toList
    have hsplit : Piece.text (before ++ p :: after) =
        Piece.text before ++ (p.chars ++ Piece.text after) := by
      rw [Piece.text, List.flatMap_append, List.flatMap_cons, ← Piece.text, ← Piece.text]
    rw [h, hsplit] at htext
    refine ⟨fits_piecesAfter source.toList [] before after p h, ?_, ?_⟩
    · rw [← htext, List.length_append, List.length_append]
      omega
    · rw [← htext, List.drop_left, List.take_left]

end Jal
