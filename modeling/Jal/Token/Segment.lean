import Jal.Number.Numeral
import Jal.Token

namespace Jal

/-- A stretch of source text. An `openText` lacks its closing quote and so reaches to the end. -/
inductive Segment where
  | token (kind : TokenKind) (lexeme : List Char)
  | blank (c : Char)
  | newline
  | stray (c : Char)
  | openText (body : List Char)
deriving Repr, Inhabited

namespace Segment

def chars : Segment → List Char
  | token _ lexeme => lexeme
  | blank c => [c]
  | newline => ['\n']
  | stray c => [c]
  | openText body => '"' :: body

end Segment

def isSeparator (c : Char) : Bool := c == ' ' || c == '\t' || c == '\r'

def isLetter (c : Char) : Bool := c.isAlpha || c == '_'

def isWordChar (c : Char) : Bool := isLetter c || c.isDigit

/-- The symbols of one character that begin no longer one. -/
def Symbol.single? : Char → Option Symbol
  | '(' => some .leftParen
  | ')' => some .rightParen
  | '\x7b' => some .leftBrace
  | '\x7d' => some .rightBrace
  | '[' => some .leftBracket
  | ']' => some .rightBracket
  | ',' => some .comma
  | '.' => some .dot
  | ';' => some .semicolon
  | '+' => some .plus
  | '-' => some .minus
  | '*' => some .star
  | '/' => some .slash
  | _ => none

/-- The symbols that an equals sign may extend: alone, and extended. -/
def Symbol.extensible? : Char → Option (Symbol × Symbol)
  | '!' => some (.bang, .bangEqual)
  | '=' => some (.assign, .equal)
  | '<' => some (.less, .lessEqual)
  | '>' => some (.greater, .greaterEqual)
  | _ => none

/-- Splits what follows an opening quote at the closing one. A backslash shields the character
after it. -/
def splitText : List Char → Option (List Char × List Char)
  | [] => none
  | '"' :: rest => some ([], rest)
  | '\\' :: c :: rest => (splitText rest).map fun (body, after) => ('\\' :: c :: body, after)
  | c :: rest => (splitText rest).map fun (body, after) => (c :: body, after)

def escaped? : Char → Option Char
  | 'n' => some '\n'
  | 't' => some '\t'
  | '\\' => some '\\'
  | '"' => some '"'
  | 'r' => some '\r'
  | 'b' => some '\x08'
  | 'f' => some '\x0c'
  | '\'' => some '\''
  | _ => none

/-- The value of the text between two quotes. An unknown escape stands for itself. -/
def unescape : List Char → List Char
  | [] => []
  | '\\' :: c :: rest =>
    match escaped? c with
    | some e => e :: unescape rest
    | none => '\\' :: c :: unescape rest
  | c :: rest => c :: unescape rest

def splitPoint : List Char → List Char × List Char
  | '.' :: rest =>
    match rest.takeWhile Char.isDigit with
    | [] => ([], '.' :: rest)
    | digits => ('.' :: digits, rest.dropWhile Char.isDigit)
  | cs => ([], cs)

def cutNumber (c : Char) (cs : List Char) : Segment × List Char :=
  let whole := c :: cs.takeWhile Char.isDigit
  let (point, rest) := splitPoint (cs.dropWhile Char.isDigit)
  (.token (.number (Number.ofLiteral whole (point.drop 1))) (whole ++ point), rest)

def cutWord (c : Char) (cs : List Char) : Segment × List Char :=
  let word := c :: cs.takeWhile isWordChar
  let kind :=
    match Keyword.ofWord? (String.ofList word) with
    | some k => TokenKind.keyword k
    | none => TokenKind.ident
  (.token kind word, cs.dropWhile isWordChar)

def cutText (cs : List Char) : Segment × List Char :=
  match splitText cs with
  | some (body, rest) =>
    (.token (.text (String.ofList (unescape body))) ('"' :: body ++ ['"']), rest)
  | none => (.openText cs, [])

def cutOperator (c : Char) (alone extended : Symbol) : List Char → Segment × List Char
  | '=' :: rest => (.token (.symbol extended) [c, '='], rest)
  | cs => (.token (.symbol alone) [c], cs)

/-- The first segment of the text `c :: cs`, and the text after it. -/
def cut (c : Char) (cs : List Char) : Segment × List Char :=
  match Symbol.single? c, Symbol.extensible? c with
  | some s, _ => (.token (.symbol s) [c], cs)
  | none, some (alone, extended) => cutOperator c alone extended cs
  | none, none =>
    if c = '\n' then (.newline, cs)
    else if isSeparator c then (.blank c, cs)
    else if c = '"' then cutText cs
    else if c.isDigit then cutNumber c cs
    else if isLetter c then cutWord c cs
    else (.stray c, cs)

theorem splitText_append {cs body rest : List Char} (h : splitText cs = some (body, rest)) :
    body ++ '"' :: rest = cs := by
  fun_induction splitText cs generalizing body rest with
  | case1 => simp at h
  | case2 => simp_all
  | case3 c cs ih =>
    obtain ⟨⟨b, r⟩, hb, he⟩ := Option.map_eq_some_iff.1 h
    obtain ⟨rfl, rfl⟩ := Prod.mk.inj he
    simp [ih hb]
  | case4 c cs _ _ ih =>
    obtain ⟨⟨b, r⟩, hb, he⟩ := Option.map_eq_some_iff.1 h
    obtain ⟨rfl, rfl⟩ := Prod.mk.inj he
    simp [ih hb]

theorem splitPoint_append (cs : List Char) : (splitPoint cs).1 ++ (splitPoint cs).2 = cs := by
  unfold splitPoint
  split
  · split
    · rfl
    · simp
  · rfl

theorem cutText_append (cs : List Char) :
    (cutText cs).1.chars ++ (cutText cs).2 = '"' :: cs := by
  unfold cutText
  split
  · next h => simp [Segment.chars, splitText_append h]
  · simp [Segment.chars]

theorem cutNumber_append (c : Char) (cs : List Char) :
    (cutNumber c cs).1.chars ++ (cutNumber c cs).2 = c :: cs := by
  simp [cutNumber, Segment.chars, splitPoint_append]

theorem cutWord_append (c : Char) (cs : List Char) :
    (cutWord c cs).1.chars ++ (cutWord c cs).2 = c :: cs := by
  simp [cutWord, Segment.chars]

theorem cutOperator_append (c : Char) (alone extended : Symbol) (cs : List Char) :
    (cutOperator c alone extended cs).1.chars ++ (cutOperator c alone extended cs).2 =
      c :: cs := by
  unfold cutOperator
  split <;> simp [Segment.chars]

/-- A cut loses nothing. -/
theorem cut_append (c : Char) (cs : List Char) :
    (cut c cs).1.chars ++ (cut c cs).2 = c :: cs := by
  unfold cut
  split
  · rfl
  · exact cutOperator_append ..
  · split
    · next h => subst h; rfl
    split
    · rfl
    split
    · next h => subst h; exact cutText_append cs
    split
    · exact cutNumber_append c cs
    split
    · exact cutWord_append c cs
    · rfl

theorem cut_ne_nil (c : Char) (cs : List Char) : (cut c cs).1.chars ≠ [] := by
  unfold cut cutOperator cutText cutNumber cutWord
  repeat' split
  all_goals simp [Segment.chars]

/-- A cut leaves less than it was given. -/
theorem length_cut_lt (c : Char) (cs : List Char) :
    (cut c cs).2.length < (c :: cs).length := by
  have h := congrArg List.length (cut_append c cs)
  have h' := List.length_pos_iff.2 (cut_ne_nil c cs)
  rw [List.length_append] at h
  omega

end Jal
