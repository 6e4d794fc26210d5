import Jal.Token.Segment

namespace Jal

inductive LexError where
  | unexpectedCharacter (line : Nat) (c : Char)
  | unterminatedString (line : Nat)
deriving Repr, DecidableEq, Inhabited

namespace LexError

def line : LexError → Nat
  | unexpectedCharacter line _ => line
  | unterminatedString line => line

def message : LexError → String
  | unexpectedCharacter line c => s!"line {line}: unexpected character '" ++ c.toString ++ "'"
  | unterminatedString line => s!"line {line}: string not terminated (missing closing \")"

end LexError

/-- A newline ends a line only where a statement may end: not at the start of the text, not after
another end of line, and not after an opening brace. -/
def mayEndLine : Option TokenKind → Bool
  | none => false
  | some kind => !kind.isEol && !kind.isSymbol .leftBrace

structure Lexer where
  line : Nat
  tokens : List Token
  errors : List LexError
deriving Repr, Inhabited

/-- Reads up to the closing quote and counts the lines that end on the way: at a newline, and at a
newline that a backslash shields. -/
def readBody (line : Nat) : List Char → Nat × Option (List Char × List Char)
  | [] => (line, none)
  | '"' :: rest => (line, some ([], rest))
  | '\\' :: c :: rest =>
    let (line, found) := readBody (if c = '\n' then line + 1 else line) rest
    (line, found.map fun (body, after) => ('\\' :: c :: body, after))
  | c :: rest =>
    let (line, found) := readBody (if c = '\n' then line + 1 else line) rest
    (line, found.map fun (body, after) => (c :: body, after))

theorem readBody_snd (line : Nat) (cs : List Char) : (readBody line cs).2 = splitText cs := by
  fun_induction readBody line cs with
  | case1 => rfl
  | case2 => rfl
  | case3 line c rest _ _ hread ih => rw [splitText, ← ih, hread]
  | case4 line c rest _ _ _ _ hread ih =>
    rw [splitText, ← ih, hread]
    · assumption
    · assumption

namespace Lexer

def start : Lexer := ⟨1, [], []⟩

def push (l : Lexer) (kind : TokenKind) (lexeme : List Char) : Lexer :=
  { l with tokens := ⟨kind, String.ofList lexeme, l.line⟩ :: l.tokens }

def report (l : Lexer) (e : LexError) : Lexer := { l with errors := e :: l.errors }

/-- A newline belongs to the line that it ends. -/
def readNewline (l : Lexer) : Lexer :=
  let l' := if mayEndLine (l.tokens.head?.map Token.kind) then l.push .eol ['\n'] else l
  { l' with line := l'.line + 1 }

/-- A string literal belongs to the line of its opening quote, which was just read. -/
def readText (l : Lexer) (cs : List Char) : Lexer × List Char :=
  match readBody l.line cs with
  | (line, some (body, rest)) =>
    ({ l.push (.text (String.ofList (unescape body))) ('"' :: body ++ ['"']) with line }, rest)
  | (line, none) => ({ l.report (.unterminatedString l.line) with line }, [])

/-- Reads what begins with `c`, and gives the text after it. Lines end only in the first two
cases. -/
def scanToken (l : Lexer) (c : Char) (cs : List Char) : Lexer × List Char :=
  if c = '\n' then (l.readNewline, cs)
  else if c = '"' then l.readText cs
  else
    match cut c cs with
    | (.token kind lexeme, rest) => (l.push kind lexeme, rest)
    | (.stray c, rest) => (l.report (.unexpectedCharacter l.line c), rest)
    | (_, rest) => (l, rest)

theorem scanToken_snd (l : Lexer) (c : Char) (cs : List Char) :
    (l.scanToken c cs).2 = (cut c cs).2 := by
  unfold scanToken
  split
  · next h =>
    subst h
    rfl
  split
  · next h =>
    subst h
    have hcut : cut '"' cs = cutText cs := rfl
    have hbody := readBody_snd l.line cs
    rw [hcut, cutText, readText, ← hbody]
    rcases readBody l.line cs with ⟨line, _ | ⟨body, rest⟩⟩ <;> rfl
  · split <;> simp_all

def scanAll (l : Lexer) : List Char → Lexer
  | [] => l
  | c :: cs => (l.scanToken c cs).1.scanAll (l.scanToken c cs).2
termination_by cs => cs.length
decreasing_by
  rw [scanToken_snd]
  exact length_cut_lt c cs

end Lexer

structure Scan where
  tokens : List Token
  errors : List LexError
deriving Repr, Inhabited

/-- Scans a whole text. The `eof` stands on the line that was reached in the end. -/
def scan (source : String) : Scan :=
  let l := Lexer.start.scanAll source.toList
  { tokens := (⟨.eof, "", l.line⟩ :: l.tokens).reverse
    errors := l.errors.reverse }

end Jal
