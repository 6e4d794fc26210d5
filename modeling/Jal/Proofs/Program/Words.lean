import Jal.Program.Stmt
import Jal.Token

namespace Jal

inductive Word where
  | eof
  | eol
  | name (text : String)
  | number (value : Float)
  | text (value : String)
  | keyword (k : Keyword)
  | symbol (s : Symbol)

def Token.word (t : Token) : Word :=
  match t.kind with
  | .eof => .eof
  | .eol => .eol
  | .ident => .name t.lexeme
  | .number x => .number x
  | .text s => .text s
  | .keyword k => .keyword k
  | .symbol s => .symbol s

def Word.kind : Word → TokenKind
  | eof => .eof
  | eol => .eol
  | name _ => .ident
  | number x => .number x
  | text s => .text s
  | keyword k => .keyword k
  | symbol s => .symbol s

@[simp] theorem Token.kind_word (t : Token) : t.word.kind = t.kind := by
  unfold Token.word
  split <;> simp_all [Word.kind]

def Literal.word : Literal → Word
  | none => .keyword .noneKw
  | bool false => .keyword .falseKw
  | bool true => .keyword .trueKw
  | number x => .number x
  | text s => .text s

def UnaryOp.word : UnaryOp → Word
  | not => .symbol .bang
  | negate => .symbol .minus
  | numOf => .keyword .numOfKw
  | strOf => .keyword .strOfKw

def BinaryOp.word : BinaryOp → Word
  | equal => .symbol .equal
  | notEqual => .symbol .bangEqual
  | less => .symbol .less
  | lessEqual => .symbol .lessEqual
  | greater => .symbol .greater
  | greaterEqual => .symbol .greaterEqual
  | add => .symbol .plus
  | subtract => .symbol .minus
  | multiply => .symbol .star
  | divide => .symbol .slash

def LogicalOp.word : LogicalOp → Word
  | and => .keyword .andKw
  | or => .keyword .orKw

def Name.word (n : Name) : Word := .name n.text

def commas : List (List Word) → List Word
  | [] => []
  | [ws] => ws
  | ws :: us :: rest => ws ++ .symbol .comma :: commas (us :: rest)

mutual

def Expr.words : Expr → List Word
  | .literal value => [value.word]
  | .grouping inner => .symbol .leftParen :: inner.words ++ [.symbol .rightParen]
  | .unary op _ operand => op.word :: operand.words
  | .binary op _ left right => left.words ++ op.word :: right.words
  | .logical op left right => left.words ++ op.word :: right.words
  | .variable ref => [ref.name.word]
  | .assign ref value => ref.name.word :: .symbol .assign :: value.words
  | .selfRef _ _ => [.keyword .selfKw]
  | .superRef _ _ method => [.keyword .superKw, .symbol .dot, method.word]
  | .get object name => object.words ++ [.symbol .dot, name.word]
  | .set object name value =>
    object.words ++ .symbol .dot :: name.word :: .symbol .assign :: value.words
  | .index object _ position =>
    object.words ++ .symbol .leftBracket :: position.words ++ [.symbol .rightBracket]
  | .indexSet object _ position value =>
    object.words ++ .symbol .leftBracket :: position.words ++
      .symbol .rightBracket :: .symbol .assign :: value.words
  | .call callee _ arguments =>
    callee.words ++ .symbol .leftParen :: commas (Expr.wordsOfEach arguments) ++
      [.symbol .rightParen]
  | .array elements =>
    .symbol .leftBracket :: commas (Expr.wordsOfEach elements) ++ [.symbol .rightBracket]

def Expr.wordsOfEach : List Expr → List (List Word)
  | [] => []
  | e :: rest => e.words :: Expr.wordsOfEach rest

end

def LogicalOp.level : LogicalOp → Nat
  | or => 1
  | and => 2

def BinaryOp.level : BinaryOp → Nat
  | equal | notEqual => 3
  | less | lessEqual | greater | greaterEqual => 4
  | add | subtract => 5
  | multiply | divide => 6

def Expr.level : Expr → Nat
  | .assign _ _ | .set _ _ _ | .indexSet _ _ _ _ => 0
  | .logical op _ _ => op.level
  | .binary op _ _ _ => op.level
  | .unary _ _ _ => 7
  | .get _ _ | .index _ _ _ | .call _ _ _ => 8
  | .literal _ | .grouping _ | .variable _ | .selfRef _ _ | .superRef _ _ _ | .array _ => 9

mutual

/-- Operands bind as tightly as their place demands: a left operand at least as tightly as its
operator, a right operand more tightly, and what is called, indexed or asked for a property as
tightly as a call. Brackets and the right side of an assignment hold any expression. -/
def Expr.Layered : Expr → Prop
  | .literal _ | .variable _ | .selfRef _ _ | .superRef _ _ _ => True
  | .grouping inner => inner.Layered
  | .unary _ _ operand => 7 ≤ operand.level ∧ operand.Layered
  | .binary op _ left right =>
    op.level ≤ left.level ∧ left.Layered ∧ op.level < right.level ∧ right.Layered
  | .logical op left right =>
    op.level ≤ left.level ∧ left.Layered ∧ op.level < right.level ∧ right.Layered
  | .assign _ value => value.Layered
  | .get object _ => 8 ≤ object.level ∧ object.Layered
  | .set object _ value => 8 ≤ object.level ∧ object.Layered ∧ value.Layered
  | .index object _ position => 8 ≤ object.level ∧ object.Layered ∧ position.Layered
  | .indexSet object _ position value =>
    8 ≤ object.level ∧ object.Layered ∧ position.Layered ∧ value.Layered
  | .call callee _ arguments => 8 ≤ callee.level ∧ callee.Layered ∧ Expr.AllLayered arguments
  | .array elements => Expr.AllLayered elements

def Expr.AllLayered : List Expr → Prop
  | [] => True
  | e :: rest => e.Layered ∧ Expr.AllLayered rest

end

def wordsOfSuperclass : Option Reference → List Word
  | none => []
  | some ref => [.keyword .inheritsKw, ref.name.word]

mutual

def Stmt.words : Stmt → List Word
  | .expr e => e.words ++ [.symbol .semicolon]
  | .letVar name none => [.keyword .letKw, name.word, .symbol .semicolon]
  | .letVar name (some init) =>
    .keyword .letKw :: name.word :: .symbol .assign :: init.words ++ [.symbol .semicolon]
  | .block body => .symbol .leftBrace :: Stmt.wordsOfAll body ++ [.symbol .rightBrace]
  | .ifThen test consequence none =>
    .keyword .ifKw :: test.words ++ .keyword .thenKw :: consequence.words
  | .ifThen test consequence (some alternative) =>
    .keyword .ifKw :: test.words ++ .keyword .thenKw :: consequence.words ++
      .keyword .elseKw :: alternative.words
  | .whileDo test body => .keyword .whileKw :: test.words ++ .keyword .doKw :: body.words
  | .times _ count body => .keyword .doKw :: count.words ++ .keyword .timesKw :: body.words
  | .breakLoop _ => [.keyword .breakKw, .symbol .semicolon]
  | .define routine => .keyword .defKw :: Stmt.wordsOfRoutine routine
  | .returnWith _ none => [.keyword .returnKw, .symbol .semicolon]
  | .returnWith _ (some value) => .keyword .returnKw :: value.words ++ [.symbol .semicolon]
  | .classDecl name superclass methods =>
    .keyword .classKw :: name.word :: wordsOfSuperclass superclass ++
      .symbol .leftBrace :: Stmt.wordsOfMethods methods ++ [.symbol .rightBrace]

def Stmt.wordsOfAll : List Stmt → List Word
  | [] => []
  | s :: rest => s.words ++ Stmt.wordsOfAll rest

def Stmt.wordsOfRoutine : Routine Stmt → List Word
  | ⟨name, params, body⟩ =>
    name.word :: .symbol .leftParen :: commas (params.map fun p => [p.word]) ++
      .symbol .rightParen :: .symbol .leftBrace :: Stmt.wordsOfAll body ++ [.symbol .rightBrace]

def Stmt.wordsOfMethods : List (Routine Stmt) → List Word
  | [] => []
  | r :: rest => .keyword .defKw :: Stmt.wordsOfRoutine r ++ Stmt.wordsOfMethods rest

end

def Stmt.isDeclaration : Stmt → Bool
  | .letVar _ _ | .define _ | .classDecl _ _ _ => true
  | _ => false

/-- An `else` after the statement would belong to an `if` inside it: the last statement that is
still open at its end is an `if` without an `else`. -/
def Stmt.endsInOpenIf : Stmt → Bool
  | .ifThen _ _ none => true
  | .ifThen _ _ (some alternative) => alternative.endsInOpenIf
  | .whileDo _ body => body.endsInOpenIf
  | .times _ _ body => body.endsInOpenIf
  | _ => false

mutual

/-- Expressions are layered, bodies declare nothing, and no `else` is taken by another `if`. -/
def Stmt.WellFormed : Stmt → Prop
  | .expr e => e.Layered
  | .letVar _ none => True
  | .letVar _ (some init) => init.Layered
  | .block body => Stmt.AllWellFormed body
  | .ifThen test consequence none =>
    test.Layered ∧ consequence.isDeclaration = false ∧ consequence.WellFormed
  | .ifThen test consequence (some alternative) =>
    test.Layered ∧ consequence.isDeclaration = false ∧ consequence.WellFormed ∧
      consequence.endsInOpenIf = false ∧ alternative.isDeclaration = false ∧
      alternative.WellFormed
  | .whileDo test body => test.Layered ∧ body.isDeclaration = false ∧ body.WellFormed
  | .times _ count body => count.Layered ∧ body.isDeclaration = false ∧ body.WellFormed
  | .breakLoop _ => True
  | .define routine => Stmt.RoutineWellFormed routine
  | .returnWith _ none => True
  | .returnWith _ (some value) => value.Layered
  | .classDecl _ _ methods => Stmt.MethodsWellFormed methods

def Stmt.AllWellFormed : List Stmt → Prop
  | [] => True
  | s :: rest => s.WellFormed ∧ Stmt.AllWellFormed rest

def Stmt.RoutineWellFormed : Routine Stmt → Prop
  | ⟨_, _, body⟩ => Stmt.AllWellFormed body

def Stmt.MethodsWellFormed : List (Routine Stmt) → Prop
  | [] => True
  | r :: rest => Stmt.RoutineWellFormed r ∧ Stmt.MethodsWellFormed rest

end

def Name.bare (n : Name) : Name := { n with line := 0 }

def Reference.bare (ref : Reference) : Reference := ⟨0, ref.name.bare⟩

mutual

/-- The expression with all ids and lines made equal. -/
def Expr.bare : Expr → Expr
  | .literal value => .literal value
  | .grouping inner => .grouping inner.bare
  | .unary op _ operand => .unary op 0 operand.bare
  | .binary op _ left right => .binary op 0 left.bare right.bare
  | .logical op left right => .logical op left.bare right.bare
  | .variable ref => .variable ref.bare
  | .assign ref value => .assign ref.bare value.bare
  | .selfRef _ _ => .selfRef 0 0
  | .superRef _ _ method => .superRef 0 0 method.bare
  | .get object name => .get object.bare name.bare
  | .set object name value => .set object.bare name.bare value.bare
  | .index object _ position => .index object.bare 0 position.bare
  | .indexSet object _ position value => .indexSet object.bare 0 position.bare value.bare
  | .call callee _ arguments => .call callee.bare 0 (Expr.bareAll arguments)
  | .array elements => .array (Expr.bareAll elements)

def Expr.bareAll : List Expr → List Expr
  | [] => []
  | e :: rest => e.bare :: Expr.bareAll rest

end

mutual

def Stmt.bare : Stmt → Stmt
  | .expr e => .expr e.bare
  | .letVar name init => .letVar name.bare (init.map Expr.bare)
  | .block body => .block (Stmt.bareAll body)
  | .ifThen test consequence none => .ifThen test.bare consequence.bare none
  | .ifThen test consequence (some alternative) =>
    .ifThen test.bare consequence.bare (some alternative.bare)
  | .whileDo test body => .whileDo test.bare body.bare
  | .times _ count body => .times 0 count.bare body.bare
  | .breakLoop _ => .breakLoop 0
  | .define routine => .define (Stmt.bareRoutine routine)
  | .returnWith _ value => .returnWith 0 (value.map Expr.bare)
  | .classDecl name superclass methods =>
    .classDecl name.bare (superclass.map Reference.bare) (Stmt.bareMethods methods)

def Stmt.bareAll : List Stmt → List Stmt
  | [] => []
  | s :: rest => s.bare :: Stmt.bareAll rest

def Stmt.bareRoutine : Routine Stmt → Routine Stmt
  | ⟨name, params, body⟩ => ⟨name.bare, params.map Name.bare, Stmt.bareAll body⟩

def Stmt.bareMethods : List (Routine Stmt) → List (Routine Stmt)
  | [] => []
  | r :: rest => Stmt.bareRoutine r :: Stmt.bareMethods rest

end

end Jal
