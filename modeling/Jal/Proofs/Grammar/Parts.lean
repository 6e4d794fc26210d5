import Mathlib.Logic.Relation
import Jal.Proofs.Grammar.Clauses

namespace Jal

/-- Something that is read, with the cursors it stands between: two passages with the same words at
different places are different. -/
inductive Passage where
  | phrase (p : Phrase) (c c' : Cursor)
  | optional (e : Option Expr) (c c' : Cursor)
  | letVar (s : Stmt) (c c' : Cursor)
  | init (s : Option Stmt) (c c' : Cursor)
  | clause (p : Clause) (c c' : Cursor)

namespace Passage

open Cursor
open Jal.Parser (levels unaryOp? assignTo?)

/-- A rule of the grammar reads the second passage as a part of the first one. All that the rule
asks for is here, so that the cursors of a part follow from those of the whole. What is read with
an error has no parts. -/
inductive Part : Passage → Passage → Prop where
  | grouping {c d : Cursor} {e : Expr} (hl : c.peek.kind = .symbol .leftParen)
      (he : Reads (.expr 0 e) c.advance d) (hr : d.peek.kind = .symbol .rightParen) :
      Part (.phrase (.expr 9 (.grouping e)) c d.advance) (.phrase (.expr 0 e) c.advance d)
  | array {c d : Cursor} {es : List Expr} (hl : c.peek.kind = .symbol .leftBracket)
      (he : Reads (.list es) c.advance d) (hr : d.peek.kind = .symbol .rightBracket) :
      Part (.phrase (.expr 9 (.array es)) c d.advance) (.phrase (.list es) c.advance d)
  | emptyCall {c d : Cursor} {f : Expr} (hf : Reads (.expr 8 f) c d)
      (hl : d.peek.kind = .symbol .leftParen)
      (hr : d.advance.peek.kind = .symbol .rightParen) :
      Part (.phrase (.expr 8 (.call f d.advance.peek.line [])) c d.advance.advance)
        (.phrase (.expr 8 f) c d)
  | call {c d d' : Cursor} {f : Expr} {es : List Expr} {part : Passage}
      (hf : Reads (.expr 8 f) c d) (hl : d.peek.kind = .symbol .leftParen)
      (he : Reads (.list es) d.advance d') (hr : d'.peek.kind = .symbol .rightParen)
      (hp : part ∈ [.phrase (.expr 8 f) c d, .phrase (.list es) d.advance d']) :
      Part (.phrase (.expr 8 (.call f d'.peek.line es)) c d'.advance) part
  | index {c d d' : Cursor} {e i : Expr} {part : Passage} (he : Reads (.expr 8 e) c d)
      (hl : d.peek.kind = .symbol .leftBracket) (hi : Reads (.expr 0 i) d.advance d')
      (hr : d'.peek.kind = .symbol .rightBracket)
      (hp : part ∈ [.phrase (.expr 8 e) c d, .phrase (.expr 0 i) d.advance d']) :
      Part (.phrase (.expr 8 (.index e d.peek.line i)) c d'.advance) part
  | get {c d : Cursor} {e : Expr} (he : Reads (.expr 8 e) c d)
      (hd : d.peek.kind = .symbol .dot) (hn : d.advance.peek.kind = .ident) :
      Part (.phrase (.expr 8 (.get e d.advance.nextName)) c d.advance.advance)
        (.phrase (.expr 8 e) c d)
  | unary {c d : Cursor} {op : UnaryOp} {e : Expr} (ho : unaryOp? c.peek.kind = some op)
      (he : Reads (.expr 7 e) c.advance d) :
      Part (.phrase (.expr 7 (.unary op c.peek.line e)) c d) (.phrase (.expr 7 e) c.advance d)
  | binary {c d d' : Cursor} {k : Nat} {level : Parser.Level} {combine : Parser.Combine}
      {left right : Expr} {part : Passage} (hk : levels[k]? = some level)
      (hl : Reads (.expr (k + 1) left) c d) (ho : level d.peek = some combine)
      (hr : Reads (.expr (k + 2) right) d.advance d')
      (hp : part ∈
        [.phrase (.expr (k + 1) left) c d, .phrase (.expr (k + 2) right) d.advance d']) :
      Part (.phrase (.expr (k + 1) (combine left right)) c d') part
  | assign {c d d' : Cursor} {target value e : Expr} {part : Passage}
      (ht : Reads (.expr 1 target) c d) (ho : d.peek.kind = .symbol .assign)
      (hv : Reads (.expr 0 value) d.advance d') (he : assignTo? target value = some e)
      (hp : part ∈ [.phrase (.expr 1 target) c d, .phrase (.expr 0 value) d.advance d']) :
      Part (.phrase (.expr 0 e) c d') part
  | tighter {c d : Cursor} {k : Nat} {e : Expr} (hk : k < 9) (he : Reads (.expr (k + 1) e) c d) :
      Part (.phrase (.expr k e) c d) (.phrase (.expr (k + 1) e) c d)
  | one {c d : Cursor} {e : Expr} (he : Reads (.expr 0 e) c d) :
      Part (.phrase (.list [e]) c d) (.phrase (.expr 0 e) c d)
  | more {c d d' : Cursor} {e : Expr} {es : List Expr} {part : Passage}
      (he : Reads (.expr 0 e) c d) (hc : d.peek.kind = .symbol .comma)
      (hes : Reads (.list es) d.advance d')
      (hp : part ∈ [.phrase (.expr 0 e) c d, .phrase (.list es) d.advance d']) :
      Part (.phrase (.list (e :: es)) c d') part
  | letInit {c d : Cursor} {e : Expr} (hn : c.peek.kind = .ident)
      (ha : c.advance.peek.kind = .symbol .assign) (he : Reads (.expr 0 e) c.advance.advance d) :
      Part (.letVar (.letVar c.nextName (some e)) c d) (.phrase (.expr 0 e) c.advance.advance d)
  | optional {c d : Cursor} {e : Expr} (he : Reads (.expr 0 e) c d) :
      Part (.optional (some e) c d) (.phrase (.expr 0 e) c d)
  | initLet {c d : Cursor} {s : Stmt} (hk : c.peek.kind = .keyword .letKw)
      (hl : ReadsLet s c.advance d) (hs : d.peek.kind = .symbol .semicolon) :
      Part (.init (some s) c d.advance) (.letVar s c.advance d)
  | initExpr {c d : Cursor} {e : Expr} (he : Reads (.expr 0 e) c d)
      (hs : d.peek.kind = .symbol .semicolon) :
      Part (.init (some (.expr e)) c d.advance) (.phrase (.expr 0 e) c d)
  | expr {c d c' : Cursor} {place : Place} {e : Expr} (he : Reads (.expr 0 e) c d)
      (ht : d.Skips c') :
      Part (.clause (.stmt place (.expr e)) c c') (.phrase (.expr 0 e) c d)
  | letVar {c d c' : Cursor} {s : Stmt} (hk : c.peek.kind = .keyword .letKw)
      (hs : ReadsLet s c.advance d) (ht : d.Skips c') :
      Part (.clause (.stmt .declaration s) c c') (.letVar s c.advance d)
  | block {c d c' : Cursor} {place : Place} {body : List Stmt}
      (hl : c.peek.kind = .symbol .leftBrace) (hb : ReadsClause (.items body) c.advance d)
      (hr : d.peek.kind = .symbol .rightBrace) (ht : d.advance.Skips c') :
      Part (.clause (.stmt place (.block body)) c c') (.clause (.items body) c.advance d)
  | ifThen {c d d' c' : Cursor} {place : Place} {test : Expr} {consequence : Stmt}
      {part : Passage} (hk : c.peek.kind = .keyword .ifKw) (ht : Reads (.expr 0 test) c.advance d)
      (hd : d.peek.kind = .keyword .thenKw) (hs : d.advance.Skips d')
      (hc : ReadsClause (.stmt (.body true) consequence) d' c')
      (hn : c'.peek.kind ≠ .keyword .elseKw)
      (hp : part ∈
        [.phrase (.expr 0 test) c.advance d, .clause (.stmt (.body true) consequence) d' c']) :
      Part (.clause (.stmt place (.ifThen test consequence none)) c c') part
  | ifElse {c d d' b b' c' : Cursor} {place : Place} {f : Bool} {test : Expr}
      {consequence alternative : Stmt} {part : Passage} (hk : c.peek.kind = .keyword .ifKw)
      (ht : Reads (.expr 0 test) c.advance d) (hd : d.peek.kind = .keyword .thenKw)
      (hs : d.advance.Skips d') (hc : ReadsClause (.stmt (.body true) consequence) d' b)
      (hn : b.peek.kind = .keyword .elseKw) (hs' : b.advance.Skips b')
      (ha : ReadsClause (.stmt (.body f) alternative) b' c')
      (hp : part ∈
        [.phrase (.expr 0 test) c.advance d, .clause (.stmt (.body true) consequence) d' b,
          .clause (.stmt (.body f) alternative) b' c']) :
      Part (.clause (.stmt place (.ifThen test consequence (some alternative))) c c') part
  | whileDo {c d d' c' : Cursor} {place : Place} {f : Bool} {test : Expr} {body : Stmt}
      {part : Passage} (hk : c.peek.kind = .keyword .whileKw)
      (ht : Reads (.expr 0 test) c.advance d) (hd : d.peek.kind = .keyword .doKw)
      (hs : d.advance.Skips d') (hb : ReadsClause (.stmt (.body f) body) d' c')
      (hp : part ∈ [.phrase (.expr 0 test) c.advance d, .clause (.stmt (.body f) body) d' c']) :
      Part (.clause (.stmt place (.whileDo test body)) c c') part
  | times {c d d' c' : Cursor} {place : Place} {f : Bool} {count : Expr} {body : Stmt}
      {part : Passage} (hk : c.peek.kind = .keyword .doKw)
      (ht : Reads (.expr 0 count) c.advance d) (hd : d.peek.kind = .keyword .timesKw)
      (hs : d.advance.Skips d') (hb : ReadsClause (.stmt (.body f) body) d' c')
      (hp : part ∈ [.phrase (.expr 0 count) c.advance d, .clause (.stmt (.body f) body) d' c']) :
      Part (.clause (.stmt place (.times c.peek.line count body)) c c') part
  | forLoop {c d b b' d' c' : Cursor} {place : Place} {f : Bool} {init : Option Stmt}
      {test update : Option Expr} {body : Stmt} {part : Passage}
      (hk : c.peek.kind = .keyword .forKw) (hl : c.advance.peek.kind = .symbol .leftParen)
      (hi : ReadsInit init c.advance.advance d) (ht : ReadsOption test d b)
      (hs : b.peek.kind = .symbol .semicolon) (hu : ReadsOption update b.advance b')
      (hr : b'.peek.kind = .symbol .rightParen) (hs' : b'.advance.Skips d')
      (hb : ReadsClause (.stmt (.body f) body) d' c')
      (hp : part ∈ [.init init c.advance.advance d, .optional test d b,
        .optional update b.advance b', .clause (.stmt (.body f) body) d' c']) :
      Part (.clause (.stmt place (Parser.forLoop init test update body)) c c') part
  | returnWith {c d c' : Cursor} {place : Place} {value : Option Expr}
      (hk : c.peek.kind = .keyword .returnKw) (hv : ReadsOption value c.advance d)
      (ht : d.Skips c') :
      Part (.clause (.stmt place (.returnWith c.peek.line value)) c c')
        (.optional value c.advance d)
  | define {c c' : Cursor} {r : Routine Stmt} (hk : c.peek.kind = .keyword .defKw)
      (hr : ReadsClause (.routine r) c.advance c') :
      Part (.clause (.stmt .declaration (.define r)) c c') (.clause (.routine r) c.advance c')
  | classDecl {c d d' c' : Cursor} {superclass : Option Reference}
      {rs : List (Routine Stmt)} (hk : c.peek.kind = .keyword .classKw)
      (hn : c.advance.peek.kind = .ident) (hs : ReadsSuperclass superclass c.advance.advance d)
      (hl : d.peek.kind = .symbol .leftBrace) (hm : ReadsClause (.methods rs) d.advance d')
      (hr : d'.peek.kind = .symbol .rightBrace) (ht : d'.advance.Skips c') :
      Part (.clause (.stmt .declaration (.classDecl c.advance.nextName superclass rs)) c c')
        (.clause (.methods rs) d.advance d')
  | item {c d d' c' : Cursor} {s : Stmt} {rest : List Stmt} {part : Passage} (hs : c.Skips d)
      (hi : ReadsClause (.stmt .declaration s) d d') (hr : ReadsClause (.items rest) d' c')
      (hp : part ∈ [.clause (.stmt .declaration s) d d', .clause (.items rest) d' c']) :
      Part (.clause (.items (s :: rest)) c c') part
  | routine {c d d' c' : Cursor} {params : List Name} {body : List Stmt}
      (hn : c.peek.kind = .ident) (hl : c.advance.peek.kind = .symbol .leftParen)
      (hp : ReadsNames params c.advance.advance d) (hr : d.peek.kind = .symbol .rightParen)
      (hb : d.advance.peek.kind = .symbol .leftBrace)
      (hbody : ReadsClause (.items body) d.advance.advance d')
      (he : d'.peek.kind = .symbol .rightBrace) (ht : d'.advance.Skips c') :
      Part (.clause (.routine ⟨c.nextName, params, body⟩) c c')
        (.clause (.items body) d.advance.advance d')
  | method {c d d' c' : Cursor} {r : Routine Stmt} {rest : List (Routine Stmt)} {part : Passage}
      (hs : c.Skips d) (hk : d.peek.kind = .keyword .defKw)
      (hm : ReadsClause (.routine r) d.advance d') (hr : ReadsClause (.methods rest) d' c')
      (hp : part ∈ [.clause (.routine r) d.advance d', .clause (.methods rest) d' c']) :
      Part (.clause (.methods (r :: rest)) c c') part

/-- The second passage stands in the first one. -/
def Includes : Passage → Passage → Prop := Relation.ReflTransGen Part

/-- The call is read in the passage, and the last of the tokens it is read from is a closing
parenthesis on the line. -/
def Closes (whole : Passage) (call : Expr) (line : Nat) : Prop :=
  ∃ c c' inner close, whole.Includes (.phrase (.expr 8 call) c c') ∧
    c.rest = inner ++ close :: c'.rest ∧ close.kind = .symbol .rightParen ∧ close.line = line

theorem Closes.of_includes {whole : Passage} {call : Expr} {c d : Cursor}
    (hi : whole.Includes (.phrase (.expr 8 call) c d.advance)) (ha : c.Advances d)
    (hr : d.peek.kind = .symbol .rightParen) : whole.Closes call d.peek.line := by
  obtain ⟨inner, hinner⟩ := ha.rest
  have hrest : d.rest = d.peek :: d.advance.rest := rest_eq_of_peek (by rw [hr]; nofun)
  rw [hrest] at hinner
  exact ⟨c, d.advance, inner, d.peek, hi, hinner.symm, hr, rfl⟩

end Passage

end Jal
