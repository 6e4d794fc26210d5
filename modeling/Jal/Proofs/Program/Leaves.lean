import Jal.Proofs.Program.Words

namespace Jal

/-- The word is a name, a literal, or a keyword that is a node of its own. -/
def Word.isLeaf : Word → Bool
  | name _ | number _ | text _ => true
  | keyword k => k ∈ [.trueKw, .falseKw, .noneKw, .selfKw, .superKw, .breakKw, .returnKw]
  | eof | eol | symbol _ => false

def leafWords (tokens : List Token) : List Word := (tokens.map Token.word).filter Word.isLeaf

mutual

def Expr.leaves : Expr → List Word
  | .literal value => [value.word]
  | .grouping inner => inner.leaves
  | .unary _ _ operand => operand.leaves
  | .binary _ _ left right => left.leaves ++ right.leaves
  | .logical _ left right => left.leaves ++ right.leaves
  | .variable ref => [ref.name.word]
  | .assign ref value => ref.name.word :: value.leaves
  | .selfRef _ _ => [.keyword .selfKw]
  | .superRef _ _ method => [.keyword .superKw, method.word]
  | .get object name => object.leaves ++ [name.word]
  | .set object name value => object.leaves ++ name.word :: value.leaves
  | .index object _ position => object.leaves ++ position.leaves
  | .indexSet object _ position value => object.leaves ++ position.leaves ++ value.leaves
  | .call callee _ arguments => callee.leaves ++ Expr.leavesOfAll arguments
  | .array elements => Expr.leavesOfAll elements

def Expr.leavesOfAll : List Expr → List Word
  | [] => []
  | e :: rest => e.leaves ++ Expr.leavesOfAll rest

end

def Expr.leavesOfOption : Option Expr → List Word
  | none => []
  | some e => e.leaves

mutual

def Stmt.leaves : Stmt → List Word
  | .expr e => e.leaves
  | .letVar name init => name.word :: Expr.leavesOfOption init
  | .block body => Stmt.leavesOfAll body
  | .ifThen test consequence none => test.leaves ++ consequence.leaves
  | .ifThen test consequence (some alternative) =>
    test.leaves ++ consequence.leaves ++ alternative.leaves
  | .whileDo test body => test.leaves ++ body.leaves
  | .times _ count body => count.leaves ++ body.leaves
  | .breakLoop _ => [.keyword .breakKw]
  | .define routine => Stmt.leavesOfRoutine routine
  | .returnWith _ value => .keyword .returnKw :: Expr.leavesOfOption value
  | .classDecl name superclass methods =>
    name.word :: superclass.toList.map (fun ref => ref.name.word) ++ Stmt.leavesOfMethods methods

def Stmt.leavesOfAll : List Stmt → List Word
  | [] => []
  | s :: rest => s.leaves ++ Stmt.leavesOfAll rest

def Stmt.leavesOfRoutine : Routine Stmt → List Word
  | ⟨name, params, body⟩ => name.word :: params.map Name.word ++ Stmt.leavesOfAll body

def Stmt.leavesOfMethods : List (Routine Stmt) → List Word
  | [] => []
  | r :: rest => Stmt.leavesOfRoutine r ++ Stmt.leavesOfMethods rest

end

def Word.inExpression : Word → Bool
  | name _ | number _ | text _ => true
  | keyword k =>
    k ∈ [.andKw, .orKw, .trueKw, .falseKw, .noneKw, .selfKw, .superKw, .numOfKw, .strOfKw]
  | symbol s => s ∉ [.leftBrace, .rightBrace, .semicolon]
  | eof | eol => false

theorem inExpression_commas {lists : List (List Word)}
    (h : ∀ ws ∈ lists, ∀ w ∈ ws, w.inExpression = true) :
    ∀ w ∈ commas lists, w.inExpression = true := by
  fun_induction commas lists with
  | case1 => nofun
  | case2 ws => exact h ws (List.mem_singleton_self _)
  | case3 ws us rest ih =>
    rw [List.forall_mem_cons] at h
    exact List.forall_mem_append.2 ⟨h.1, List.forall_mem_cons.2 ⟨rfl, ih h.2⟩⟩

mutual

theorem Expr.inExpression_words : (e : Expr) → ∀ w ∈ e.words, w.inExpression = true
  | .literal value => by
    cases value with
    | bool b => cases b <;> simp [Expr.words, Literal.word, Word.inExpression]
    | none | number | text => simp [Expr.words, Literal.word, Word.inExpression]
  | .variable _ | .selfRef _ _ | .superRef _ _ _ => by
    simp [Expr.words, Name.word, Word.inExpression]
  | .unary op _ e => by
    have h := e.inExpression_words
    cases op <;> simpa [Expr.words, UnaryOp.word, Word.inExpression] using h
  | .binary op _ e e' => by
    have h := List.forall_mem_append.2 ⟨e.inExpression_words, e'.inExpression_words⟩
    cases op <;>
      simpa [Expr.words, BinaryOp.word, Word.inExpression, or_imp, forall_and] using h
  | .logical op e e' => by
    have h := List.forall_mem_append.2 ⟨e.inExpression_words, e'.inExpression_words⟩
    cases op <;>
      simpa [Expr.words, LogicalOp.word, Word.inExpression, or_imp, forall_and] using h
  | .grouping e | .assign _ e | .get e _ => by
    have h := e.inExpression_words
    simpa [Expr.words, Name.word, Word.inExpression, or_imp, forall_and] using h
  | .set e _ e' | .index e _ e' => by
    have h := List.forall_mem_append.2 ⟨e.inExpression_words, e'.inExpression_words⟩
    simpa [Expr.words, Name.word, Word.inExpression, or_imp, forall_and] using h
  | .indexSet e _ e' e'' => by
    have h := List.forall_mem_append.2 ⟨e'.inExpression_words, e''.inExpression_words⟩
    have h := List.forall_mem_append.2 ⟨e.inExpression_words, h⟩
    simpa [Expr.words, Word.inExpression, or_imp, forall_and] using h
  | .call e _ es => by
    have h := List.forall_mem_append.2
      ⟨e.inExpression_words, inExpression_commas (Expr.inExpression_wordsOfEach es)⟩
    simpa [Expr.words, Word.inExpression, or_imp, forall_and] using h
  | .array es => by
    have h := inExpression_commas (Expr.inExpression_wordsOfEach es)
    simpa [Expr.words, Word.inExpression, or_imp, forall_and] using h

theorem Expr.inExpression_wordsOfEach :
    (es : List Expr) → ∀ ws ∈ Expr.wordsOfEach es, ∀ w ∈ ws, w.inExpression = true
  | [] => by simp [Expr.wordsOfEach]
  | e :: rest => by
    rw [Expr.wordsOfEach, List.forall_mem_cons]
    exact ⟨e.inExpression_words, Expr.inExpression_wordsOfEach rest⟩

end

theorem filter_isLeaf_commas (lists : List (List Word)) :
    (commas lists).filter Word.isLeaf = lists.flatMap (List.filter Word.isLeaf) := by
  fun_induction commas lists with
  | case1 => rfl
  | case2 ws => simp
  | case3 ws us rest ih =>
    rw [List.filter_append, List.filter_cons_of_neg (by simp [Word.isLeaf]), ih]
    rfl

mutual

/-- The leaves of an expression are those among its words. -/
theorem Expr.filter_words : (e : Expr) → e.words.filter Word.isLeaf = e.leaves
  | .literal value => by
    cases value with
    | bool b => cases b <;> rfl
    | none | number | text => rfl
  | .variable _ | .selfRef _ _ | .superRef _ _ _ => rfl
  | .unary op _ e => by
    cases op <;> simp [Expr.words, Expr.leaves, UnaryOp.word, Word.isLeaf, e.filter_words]
  | .binary op _ e e' => by
    cases op <;>
      simp [Expr.words, Expr.leaves, BinaryOp.word, Word.isLeaf, e.filter_words, e'.filter_words]
  | .logical op e e' => by
    cases op <;>
      simp [Expr.words, Expr.leaves, LogicalOp.word, Word.isLeaf, e.filter_words, e'.filter_words]
  | .grouping e | .assign _ e | .get e _ => by
    simp [Expr.words, Expr.leaves, Name.word, Word.isLeaf, List.filter_cons, e.filter_words]
  | .set e _ e' | .index e _ e' => by
    simp [Expr.words, Expr.leaves, Name.word, Word.isLeaf, List.filter_cons, e.filter_words,
      e'.filter_words]
  | .indexSet e _ e' e'' => by
    simp [Expr.words, Expr.leaves, Word.isLeaf, e.filter_words, e'.filter_words, e''.filter_words]
  | .call e _ es => by
    simp [Expr.words, Expr.leaves, Word.isLeaf, filter_isLeaf_commas, e.filter_words,
      Expr.filter_wordsOfEach es]
  | .array es => by
    simp [Expr.words, Expr.leaves, Word.isLeaf, filter_isLeaf_commas, Expr.filter_wordsOfEach es]

theorem Expr.filter_wordsOfEach : (es : List Expr) →
    (Expr.wordsOfEach es).flatMap (List.filter Word.isLeaf) = Expr.leavesOfAll es
  | [] => rfl
  | e :: rest => by
    rw [Expr.wordsOfEach, List.flatMap_cons, e.filter_words, Expr.filter_wordsOfEach rest,
      Expr.leavesOfAll]

end

end Jal
