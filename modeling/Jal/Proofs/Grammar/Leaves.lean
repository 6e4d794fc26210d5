import Mathlib.Algebra.Order.Group.Multiset
import Jal.Proofs.Grammar.Bounds
import Jal.Proofs.Program.Leaves

namespace Jal

/-- After a `for`: nothing stands between its first two semicolons, where the test belongs. -/
def omitsTest (header : List Token) : Bool :=
  match header.dropWhile fun t => !t.kind.isSymbol .semicolon with
  | _ :: t :: _ => t.kind.isSymbol .semicolon
  | _ => false

def omittedTests : List Token → Nat
  | [] => 0
  | t :: rest => (if t.kind.isKeyword .forKw && omitsTest rest then 1 else 0) + omittedTests rest

/-- The leaves of the tokens, with a `true` for every test that is left out. -/
def tally (tokens : List Token) : Multiset Word :=
  (leafWords tokens : Multiset Word) +
    Multiset.replicate (omittedTests tokens) (.keyword .trueKw)

theorem tally_cons {t : Token} (h : t.kind ≠ .keyword .forKw) (rest : List Token) :
    tally (t :: rest) = ([t.word].filter Word.isLeaf : Multiset Word) + tally rest := by
  have hfor : t.kind.isKeyword .forKw = false :=
    Bool.eq_false_iff.2 (mt TokenKind.isKeyword_iff.1 h)
  have hleaf : leafWords (t :: rest) = [t.word].filter Word.isLeaf ++ leafWords rest := by
    rw [leafWords, List.map_cons, ← List.singleton_append, List.filter_append, leafWords]
  rw [tally, hleaf, omittedTests, hfor, ← Multiset.coe_add, tally, Bool.false_and, add_assoc]
  simp only [Bool.false_eq_true, if_false, Nat.zero_add]

/-- A `for` itself is no leaf, but a test that it leaves out counts. -/
theorem tally_for {t : Token} (h : t.kind = .keyword .forKw) (rest : List Token) :
    tally (t :: rest) =
      (if omitsTest rest then [Word.keyword .trueKw] else [] : List Word) + tally rest := by
  have hleaf : leafWords (t :: rest) = leafWords rest := by
    rw [leafWords, List.map_cons, List.filter_cons_of_neg (by simp [Token.word, h, Word.isLeaf]),
      leafWords]
  rw [tally, hleaf, omittedTests, TokenKind.isKeyword_iff.2 h, tally, Bool.true_and]
  cases omitsTest rest with
  | true =>
    rw [if_pos rfl, if_pos rfl, Nat.add_comm, Multiset.replicate_succ, Multiset.add_cons]
    rfl
  | false => simp

namespace Cursor

variable {c d c' : Cursor}

/-- From `c` up to `c'` the leaves are `ws`, in some order. -/
def Tallies (c : Cursor) (ws : List Word) (c' : Cursor) : Prop :=
  tally c.rest = (ws : Multiset Word) + tally c'.rest

theorem Tallies.refl (c : Cursor) : c.Tallies [] c := by
  rw [Tallies, Multiset.coe_nil, zero_add]

theorem Tallies.trans {ws us : List Word} (h : c.Tallies ws d) (h' : d.Tallies us c') :
    c.Tallies (ws ++ us) c' := by
  rw [Tallies, h, h', ← Multiset.coe_add, add_assoc]

theorem Tallies.perm {ws us : List Word} (h : c.Tallies ws c') (hp : ws.Perm us) :
    c.Tallies us c' := by
  rwa [Tallies, ← Multiset.coe_eq_coe.2 hp]

/-- What comes before adds nothing. -/
theorem Tallies.after {ws : List Word} (h : c.Tallies [] d) (h' : d.Tallies ws c') :
    c.Tallies ws c' :=
  h.trans h'

/-- What comes behind adds nothing. -/
theorem Tallies.followed {ws : List Word} (h : c.Tallies ws d) (h' : d.Tallies [] c') :
    c.Tallies ws c' := by
  have ht := h.trans h'
  rwa [List.append_nil] at ht

/-- Words among which there is no `for` count by themselves. -/
theorem Spells.tallies {ws : List Word} (h : c.Spells ws c')
    (hf : ∀ w ∈ ws, w.kind ≠ .keyword .forKw) : c.Tallies (ws.filter Word.isLeaf) c' := by
  obtain ⟨ts, hts, rfl⟩ := h
  rw [Tallies, hts]
  clear hts
  induction ts with
  | nil => rw [List.nil_append, List.map_nil, List.filter_nil, Multiset.coe_nil, zero_add]
  | cons t ts ih =>
    rw [List.map_cons, List.forall_mem_cons, Token.kind_word] at hf
    rw [List.cons_append, tally_cons hf.1, ih hf.2, ← add_assoc, Multiset.coe_add,
      ← List.filter_append, List.singleton_append, List.map_cons]

theorem tallies_symbol {s : Symbol} (h : c.peek.kind = .symbol s) : c.Tallies [] c.advance :=
  (spells_symbol h).tallies (by simp [Word.kind])

theorem tallies_keyword {k : Keyword} (h : c.peek.kind = .keyword k) (hf : k ≠ .forKw)
    (hl : (Word.keyword k).isLeaf = false) : c.Tallies [] c.advance := by
  have ht := (spells_keyword h).tallies (by simpa [Word.kind] using hf)
  rwa [List.filter_cons_of_neg (Bool.eq_false_iff.1 hl), List.filter_nil] at ht

theorem tallies_leaf {k : Keyword} (h : c.peek.kind = .keyword k) (hf : k ≠ .forKw)
    (hl : (Word.keyword k).isLeaf = true) : c.Tallies [.keyword k] c.advance := by
  have ht := (spells_keyword h).tallies (by simpa [Word.kind] using hf)
  rwa [List.filter_cons_of_pos hl, List.filter_nil] at ht

theorem tallies_name (h : c.peek.kind = .ident) : c.Tallies [c.nextName.word] c.advance :=
  (spells_name h).tallies (by simp [Name.word, Word.kind])

theorem Skips.tallies (h : c.Skips c') : c.Tallies [] c' := by
  obtain ⟨ts, hts, hk⟩ := h.rest
  have hspells : c.Spells (ts.map Token.word) c' := ⟨ts, hts, rfl⟩
  have hnone : (ts.map Token.word).filter Word.isLeaf = [] := by
    rw [List.filter_eq_nil_iff, List.forall_mem_map]
    intro t ht
    rcases hk t ht with hk | hk <;> simp [Token.word, hk, Word.isLeaf]
  rw [← hnone]
  refine hspells.tallies (List.forall_mem_map.2 fun t ht => ?_)
  rw [Token.kind_word]
  rcases hk t ht with hk | hk <;> simp [hk]

theorem Advances.errors_nil (h : c.Advances c') (hc' : c'.errors = []) : c.errors = [] := by
  have hs := h.errors
  rw [hc'] at hs
  exact List.suffix_nil.1 hs

end Cursor

open Cursor

variable {c c' : Cursor}

theorem Reads.spells_of_nil {e : Expr} (h : Reads (.expr 0 e) c c') (hc' : c'.errors = []) :
    c.Spells e.words c' :=
  h.spells (hc'.trans (h.advances.errors_nil hc').symm)

theorem Reads.tallies {e : Expr} (h : Reads (.expr 0 e) c c') (hc' : c'.errors = []) :
    c.Tallies e.leaves c' := by
  rw [← e.filter_words]
  refine (h.spells_of_nil hc').tallies fun w hw hk => ?_
  have hin := e.inExpression_words w hw
  cases w <;> simp only [Word.kind, TokenKind.keyword.injEq, reduceCtorEq] at hk
  subst hk
  cases hin

theorem ReadsOption.tallies {e : Option Expr} (h : ReadsOption e c c') (hc' : c'.errors = []) :
    c.Tallies (Expr.leavesOfOption e) c' := by
  cases h with
  | none => exact .refl _
  | some he => exact he.tallies hc'

theorem ReadsLet.tallies {s : Stmt} (h : ReadsLet s c c') (hc' : c'.errors = []) :
    c.Tallies s.leaves c' := by
  cases h with
  | bare hn => exact tallies_name hn
  | init hn ha he => exact (tallies_name hn).trans ((tallies_symbol ha).after (he.tallies hc'))

def leavesOfInit : Option Stmt → List Word
  | none => []
  | some s => s.leaves

theorem ReadsInit.tallies {init : Option Stmt} (h : ReadsInit init c c')
    (hc' : c'.errors = []) : c.Tallies (leavesOfInit init) c' := by
  cases h with
  | none hs => exact tallies_symbol hs
  | letVar hk hl hs =>
    rw [errors_advance] at hc'
    exact (tallies_keyword hk nofun rfl).after ((hl.tallies hc').followed (tallies_symbol hs))
  | expr he hs =>
    rw [errors_advance] at hc'
    exact (he.tallies hc').followed (tallies_symbol hs)

theorem ReadsNames.tallies {names : List Name} (h : ReadsNames names c c') :
    c.Tallies (names.map Name.word) c' := by
  induction h with
  | none => exact .refl _
  | one hn => exact tallies_name hn
  | more hn hc hs ih => exact (tallies_name hn).trans ((tallies_symbol hc).after ih)

theorem ReadsSuperclass.tallies {parent : Option Reference} (h : ReadsSuperclass parent c c') :
    c.Tallies (parent.toList.map fun ref => ref.name.word) c' := by
  cases h with
  | none => exact .refl _
  | some hk hn => exact (tallies_keyword hk nofun rfl).after (tallies_name hn)

/-- The first clause ends with the only semicolon in it. -/
theorem ReadsInit.rest {init : Option Stmt} (h : ReadsInit init c c') (hc' : c'.errors = []) :
    ∃ ts t, c.rest = ts ++ t :: c'.rest ∧ t.kind = .symbol .semicolon ∧
      ∀ u ∈ ts, u.kind ≠ .symbol .semicolon := by
  have close {ws : List Word} {d d' : Cursor} (hw : d.Spells ws d')
      (hin : ∀ w ∈ ws, w.kind ≠ .symbol .semicolon) (hs : d'.peek.kind = .symbol .semicolon) :
      ∃ ts t, d.rest = ts ++ t :: d'.advance.rest ∧ t.kind = .symbol .semicolon ∧
        ∀ u ∈ ts, u.kind ≠ .symbol .semicolon := by
    obtain ⟨ts, hts, rfl⟩ := hw
    refine ⟨ts, d'.peek, ?_, hs, fun u hu => ?_⟩
    · rw [hts, ← rest_eq_of_peek (by simp [hs])]
    · rw [← Token.kind_word]
      exact hin _ (List.mem_map_of_mem hu)
  have expr (e : Expr) : ∀ w ∈ e.words, w.kind ≠ .symbol .semicolon := by
    intro w hw hk
    have hin := e.inExpression_words w hw
    cases w <;> simp only [Word.kind, TokenKind.symbol.injEq, reduceCtorEq] at hk
    subst hk
    cases hin
  cases h with
  | none hs => exact close ⟨[], rfl, rfl⟩ (List.forall_mem_nil _) hs
  | letVar hk hl hs =>
    rw [errors_advance] at hc'
    cases hl with
    | bare hn =>
      refine close ((spells_keyword hk).trans (spells_name hn)) ?_ hs
      simp [Word.kind, Name.word]
    | init hn ha he =>
      refine close ((((spells_keyword hk).trans (spells_name hn)).trans (spells_symbol ha)).trans
        (he.spells_of_nil hc')) ?_ hs
      simpa [Word.kind, Name.word] using expr _
  | expr he hs =>
    rw [errors_advance] at hc'
    exact close (he.spells_of_nil hc') (expr _) hs

theorem omitsTest_append {before after : List Token} {semicolon t : Token}
    (hb : ∀ u ∈ before, u.kind ≠ .symbol .semicolon) (hs : semicolon.kind = .symbol .semicolon) :
    omitsTest (before ++ semicolon :: t :: after) = t.kind.isSymbol .semicolon := by
  have hpass : ∀ u ∈ before, (!u.kind.isSymbol .semicolon) = true := by
    intro u hu
    rw [Bool.not_eq_true', Bool.eq_false_iff, ne_eq, TokenKind.isSymbol_iff]
    exact hb u hu
  rw [omitsTest, List.dropWhile_append_of_pos hpass]
  simp [TokenKind.isSymbol_iff.2 hs]

/-- What the tokens of its header say of the test of a `for` is right. -/
theorem ReadsOption.isNone_eq {init : Option Stmt} {test : Option Expr} {d b : Cursor}
    (hl : c.peek.kind = .symbol .leftParen) (hi : ReadsInit init c.advance d)
    (hd : d.errors = []) (ht : ReadsOption test d b) (hs : b.peek.kind = .symbol .semicolon) :
    test.isNone = omitsTest c.rest := by
  obtain ⟨ts, t, hrest, hk, hts⟩ := hi.rest hd
  have hopen : ∀ u ∈ c.peek :: ts, u.kind ≠ .symbol .semicolon :=
    List.forall_mem_cons.2 ⟨by rw [hl]; nofun, hts⟩
  have header (hne : d.peek.kind ≠ .eof) :
      omitsTest c.rest = d.peek.kind.isSymbol .semicolon := by
    rw [rest_eq_of_peek (c := c) (by rw [hl]; nofun), hrest, rest_eq_of_peek hne,
      ← List.cons_append]
    exact omitsTest_append hopen hk
  cases ht with
  | none =>
    rw [header (by rw [hs]; nofun), hs]
    rfl
  | some he =>
    -- no expression begins with a semicolon, nor at the end
    have hstart := he.startsWith.1
    rw [header fun h => by rw [h] at hstart; cases hstart]
    refine (Bool.eq_false_iff.2 fun h => ?_).symm
    rw [TokenKind.isSymbol_iff.1 h] at hstart
    cases hstart

theorem leaves_forLoop (init : Option Stmt) (test update : Option Expr) (body : Stmt) :
    ((if test.isNone then [Word.keyword .trueKw] else []) ++ (leavesOfInit init ++
        (Expr.leavesOfOption test ++ (Expr.leavesOfOption update ++ body.leaves)))).Perm
      (Parser.forLoop init test update body).leaves := by
  have hleaves : (Parser.forLoop init test update body).leaves =
      leavesOfInit init ++ (((if test.isNone then [Word.keyword .trueKw] else []) ++
        Expr.leavesOfOption test) ++ (body.leaves ++ Expr.leavesOfOption update)) := by
    cases init <;> cases test <;> cases update <;>
      simp [Parser.forLoop, Stmt.leaves, Stmt.leavesOfAll, Expr.leaves, Expr.leavesOfOption,
        leavesOfInit, Literal.word]
  rw [hleaves]
  refine (List.perm_append_comm_assoc _ _ _).trans (List.Perm.append_left _ ?_)
  rw [List.append_assoc]
  exact (List.perm_append_comm.append_left _).append_left _

def Clause.leaves : Clause → List Word
  | stmt _ s => s.leaves
  | items ss => Stmt.leavesOfAll ss
  | routine r => Stmt.leavesOfRoutine r
  | methods rs => Stmt.leavesOfMethods rs

/-- What is read without an error keeps its leaves, by induction over the reading. -/
theorem ReadsClause.tallies {p : Clause} (h : ReadsClause p c c') (hc' : c'.errors = []) :
    c.Tallies p.leaves c' := by
  induction h with
  | expr he ht => exact (he.tallies (ht.advances.errors_nil hc')).followed ht.tallies
  | letVar hk hs ht =>
    have hlet := hs.tallies (ht.advances.errors_nil hc')
    exact (tallies_keyword hk nofun rfl).after (hlet.followed ht.tallies)
  | block hl hb hr ht ih =>
    have hbody := ih (((advances_advance _).skips ht).errors_nil hc')
    exact (tallies_symbol hl).after (hbody.followed ((tallies_symbol hr).after ht.tallies))
  | ifThen hk ht hd hs hc hn ih =>
    have htest := ht.tallies ((((advances_advance _).skips hs).trans hc.advances).errors_nil hc')
    have hthen := (tallies_keyword hd nofun rfl).after hs.tallies
    exact (tallies_keyword hk nofun rfl).after (htest.trans (hthen.after (ih hc')))
  | ifElse hk ht hd hs hc hn hs' ha ih ih' =>
    have hb := (((advances_advance _).skips hs').trans ha.advances).errors_nil hc'
    have htest := ht.tallies ((((advances_advance _).skips hs).trans hc.advances).errors_nil hb)
    have hthen := (tallies_keyword hd nofun rfl).after hs.tallies
    have helse := (tallies_keyword hn nofun rfl).after hs'.tallies
    exact (tallies_keyword hk nofun rfl).after
      ((htest.trans (hthen.after (ih hb))).trans (helse.after (ih' hc')))
  | whileDo hk ht hd hs hb ih | times hk ht hd hs hb ih =>
    have htest := ht.tallies ((((advances_advance _).skips hs).trans hb.advances).errors_nil hc')
    have hdo := (tallies_keyword hd nofun rfl).after hs.tallies
    exact (tallies_keyword hk nofun rfl).after (htest.trans (hdo.after (ih hc')))
  | @forLoop c d b b' d' c' place f init test update body hk hl hi ht hs hu hr hs' hb ih =>
    -- no error was recorded after any of the clauses, from the last one backwards
    have heu := (((advances_advance _).skips hs').trans hb.advances).errors_nil hc'
    have het := (hu.advances.step).errors_nil heu
    have hei := ht.advances.errors_nil het
    have hheader := ReadsOption.isNone_eq hl hi hei ht hs
    have hfor : c.Tallies (if test.isNone then [Word.keyword .trueKw] else []) c.advance := by
      rw [Tallies, rest_eq_of_peek (by rw [hk]; nofun), tally_for hk, hheader]
    have hinit := (tallies_symbol hl).after (hi.tallies hei)
    have hupdate := (tallies_symbol hs).after (hu.tallies heu)
    have hbody := (tallies_symbol hr).after (hs'.tallies.after (ih hc'))
    exact (hfor.trans (hinit.trans ((ht.tallies het).trans (hupdate.trans hbody)))).perm
      (leaves_forLoop init test update body)
  | breakLoop hk ht => exact (tallies_leaf hk nofun rfl).followed ht.tallies
  | returnWith hk hv ht =>
    have hvalue := hv.tallies (ht.advances.errors_nil hc')
    exact (tallies_leaf hk nofun rfl).trans (hvalue.followed ht.tallies)
  | define hk hr ih => exact (tallies_keyword hk nofun rfl).after (ih hc')
  | classDecl hk hn hs hl hm hr ht ih =>
    have hmethods := (tallies_symbol hl).after (ih (((advances_advance _).skips ht).errors_nil hc'))
    have hend := (tallies_symbol hr).after ht.tallies
    exact (tallies_keyword hk nofun rfl).after
      ((tallies_name hn).trans (hs.tallies.trans (hmethods.followed hend)))
  | noItems hs | noMethods hs => exact hs.tallies
  | item hs hi hr ih ih' =>
    exact hs.tallies.after ((ih (hr.advances.errors_nil hc')).trans (ih' hc'))
  | failed hs ha he hr ih =>
    -- where a declaration could not be read an error was recorded
    rw [hr.advances.errors_nil hc'] at he
    exact absurd he (Nat.not_lt_zero _)
  | routine hn hl hp hr hb hbody he ht ih =>
    have hparams := (tallies_symbol hl).after (hp.tallies.followed
      ((tallies_symbol hr).after (tallies_symbol hb)))
    have hrest := (ih (((advances_advance _).skips ht).errors_nil hc')).followed
      ((tallies_symbol he).after ht.tallies)
    exact (tallies_name hn).trans (hparams.trans hrest)
  | method hs hk hm hr ih ih' =>
    have hfirst := (tallies_keyword hk nofun rfl).after (ih (hr.advances.errors_nil hc'))
    exact hs.tallies.after (hfirst.trans (ih' hc'))

/-- An empty slot leaves an error, and no error is ever taken back. -/
theorem Parser.slots_eq_map_some {bound n : Nat} {found : List (Option Stmt)}
    (h : slots bound n c = .ok found c') (hc' : c'.errors = []) :
    found = (found.filterMap id).map some := by
  induction n generalizing c found with
  | zero =>
    rw [slots, pure_eq_ok] at h
    rw [h.1]
    rfl
  | succ n ih =>
    simp only [slots, bind_eq_ok, skipEols_eq_ok, get_eq_ok] at h
    obtain ⟨_, _, rfl, _, _, ⟨rfl, rfl⟩, h⟩ := h
    split at h
    · rw [pure_eq_ok] at h
      rw [h.1]
      rfl
    · simp only [bind_eq_ok, pure_eq_ok] at h
      obtain ⟨slot, d, hs, others, d', ho, rfl, rfl⟩ := h
      cases slot with
      | some s => exact congrArg (some s :: ·) (ih ho)
      | none =>
        have he := (advances_of_recovering (advancing_statement _ _) hs).2
        rw [((advancing_slots _ _).of_ok ho).errors_nil hc'] at he
        exact absurd he (Nat.not_lt_zero _)

/-- Where parsing reports no error, every slot holds a statement, and the leaves of the program are
those of the tokens before the first `eof`, with one more `true` for each `for` whose test is left
out. -/
theorem leaves_kept (firstId : Nat) (tokens : List Token)
    (h : (parse firstId tokens).errors = []) :
    ∃ program : Program,
      (parse firstId tokens).slots = program.map some ∧
      (parse firstId tokens).program? = some program ∧
      (Stmt.leavesOfAll program : Multiset Word) =
        (leafWords (tokens.takeWhile fun t => !t.kind.isEof) : Multiset Word) +
          Multiset.replicate (omittedTests (tokens.takeWhile fun t => !t.kind.isEof))
            (.keyword .trueKw) := by
  have hlt := Nat.lt_succ_self (Cursor.start firstId tokens).rest.length
  obtain ⟨found, c, hs, hend, -⟩ := Parser.slots_ends hlt hlt
  have hp : parse firstId tokens = ⟨found, c.errors.reverse, c.nextId⟩ := by
    simp only [parse, hs]
  rw [hp] at h ⊢
  have hc : c.errors = [] := List.reverse_eq_nil_iff.1 h
  refine ⟨found.filterMap id, Parser.slots_eq_map_some hs hc, ?_, ?_⟩
  · rw [Parsed.program?, if_pos (by rw [h]; rfl)]
    rfl
  · have ht := (Parser.slots_reads hs).tallies hc
    rw [Cursor.Tallies, hend] at ht
    exact (ht.trans (add_zero _)).symm

/-- `for (; ; i = a) f(i)`: the update comes last in the program, and the `true` of its loop was
never written. -/
theorem leaves_kept_endless :
    let word (text : String) : Token := ⟨.ident, text, 1⟩
    let sign (s : Symbol) : Token := ⟨.symbol s, "", 1⟩
    let header :=
      [⟨.keyword .forKw, "", 1⟩, sign .leftParen, sign .semicolon, sign .semicolon, word "i",
        sign .assign, word "a", sign .rightParen]
    let tokens := header ++ [word "f", sign .leftParen, word "i", sign .rightParen]
    (parse 0 tokens).errors = [] ∧ omittedTests tokens = 1 ∧
      ∃ program : Program,
        (parse 0 tokens).slots = program.map some ∧
        (parse 0 tokens).program? = some program ∧
        (Stmt.leavesOfAll program : Multiset Word) =
          (↑(["i", "a", "f", "i"].map Word.name) : Multiset Word) +
            Multiset.replicate 1 (.keyword .trueKw) := by
  intro word sign header tokens
  have h : (parse 0 tokens).errors = [] := by with_unfolding_all rfl
  exact ⟨h, rfl, leaves_kept 0 tokens h⟩

end Jal
