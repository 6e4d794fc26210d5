import Jal.Diagnostic
import Jal.Proofs.Grammar.Clauses
import Jal.Proofs.Program.Lines
import Jal.Proofs.Token.Segmentation

namespace Jal

variable {tokens : List Token} {whole : Passage}

namespace Cursor

variable {c d c' : Cursor}

theorem Advances.step (h : c.advance.Advances d) : c.Advances d := c.advances_advance.trans h

theorem Advances.advance (h : c.Advances d) : c.Advances d.advance := h.trans d.advances_advance

theorem Advances.fresh (h : c.Advances d) : c.Advances d.nextFresh :=
  ⟨h.rest, h.errors, Nat.le_succ_of_le h.nextId⟩

theorem Advances.skips (h : c.Advances d) (hs : d.Skips c') : c.Advances c' := h.trans hs.advances

/-- The cursor stands somewhere in the tokens, and nothing has been reported so far. -/
structure Amid (tokens : List Token) (c : Cursor) : Prop where
  rest : c.rest <:+: tokens
  errors : c.errors = []

/-- Errors are never taken back: between two cursors without errors there are none. -/
theorem Amid.between (hc : c.Amid tokens) (hc' : c'.Amid tokens) (h : c.Advances d)
    (h' : d.Advances c') : d.Amid tokens := by
  refine ⟨h.rest.isInfix.trans hc.rest, ?_⟩
  have hs := h'.errors
  rw [hc'.errors] at hs
  exact List.suffix_nil.1 hs

theorem Amid.advance (hc : c.Amid tokens) : c.advance.Amid tokens :=
  ⟨c.advances_advance.rest.isInfix.trans hc.rest, by rw [errors_advance, hc.errors]⟩

theorem Amid.skips (hc : c.Amid tokens) (hs : c.Skips d) : d.Amid tokens :=
  ⟨hs.advances.rest.isInfix.trans hc.rest, by rw [hs.errors, hc.errors]⟩

theorem Amid.hasLine (hc : c.Amid tokens) (hk : c.peek.kind ≠ .eof) :
    HasLine tokens c.peek.line := by
  refine ⟨c.peek, hc.rest.subset ?_, rfl⟩
  rw [rest_eq_of_peek hk]
  exact List.mem_cons_self

theorem Amid.hasLine_of_kind (hc : c.Amid tokens) {kind : TokenKind} (hk : c.peek.kind = kind)
    (hne : kind ≠ .eof) : HasLine tokens c.peek.line :=
  hc.hasLine (hk ▸ hne)

end Cursor

open Cursor

theorem Reads.advances {p : Phrase} {c c' : Cursor} (h : Reads p c c') : c.Advances c' := by
  induction h with
  | literal => exact advances_advance _
  | use | selfRef => exact (advances_advance _).fresh
  | superRef => exact (advances_advance _).advance.advance.fresh
  | emptyArray => exact (advances_advance _).advance
  | grouping _ _ _ ih | array _ _ _ ih => exact ih.step.advance
  | unary _ _ ih => exact ih.step
  | emptyCall _ _ _ ih | get _ _ _ ih => exact ih.advance.advance
  | call _ _ _ _ ih ih' | index _ _ _ _ ih ih' => exact (ih.trans ih'.step).advance
  | binary _ _ _ _ ih ih' | assign _ _ _ _ ih ih' | more _ _ _ ih ih' => exact ih.trans ih'.step
  | misassign _ _ _ _ ih ih' => exact (ih.trans ih'.step).trans (advances_withError _ _)
  | tighter _ _ ih | one _ ih => exact ih

def Phrase.Lined (tokens : List Token) (whole : Passage) : Phrase → Prop
  | expr _ e => e.Lined tokens whole
  | list es => Expr.AllLined tokens whole es

theorem lined_of_operator {k : Nat} {level : Parser.Level} {t : Token} {combine : Parser.Combine}
    (hk : Parser.levels[k]? = some level) (h : level t = some combine) {left right : Expr}
    (ht : HasLine tokens t.line) (hl : left.Lined tokens whole) (hr : right.Lined tokens whole) :
    (combine left right).Lined tokens whole := by
  rcases operator_cases hk h with ⟨op, -, -, rfl⟩ | ⟨op, -, -, rfl⟩
  · exact ⟨hl, hr⟩
  · exact ⟨ht, hl, hr⟩

theorem Reads.lined {p : Phrase} {c c' : Cursor} (h : Reads p c c') (hc : c.Amid tokens)
    (hc' : c'.Amid tokens) (hw : whole.Includes (.phrase p c c')) : p.Lined tokens whole := by
  induction h with
  | literal => trivial
  | use hk | selfRef hk => exact hc.hasLine_of_kind hk nofun
  | superRef hk hd hn =>
    exact ⟨hc.hasLine_of_kind hk nofun, hc.advance.advance.hasLine_of_kind hn nofun⟩
  | emptyArray => trivial
  | grouping hl he hr ih =>
    have hd := hc.between hc' he.advances.step (advances_advance _)
    exact ih hc.advance hd (hw.tail (.grouping hl he hr))
  | array hl he hr ih =>
    have hd := hc.between hc' he.advances.step (advances_advance _)
    exact ih hc.advance hd (hw.tail (.array hl he hr))
  | unary ho he ih =>
    exact ⟨hc.hasLine (word_of_unaryOp? ho).1, ih hc.advance hc' (hw.tail (.unary ho he))⟩
  | emptyCall hf hl hr ih =>
    have hd := hc.between hc' hf.advances (advances_advance _).advance
    have hclose := Passage.Closes.of_includes hw hf.advances.advance hr
    have hcallee := ih hc hd (hw.tail (.emptyCall hf hl hr))
    exact ⟨⟨hd.advance.hasLine_of_kind hr nofun, hclose⟩, hcallee, trivial⟩
  | call hf hl he hr ih ih' =>
    have hd := hc.between hc' hf.advances he.advances.step.advance
    have hd' := hc.between hc' (hf.advances.trans he.advances.step) (advances_advance _)
    have hclose := Passage.Closes.of_includes hw (hf.advances.trans he.advances.step) hr
    have hcallee := ih hc hd (hw.tail (.call hf hl he hr (.head _)))
    have harguments := ih' hd.advance hd' (hw.tail (.call hf hl he hr (.tail _ (.head _))))
    exact ⟨⟨hd'.hasLine_of_kind hr nofun, hclose⟩, hcallee, harguments⟩
  | index he hl hi hr ih ih' =>
    have hd := hc.between hc' he.advances hi.advances.step.advance
    have hd' := hc.between hc' (he.advances.trans hi.advances.step) (advances_advance _)
    have hobject := ih hc hd (hw.tail (.index he hl hi hr (.head _)))
    have hposition := ih' hd.advance hd' (hw.tail (.index he hl hi hr (.tail _ (.head _))))
    exact ⟨hd.hasLine_of_kind hl nofun, hobject, hposition⟩
  | get he hdot hn ih =>
    have hd := hc.between hc' he.advances (advances_advance _).advance
    exact ⟨hd.advance.hasLine_of_kind hn nofun, ih hc hd (hw.tail (.get he hdot hn))⟩
  | binary hk hl ho hr ih ih' =>
    have hd := hc.between hc' hl.advances hr.advances.step
    have hline := hd.hasLine (word_of_operator hk ho).1
    have hleft := ih hc hd (hw.tail (.binary hk hl ho hr (.head _)))
    have hright := ih' hd.advance hc' (hw.tail (.binary hk hl ho hr (.tail _ (.head _))))
    exact lined_of_operator hk ho hline hleft hright
  | assign ht ho hv he ih ih' =>
    have hd := hc.between hc' ht.advances hv.advances.step
    have htarget := ih hc hd (hw.tail (.assign ht ho hv he (.head _)))
    have hvalue := ih' hd.advance hc' (hw.tail (.assign ht ho hv he (.tail _ (.head _))))
    rcases assignTo_cases he with ⟨ref, rfl, rfl⟩ | ⟨o, n, rfl, rfl⟩ | ⟨o, l, i, rfl, rfl⟩
    · exact ⟨htarget, hvalue⟩
    · exact ⟨htarget, hvalue⟩
    · exact ⟨htarget, hvalue⟩
  | misassign => exact absurd hc'.errors (List.cons_ne_nil _ _)
  | tighter hk he ih => exact ih hc hc' (hw.tail (.tighter hk he))
  | one he ih => exact ⟨ih hc hc' (hw.tail (.one he)), trivial⟩
  | more he hcm hes ih ih' =>
    have hd := hc.between hc' he.advances hes.advances.step
    have hfirst := ih hc hd (hw.tail (.more he hcm hes (.head _)))
    exact ⟨hfirst, ih' hd.advance hc' (hw.tail (.more he hcm hes (.tail _ (.head _))))⟩

theorem ReadsLet.advances {s : Stmt} {c c' : Cursor} (h : ReadsLet s c c') : c.Advances c' := by
  cases h with
  | bare hn => exact advances_advance _
  | init hn ha he => exact he.advances.step.step

theorem ReadsLet.lined {s : Stmt} {c c' : Cursor} (h : ReadsLet s c c') (hc : c.Amid tokens)
    (hc' : c'.Amid tokens) (hw : whole.Includes (.letVar s c c')) : s.Lined tokens whole := by
  cases h with
  | bare hn => trivial
  | init hn ha he => exact he.lined hc.advance.advance hc' (hw.tail (.letInit hn ha he))

theorem ReadsOption.advances {e : Option Expr} {c c' : Cursor} (h : ReadsOption e c c') :
    c.Advances c' := by
  cases h with
  | none => exact .refl _
  | some he => exact he.advances

theorem ReadsOption.lined {e : Option Expr} {c c' : Cursor} (h : ReadsOption e c c')
    (hc : c.Amid tokens) (hc' : c'.Amid tokens) (hw : whole.Includes (.optional e c c')) :
    Expr.OptionLined tokens whole e := by
  cases h with
  | none => trivial
  | some he => exact he.lined hc hc' (hw.tail (.optional he))

theorem ReadsInit.advances {s : Option Stmt} {c c' : Cursor} (h : ReadsInit s c c') :
    c.Advances c' := by
  cases h with
  | none hs => exact advances_advance _
  | letVar hk hl hs => exact hl.advances.step.advance
  | expr he hs => exact he.advances.advance

theorem ReadsInit.lined {s : Option Stmt} {c c' : Cursor} (h : ReadsInit s c c')
    (hc : c.Amid tokens) (hc' : c'.Amid tokens) (hw : whole.Includes (.init s c c')) :
    ∀ init ∈ s, init.Lined tokens whole := by
  cases h with
  | none hs => nofun
  | letVar hk hl hs =>
    have hd := hc.between hc' hl.advances.step (advances_advance _)
    have hlet := hl.lined hc.advance hd (hw.tail (.initLet hk hl hs))
    exact fun init hi => Option.some.inj hi ▸ hlet
  | expr he hs =>
    have hd := hc.between hc' he.advances (advances_advance _)
    have hexpr := he.lined hc hd (hw.tail (.initExpr he hs))
    exact fun init hi => Option.some.inj hi ▸ hexpr

theorem ReadsNames.advances {names : List Name} {c c' : Cursor} (h : ReadsNames names c c') :
    c.Advances c' := by
  induction h with
  | none => exact .refl _
  | one hn => exact advances_advance _
  | more hn hc hs ih => exact ih.step.step

theorem ReadsSuperclass.advances {parent : Option Reference} {c c' : Cursor}
    (h : ReadsSuperclass parent c c') : c.Advances c' := by
  cases h with
  | none => exact .refl _
  | some hk hn => exact (advances_advance _).advance.fresh

theorem ReadsSuperclass.lined {parent : Option Reference} {c c' : Cursor}
    (h : ReadsSuperclass parent c c') (hc : c.Amid tokens) :
    ∀ ref ∈ parent, HasLine tokens ref.name.line := by
  cases h with
  | none => nofun
  | some hk hn => exact fun ref hr => Option.some.inj hr ▸ hc.advance.hasLine_of_kind hn nofun

theorem lined_forLoop {init : Option Stmt} {test update : Option Expr} {body : Stmt}
    (hi : ∀ s ∈ init, s.Lined tokens whole) (ht : Expr.OptionLined tokens whole test)
    (hu : Expr.OptionLined tokens whole update) (hb : body.Lined tokens whole) :
    (Parser.forLoop init test update body).Lined tokens whole := by
  have htest : (test.getD (.literal (.bool true))).Lined tokens whole := by
    cases test with
    | none => trivial
    | some e => exact ht
  have hloop : (Parser.forLoop none test update body).Lined tokens whole := by
    cases update with
    | none => exact ⟨htest, hb⟩
    | some e => exact ⟨htest, hb, hu, trivial⟩
  cases init with
  | none => exact hloop
  | some s => exact ⟨hi s rfl, hloop, trivial⟩

theorem ReadsClause.advances {p : Clause} {c c' : Cursor} (h : ReadsClause p c c') :
    c.Advances c' := by
  induction h with
  | expr he ht => exact he.advances.skips ht
  | letVar hk hs ht => exact hs.advances.step.skips ht
  | block hl hb hr ht ih => exact ih.step.advance.skips ht
  | ifThen hk ht hd hs hc hn ih => exact (ht.advances.step.advance.skips hs).trans ih
  | ifElse hk ht hd hs hc hn hs' ha ih ih' =>
    exact (((ht.advances.step.advance.skips hs).trans ih).advance.skips hs').trans ih'
  | whileDo hk ht hd hs hb ih | times hk ht hd hs hb ih =>
    exact (ht.advances.step.advance.skips hs).trans ih
  | forLoop hk hl hi ht hs hu hr hs' hb ih =>
    have hclauses := (hi.advances.step.step.trans ht.advances).trans hu.advances.step
    exact (hclauses.advance.skips hs').trans ih
  | breakLoop hk ht => exact (advances_advance _).skips ht
  | returnWith hk hv ht => exact hv.advances.step.skips ht
  | define hk hr ih => exact ih.step
  | classDecl hk hn hs hl hm hr ht ih =>
    exact (hs.advances.step.step.trans ih.step).advance.skips ht
  | noItems hs | noMethods hs => exact hs.advances
  | item hs hi hr ih ih' => exact (hs.advances.trans ih).trans ih'
  | failed hs ha he hr ih => exact (hs.advances.trans ha).trans ih
  | routine hn hl hp hr hb hbody he ht ih =>
    exact (hp.advances.step.step.trans ih.step.step).advance.skips ht
  | method hs hk hm hr ih ih' => exact (hs.advances.trans ih.step).trans ih'

def Clause.Lined (tokens : List Token) (whole : Passage) : Clause → Prop
  | stmt _ s => s.Lined tokens whole
  | items ss => Stmt.AllLined tokens whole ss
  | routine r => Stmt.RoutineLined tokens whole r
  | methods rs => Stmt.MethodsLined tokens whole rs

theorem ReadsClause.lined {p : Clause} {c c' : Cursor} (h : ReadsClause p c c')
    (hc : c.Amid tokens) (hc' : c'.Amid tokens) (hw : whole.Includes (.clause p c c')) :
    p.Lined tokens whole := by
  induction h with
  | expr he ht =>
    exact he.lined hc (hc.between hc' he.advances ht.advances) (hw.tail (.expr he ht))
  | letVar hk hs ht =>
    have hd := hc.between hc' hs.advances.step ht.advances
    exact hs.lined hc.advance hd (hw.tail (.letVar hk hs ht))
  | block hl hb hr ht ih =>
    have hd := hc.between hc' hb.advances.step ((advances_advance _).skips ht)
    exact ih hc.advance hd (hw.tail (.block hl hb hr ht))
  | ifThen hk ht hd hs hcon hn ih =>
    have hdone := ((advances_advance _).skips hs).trans hcon.advances
    have ha := hc.between hc' ht.advances.step hdone
    have htest := ht.lined hc.advance ha (hw.tail (.ifThen hk ht hd hs hcon hn (.head _)))
    have hpart := hw.tail (.ifThen hk ht hd hs hcon hn (.tail _ (.head _)))
    exact ⟨htest, ih (ha.advance.skips hs) hc' hpart⟩
  | ifElse hk ht hd hs hcon hn hs' halt ih ih' =>
    have halternative := ((advances_advance _).skips hs').trans halt.advances
    have hconsequence := ((advances_advance _).skips hs).trans hcon.advances
    have ha := hc.between hc' ht.advances.step (hconsequence.trans halternative)
    have hb := hc.between hc' (ht.advances.step.trans hconsequence) halternative
    have hpart {part : Passage} (hp) : whole.Includes part :=
      hw.tail (.ifElse hk ht hd hs hcon hn hs' halt hp)
    exact ⟨ht.lined hc.advance ha (hpart (.head _)),
      ih (ha.advance.skips hs) hb (hpart (.tail _ (.head _))),
      ih' (hb.advance.skips hs') hc' (hpart (.tail _ (.tail _ (.head _))))⟩
  | whileDo hk ht hd hs hb ih =>
    have ha := hc.between hc' ht.advances.step (((advances_advance _).skips hs).trans hb.advances)
    have htest := ht.lined hc.advance ha (hw.tail (.whileDo hk ht hd hs hb (.head _)))
    have hpart := hw.tail (.whileDo hk ht hd hs hb (.tail _ (.head _)))
    exact ⟨htest, ih (ha.advance.skips hs) hc' hpart⟩
  | times hk ht hd hs hb ih =>
    have ha := hc.between hc' ht.advances.step (((advances_advance _).skips hs).trans hb.advances)
    have hcount := ht.lined hc.advance ha (hw.tail (.times hk ht hd hs hb (.head _)))
    have hpart := hw.tail (.times hk ht hd hs hb (.tail _ (.head _)))
    exact ⟨hc.hasLine_of_kind hk nofun, hcount, ih (ha.advance.skips hs) hc' hpart⟩
  | forLoop hk hl hi ht hs hu hr hs' hb ih =>
    -- the cursors after each clause, from the last one backwards
    have hbody := ((advances_advance _).skips hs').trans hb.advances
    have hupdate := hu.advances.step.trans hbody
    have hinit := hi.advances.step.step
    have hd := hc.between hc' hinit (ht.advances.trans hupdate)
    have hb' := hc.between hc' (hinit.trans ht.advances) hupdate
    have hd' := hc.between hc' ((hinit.trans ht.advances).trans hu.advances.step) hbody
    have hpart {part : Passage} (hp) : whole.Includes part :=
      hw.tail (.forLoop hk hl hi ht hs hu hr hs' hb hp)
    exact lined_forLoop (hi.lined hc.advance.advance hd (hpart (.head _)))
      (ht.lined hd hb' (hpart (.tail _ (.head _))))
      (hu.lined hb'.advance hd' (hpart (.tail _ (.tail _ (.head _)))))
      (ih (hd'.advance.skips hs') hc' (hpart (.tail _ (.tail _ (.tail _ (.head _))))))
  | breakLoop hk ht => exact hc.hasLine_of_kind hk nofun
  | returnWith hk hv ht =>
    have hd := hc.between hc' hv.advances.step ht.advances
    exact hv.lined hc.advance hd (hw.tail (.returnWith hk hv ht))
  | define hk hr ih => exact ih hc.advance hc' (hw.tail (.define hk hr))
  | classDecl hk hn hs hl hm hr ht ih =>
    have hparent := hs.advances.step.step
    have hrest := (advances_advance _).skips ht
    have hd := hc.between hc' hparent (hm.advances.step.trans hrest)
    have hd' := hc.between hc' (hparent.trans hm.advances.step) hrest
    have hmethods := ih hd.advance hd' (hw.tail (.classDecl hk hn hs hl hm hr ht))
    exact ⟨hs.lined hc.advance.advance, hmethods⟩
  | noItems hs | noMethods hs => trivial
  | item hs hi hr ih ih' =>
    have hd := hc.between hc' (hs.advances.trans hi.advances) hr.advances
    have hfirst := ih (hc.skips hs) hd (hw.tail (.item hs hi hr (.head _)))
    exact ⟨hfirst, ih' hd hc' (hw.tail (.item hs hi hr (.tail _ (.head _))))⟩
  | failed hs ha he hr ih =>
    -- where a declaration could not be read an error was reported
    have hd := hc.between hc' (hs.advances.trans ha) hr.advances
    rw [hd.errors] at he
    exact absurd he (Nat.not_lt_zero _)
  | routine hn hl hp hr hb hbody he ht ih =>
    have hd := hc.between hc' hp.advances.step.step
      (hbody.advances.step.step.trans ((advances_advance _).skips ht))
    have hd' := hc.between hc' (hp.advances.step.step.trans hbody.advances.step.step)
      ((advances_advance _).skips ht)
    exact ih hd.advance.advance hd' (hw.tail (.routine hn hl hp hr hb hbody he ht))
  | method hs hk hm hr ih ih' =>
    have hd := hc.between hc' (hs.advances.trans hm.advances.step) hr.advances
    have hfirst := ih (hc.skips hs).advance hd (hw.tail (.method hs hk hm hr (.head _)))
    exact ⟨hfirst, ih' hd hc' (hw.tail (.method hs hk hm hr (.tail _ (.head _))))⟩

theorem ReadsClause.lined_start {firstId : Nat} {ss : List Stmt} {last : Cursor}
    (h : ReadsClause (.items ss) (start firstId tokens) last) (he : last.errors = []) :
    Stmt.AllLined tokens (.clause (.items ss) (start firstId tokens) last) ss := by
  have hstart : (start firstId tokens).Amid tokens := ⟨(List.takeWhile_prefix _).isInfix, rfl⟩
  exact h.lined hstart ⟨h.advances.rest.isInfix.trans hstart.rest, he⟩ .refl

theorem Parsed.reads {firstId : Nat} (h : (parse firstId tokens).errors = []) :
    ∃ last, ReadsClause (.items (parse firstId tokens).survivors) (start firstId tokens) last ∧
      last.errors = [] := by
  unfold parse at h ⊢
  dsimp only at h ⊢
  split at h
  · rename_i found c hs
    exact ⟨c, Parser.slots_reads hs, List.reverse_eq_nil_iff.1 h⟩
  · simp at h

theorem reads_of_check {firstId : Nat} {source : String} {checked : Checked}
    (h : (check firstId source).1 = .ok checked) :
    ∃ last, ReadsClause (.items checked.program) (start firstId (scan source).tokens) last ∧
      last.errors = [] := by
  simp only [check] at h
  split at h
  · rename_i hnone
    split at h
    · obtain rfl := Except.ok.inj h
      simp only [List.isEmpty_iff, List.append_eq_nil_iff, List.map_eq_nil_iff] at hnone
      exact Parsed.reads hnone.2
    · cases h
  · cases h

/-- The lines of the tokens are those of the text. -/
theorem line_of_scan {source : String} {line : Nat} (h : HasLine (scan source).tokens line) :
    1 ≤ line ∧ line ≤ 1 + source.toList.count '\n' := by
  obtain ⟨t, ht, rfl⟩ := h
  rw [scan_eq] at ht
  rcases List.mem_append.1 ht with ht | ht
  · rw [← tokens_piecesAfter] at ht
    obtain ⟨p, hp, hpt⟩ := List.mem_filterMap.1 ht
    obtain ⟨before, after, hsplit⟩ := List.append_of_mem hp
    have htext := text_piecesAfter none 1 source.toList
    rw [hsplit, Piece.text, List.flatMap_append, ← Piece.text] at htext
    have hfits := fits_piecesAfter source.toList [] before after p hsplit
    cases hfits with
    | token =>
      obtain rfl := Option.some.inj hpt
      simp only [Piece.lineAfter, List.nil_append]
      rw [← htext, List.count_append]
      omega
    | _ => cases hpt
  · rw [List.mem_singleton.1 ht]
    exact ⟨Nat.le_add_right 1 _, Nat.le_refl _⟩

end Jal
