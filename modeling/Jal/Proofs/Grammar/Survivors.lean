import Jal.Diagnostic
import Jal.Proofs.Grammar.Clauses
import Jal.Proofs.Program.Uses
import Jal.Proofs.Token.Segments

namespace Jal

/-- The ids are different from each other and were handed out from `a` up to `b`. -/
structure IdsBetween (a b : Nat) (ids : List Nat) : Prop where
  le : a ≤ b
  nodup : ids.Nodup
  mem : ∀ id ∈ ids, a ≤ id ∧ id < b

namespace IdsBetween

variable {a b d : Nat} {ids ids' : List Nat}

theorem nil (h : a ≤ b) : IdsBetween a b [] := ⟨h, List.nodup_nil, nofun⟩

theorem single (a : Nat) : IdsBetween a (a + 1) [a] := by
  refine ⟨Nat.le_succ a, by simp, ?_⟩
  intro id hid
  rw [List.mem_singleton.1 hid]
  exact ⟨Nat.le_refl a, Nat.lt_succ_self a⟩

theorem append (h : IdsBetween a b ids) (h' : IdsBetween b d ids') :
    IdsBetween a d (ids ++ ids') := by
  refine ⟨Nat.le_trans h.le h'.le, ?_, ?_⟩
  · refine List.nodup_append.2 ⟨h.nodup, h'.nodup, ?_⟩
    intro id hid id' hid'
    exact Nat.ne_of_lt (Nat.lt_of_lt_of_le (h.mem id hid).2 (h'.mem id' hid').1)
  · intro id hid
    rcases List.mem_append.1 hid with hid | hid
    · exact ⟨(h.mem id hid).1, Nat.lt_of_lt_of_le (h.mem id hid).2 h'.le⟩
    · exact ⟨Nat.le_trans h.le (h'.mem id hid).1, (h'.mem id hid).2⟩

theorem perm (h : IdsBetween a b ids) (hp : ids.Perm ids') : IdsBetween a b ids' :=
  ⟨h.le, hp.nodup_iff.1 h.nodup, fun id hid => h.mem id (hp.mem_iff.2 hid)⟩

/-- The ids of the later part may stand first. -/
theorem append_swap (h : IdsBetween a b ids) (h' : IdsBetween b d ids') :
    IdsBetween a d (ids' ++ ids) :=
  (h.append h').perm List.perm_append_comm

theorem mono {a' b' : Nat} (h : IdsBetween a b ids) (ha : a' ≤ a) (hb : b ≤ b') :
    IdsBetween a' b' ids :=
  ⟨by have := h.le; omega, h.nodup, fun id hid => by have := h.mem id hid; omega⟩

end IdsBetween

def Cursor.HandsOut (c c' : Cursor) (ids : List Nat) : Prop := IdsBetween c.nextId c'.nextId ids

def Phrase.ids : Phrase → List Nat
  | expr _ e => e.ids
  | list es => Expr.idsOfAll es

theorem ids_of_operator {k : Nat} {level : Parser.Level} {t : Token} {combine : Parser.Combine}
    (hk : Parser.levels[k]? = some level) (h : level t = some combine) (left right : Expr) :
    (combine left right).ids = left.ids ++ right.ids := by
  rcases operator_cases hk h with ⟨op, -, -, rfl⟩ | ⟨op, -, -, rfl⟩ <;> rw [Expr.ids]

theorem Reads.handsOut {p : Phrase} {c c' : Cursor} (h : Reads p c c') :
    c.HandsOut c' p.ids := by
  unfold Cursor.HandsOut
  induction h with
  | literal | emptyArray =>
    simp only [Cursor.nextId_advance]
    exact .nil (Nat.le_refl _)
  | @use c | @selfRef c | @superRef c =>
    simp only [Phrase.ids, Expr.ids, Cursor.nextFresh, Cursor.nextId_advance]
    exact .single c.nextId
  | grouping _ _ _ ih | array _ _ _ ih =>
    rw [Cursor.nextId_advance] at ih ⊢
    exact ih
  | unary _ _ ih =>
    rw [Cursor.nextId_advance] at ih
    exact ih
  | emptyCall _ _ _ ih =>
    rw [Cursor.nextId_advance, Cursor.nextId_advance]
    exact ih.append (.nil (Nat.le_refl _))
  | get _ _ _ ih =>
    rw [Cursor.nextId_advance, Cursor.nextId_advance]
    exact ih
  | call _ _ _ _ ih ih' | index _ _ _ _ ih ih' =>
    rw [Cursor.nextId_advance] at ih' ⊢
    exact ih.append ih'
  | binary hk _ ho _ ih ih' =>
    rw [Cursor.nextId_advance] at ih'
    rw [Phrase.ids, ids_of_operator hk ho]
    exact ih.append ih'
  | assign _ _ _ he ih ih' =>
    rw [Cursor.nextId_advance] at ih'
    -- the resolver goes through the value before the variable or the object
    rcases assignTo_cases he with ⟨ref, rfl, rfl⟩ | ⟨o, n, rfl, rfl⟩ | ⟨o, l, i, rfl, rfl⟩
    · exact ih.append_swap ih'
    · exact ih.append_swap ih'
    · exact ih.append ih'
  | misassign _ _ _ _ ih ih' =>
    rw [Cursor.nextId_advance] at ih'
    -- the value is dropped, and the ids in it belong to nothing
    exact ih.mono (Nat.le_refl _) ih'.le
  | tighter _ _ ih => exact ih
  | one _ ih => exact ih.append (.nil (Nat.le_refl _))
  | more _ _ _ ih ih' =>
    rw [Cursor.nextId_advance] at ih'
    exact ih.append ih'

def Clause.ids : Clause → List Nat
  | stmt _ s => s.ids
  | items ss => Stmt.idsOfAll ss
  | routine r => Stmt.idsOfRoutine r
  | methods rs => Stmt.idsOfMethods rs

theorem Cursor.Skips.handsOut {c d c' : Cursor} {ids : List Nat} (hs : c.Skips d)
    (h : d.HandsOut c' ids) : c.HandsOut c' ids := by
  rwa [HandsOut, hs.nextId] at h

theorem Cursor.HandsOut.skips {c d c' : Cursor} {ids : List Nat} (h : c.HandsOut d ids)
    (hs : d.Skips c') : c.HandsOut c' ids := by
  rwa [HandsOut, ← hs.nextId] at h

theorem Cursor.handsOut_advance_left {c c' : Cursor} {ids : List Nat} :
    c.advance.HandsOut c' ids ↔ c.HandsOut c' ids := by
  rw [HandsOut, nextId_advance, HandsOut]

theorem Cursor.handsOut_advance_right {c c' : Cursor} {ids : List Nat} :
    c.HandsOut c'.advance ids ↔ c.HandsOut c' ids := by
  rw [HandsOut, nextId_advance, HandsOut]

theorem ReadsLet.handsOut {s : Stmt} {c c' : Cursor} (h : ReadsLet s c c') :
    c.HandsOut c' s.ids := by
  cases h with
  | bare hn => exact Cursor.handsOut_advance_right.2 (.nil (Nat.le_refl _))
  | init hn ha he =>
    have h := he.handsOut
    rwa [Cursor.handsOut_advance_left, Cursor.handsOut_advance_left] at h

theorem ReadsOption.handsOut {e : Option Expr} {c c' : Cursor} (h : ReadsOption e c c') :
    c.HandsOut c' (Expr.idsOfOption e) := by
  cases h with
  | none => exact .nil (Nat.le_refl _)
  | some he => exact he.handsOut

def idsOfInit : Option Stmt → List Nat
  | none => []
  | some s => s.ids

theorem ReadsInit.handsOut {s : Option Stmt} {c c' : Cursor} (h : ReadsInit s c c') :
    c.HandsOut c' (idsOfInit s) := by
  cases h with
  | none hs => exact Cursor.handsOut_advance_right.2 (.nil (Nat.le_refl _))
  | letVar hk hl hs =>
    exact Cursor.handsOut_advance_right.2 (Cursor.handsOut_advance_left.1 hl.handsOut)
  | expr he hs => exact Cursor.handsOut_advance_right.2 he.handsOut

theorem ReadsNames.handsOut {names : List Name} {c c' : Cursor} (h : ReadsNames names c c') :
    c.HandsOut c' [] := by
  induction h with
  | none => exact .nil (Nat.le_refl _)
  | one hn => exact Cursor.handsOut_advance_right.2 (.nil (Nat.le_refl _))
  | more hn hc hs ih => rwa [Cursor.handsOut_advance_left, Cursor.handsOut_advance_left] at ih

theorem ReadsSuperclass.handsOut {parent : Option Reference} {c c' : Cursor}
    (h : ReadsSuperclass parent c c') : c.HandsOut c' (parent.toList.map Reference.id) := by
  cases h with
  | none => exact .nil (Nat.le_refl _)
  | some hk hn =>
    simp only [Cursor.HandsOut, Cursor.nextFresh, Cursor.nextId_advance]
    exact .single c.nextId

/-- A `for` is read in another order than its parts are run in. -/
theorem ids_forLoop (init : Option Stmt) (test update : Option Expr) (body : Stmt) :
    (idsOfInit init ++ Expr.idsOfOption test ++ Expr.idsOfOption update ++ body.ids).Perm
      (Parser.forLoop init test update body).ids := by
  have hids : (Parser.forLoop init test update body).ids =
      idsOfInit init ++ (Expr.idsOfOption test ++ (body.ids ++ Expr.idsOfOption update)) := by
    cases init <;> cases test <;> cases update <;>
      simp [Parser.forLoop, Stmt.ids, Stmt.idsOfAll, Expr.ids, Expr.idsOfOption, idsOfInit]
  rw [hids, List.append_assoc, List.append_assoc]
  exact (List.perm_append_comm.append_left _).append_left _

theorem ReadsClause.handsOut {p : Clause} {c c' : Cursor} (h : ReadsClause p c c') :
    c.HandsOut c' p.ids := by
  induction h with
  | expr he ht => exact he.handsOut.skips ht
  | letVar hk hs ht => exact (Cursor.handsOut_advance_left.1 hs.handsOut).skips ht
  | block hl hb hr ht ih =>
    rw [Cursor.handsOut_advance_left, ← Cursor.handsOut_advance_right] at ih
    exact ih.skips ht
  | ifThen hk ht hd hs hc hn ih =>
    have ht := Cursor.handsOut_advance_left.1 ht.handsOut
    exact ht.append (Cursor.handsOut_advance_left.1 (hs.handsOut ih))
  | ifElse hk ht hd hs hc hn hs' ha ih ih' =>
    have ht := Cursor.handsOut_advance_left.1 ht.handsOut
    have hc := Cursor.handsOut_advance_left.1 (hs.handsOut ih)
    exact (ht.append hc).append (Cursor.handsOut_advance_left.1 (hs'.handsOut ih'))
  | whileDo hk ht hd hs hb ih | times hk ht hd hs hb ih =>
    have ht := Cursor.handsOut_advance_left.1 ht.handsOut
    exact ht.append (Cursor.handsOut_advance_left.1 (hs.handsOut ih))
  | forLoop hk hl hi ht hs hu hr hs' hb ih =>
    have hi := hi.handsOut
    rw [Cursor.handsOut_advance_left, Cursor.handsOut_advance_left] at hi
    have hu := Cursor.handsOut_advance_left.1 hu.handsOut
    have hb := Cursor.handsOut_advance_left.1 (hs'.handsOut ih)
    exact (((hi.append ht.handsOut).append hu).append hb).perm (ids_forLoop _ _ _ _)
  | breakLoop hk ht =>
    exact Cursor.HandsOut.skips (Cursor.handsOut_advance_right.2 (.nil (Nat.le_refl _))) ht
  | returnWith hk hv ht => exact (Cursor.handsOut_advance_left.1 hv.handsOut).skips ht
  | define hk hr ih => exact Cursor.handsOut_advance_left.1 ih
  | classDecl hk hn hs hl hm hr ht ih =>
    have hs := hs.handsOut
    rw [Cursor.handsOut_advance_left, Cursor.handsOut_advance_left] at hs
    rw [Cursor.handsOut_advance_left, ← Cursor.handsOut_advance_right] at ih
    exact Cursor.HandsOut.skips (hs.append ih) ht
  | noItems hs | noMethods hs => exact Cursor.HandsOut.skips (.nil (Nat.le_refl _)) hs
  | item hs hi hr ih ih' => exact hs.handsOut (ih.append ih')
  -- what could not be read may have used up ids before it failed
  | failed hs ha he hr ih => exact hs.handsOut (ih.mono ha.nextId (Nat.le_refl _))
  | routine hn hl hp hr hb hbody he ht ih =>
    have hp := hp.handsOut
    rw [Cursor.handsOut_advance_left, Cursor.handsOut_advance_left] at hp
    rw [Cursor.handsOut_advance_left, Cursor.handsOut_advance_left,
      ← Cursor.handsOut_advance_right] at ih
    exact Cursor.HandsOut.skips (hp.append ih) ht
  | method hs hk hm hr ih ih' =>
    exact hs.handsOut ((Cursor.handsOut_advance_left.1 ih).append ih')

namespace Parsed

/-- The references that survive a parse have ids of their own, all handed out by it. -/
theorem ids_between (firstId : Nat) (tokens : List Token) :
    IdsBetween firstId (parse firstId tokens).nextId
      (Stmt.idsOfAll (parse firstId tokens).survivors) := by
  unfold parse
  dsimp only
  split
  · rename_i found c h
    exact (Parser.slots_reads h).handsOut
  · rename_i e c h
    exact .nil ((Parser.advancing_slots _ _).of_error h).nextId

end Parsed

namespace Cursor

def PlainAhead (c : Cursor) : Prop := ∀ t ∈ c.rest, t.kind = .ident → IsPlain t.lexeme

theorem Advances.plainAhead {c c' : Cursor} (h : c.Advances c') (hc : c.PlainAhead) :
    c'.PlainAhead := fun t ht => hc t (h.rest.subset ht)

theorem PlainAhead.advance {c : Cursor} (h : c.PlainAhead) : c.advance.PlainAhead :=
  c.advances_advance.plainAhead h

theorem PlainAhead.nextName {c : Cursor} (h : c.PlainAhead) (hn : c.peek.kind = .ident) :
    IsPlain c.nextName.text := by
  have hmem : c.peek ∈ c.rest := by
    rw [rest_eq_of_peek (by rw [hn]; nofun)]
    exact List.mem_cons_self
  exact h _ hmem hn

end Cursor

def Phrase.Proper : Phrase → Prop
  | expr _ e => e.Proper
  | list es => Expr.AllProper es

theorem proper_of_operator {k : Nat} {level : Parser.Level} {t : Token} {combine : Parser.Combine}
    (hk : Parser.levels[k]? = some level) (h : level t = some combine) {left right : Expr}
    (hl : left.Proper) (hr : right.Proper) : (combine left right).Proper := by
  rcases operator_cases hk h with ⟨op, -, -, rfl⟩ | ⟨op, -, -, rfl⟩
  · exact ⟨hl, hr⟩
  · exact ⟨hl, hr⟩

theorem Reads.proper {p : Phrase} {c c' : Cursor} (h : Reads p c c') (hc : c.PlainAhead) :
    p.Proper ∧ c'.PlainAhead := by
  induction h with
  | literal => exact ⟨trivial, hc.advance⟩
  | use hk => exact ⟨hc.nextName hk, hc.advance⟩
  | selfRef hk => exact ⟨trivial, hc.advance⟩
  | superRef hk hd hn => exact ⟨trivial, hc.advance.advance.advance⟩
  | emptyArray hl hr => exact ⟨trivial, hc.advance.advance⟩
  | grouping hl he hr ih | array hl he hr ih =>
    obtain ⟨hp, hd⟩ := ih hc.advance
    exact ⟨hp, hd.advance⟩
  | unary ho he ih => exact ih hc.advance
  | emptyCall hf hl hr ih =>
    obtain ⟨hp, hd⟩ := ih hc
    exact ⟨⟨hp, trivial⟩, hd.advance.advance⟩
  | call hf hl he hr ih ih' | index he hl hi hr ih ih' =>
    obtain ⟨hp, hd⟩ := ih hc
    obtain ⟨hp', hd'⟩ := ih' hd.advance
    exact ⟨⟨hp, hp'⟩, hd'.advance⟩
  | get he hd hn ih =>
    obtain ⟨hp, hd⟩ := ih hc
    exact ⟨hp, hd.advance.advance⟩
  | binary hk hl ho hr ih ih' =>
    obtain ⟨hp, hd⟩ := ih hc
    obtain ⟨hp', hd'⟩ := ih' hd.advance
    exact ⟨proper_of_operator hk ho hp hp', hd'⟩
  | assign ht ho hv he ih ih' =>
    obtain ⟨hp, hd⟩ := ih hc
    obtain ⟨hp', hd'⟩ := ih' hd.advance
    refine ⟨?_, hd'⟩
    rcases assignTo_cases he with ⟨ref, rfl, rfl⟩ | ⟨o, n, rfl, rfl⟩ | ⟨o, l, i, rfl, rfl⟩
    · exact ⟨hp, hp'⟩
    · exact ⟨hp, hp'⟩
    · exact ⟨hp.1, hp.2, hp'⟩
  | misassign ht ho hv he ih ih' =>
    obtain ⟨hp, hd⟩ := ih hc
    exact ⟨hp, (ih' hd.advance).2⟩
  | tighter hk he ih => exact ih hc
  | one he ih =>
    obtain ⟨hp, hd⟩ := ih hc
    exact ⟨⟨hp, trivial⟩, hd⟩
  | more he hcm hes ih ih' =>
    obtain ⟨hp, hd⟩ := ih hc
    obtain ⟨hp', hd'⟩ := ih' hd.advance
    exact ⟨⟨hp, hp'⟩, hd'⟩

theorem ReadsLet.proper {s : Stmt} {c c' : Cursor} (h : ReadsLet s c c') (hc : c.PlainAhead) :
    s.Proper ∧ c'.PlainAhead := by
  cases h with
  | bare hn => exact ⟨⟨hc.nextName hn, trivial⟩, hc.advance⟩
  | init hn ha he =>
    obtain ⟨hp, hd⟩ := he.proper hc.advance.advance
    exact ⟨⟨hc.nextName hn, hp⟩, hd⟩

theorem ReadsOption.proper {e : Option Expr} {c c' : Cursor} (h : ReadsOption e c c')
    (hc : c.PlainAhead) : Expr.OptionProper e ∧ c'.PlainAhead := by
  cases h with
  | none => exact ⟨trivial, hc⟩
  | some he => exact he.proper hc

theorem ReadsInit.proper {s : Option Stmt} {c c' : Cursor} (h : ReadsInit s c c')
    (hc : c.PlainAhead) : (∀ init ∈ s, init.Proper) ∧ c'.PlainAhead := by
  cases h with
  | none hs => exact ⟨nofun, hc.advance⟩
  | letVar hk hl hs =>
    obtain ⟨hp, hd⟩ := hl.proper hc.advance
    exact ⟨fun init hi => Option.some.inj hi ▸ hp, hd.advance⟩
  | expr he hs =>
    obtain ⟨hp, hd⟩ := he.proper hc
    exact ⟨fun init hi => Option.some.inj hi ▸ hp, hd.advance⟩

theorem ReadsNames.proper {names : List Name} {c c' : Cursor} (h : ReadsNames names c c')
    (hc : c.PlainAhead) : (∀ p ∈ names, IsPlain p.text) ∧ c'.PlainAhead := by
  induction h with
  | none => exact ⟨nofun, hc⟩
  | one hn => exact ⟨fun p hp => List.mem_singleton.1 hp ▸ hc.nextName hn, hc.advance⟩
  | more hn hcm hs ih =>
    obtain ⟨hp, hd⟩ := ih hc.advance.advance
    exact ⟨List.forall_mem_cons.2 ⟨hc.nextName hn, hp⟩, hd⟩

theorem ReadsSuperclass.proper {parent : Option Reference} {c c' : Cursor}
    (h : ReadsSuperclass parent c c') (hc : c.PlainAhead) :
    (∀ ref ∈ parent, IsPlain ref.name.text) ∧ c'.PlainAhead := by
  cases h with
  | none => exact ⟨nofun, hc⟩
  | some hk hn =>
    exact ⟨fun ref hr => Option.some.inj hr ▸ hc.advance.nextName hn, hc.advance.advance⟩

theorem proper_forLoop {init : Option Stmt} {test update : Option Expr} {body : Stmt}
    (hi : ∀ s ∈ init, s.Proper) (ht : Expr.OptionProper test) (hu : Expr.OptionProper update)
    (hb : body.Proper) (hd : body.isDeclaration = false) :
    (Parser.forLoop init test update body).Proper ∧
      (Parser.forLoop init test update body).isDeclaration = false := by
  have htest : (test.getD (.literal (.bool true))).Proper := by
    cases test with
    | none => trivial
    | some e => exact ht
  have hloop : ∀ update, Expr.OptionProper update →
      (Parser.forLoop none test update body).Proper := by
    intro update hu
    cases update with
    | none => exact ⟨htest, hd, hb⟩
    -- with an update the body of the loop is a block of the two
    | some e => exact ⟨htest, rfl, hb, hu, trivial⟩
  cases init with
  | none => exact ⟨hloop update hu, rfl⟩
  | some s => exact ⟨⟨hi s rfl, hloop update hu, trivial⟩, rfl⟩

/-- The clause is proper, and a statement that stands as a body declares nothing. -/
def Clause.Proper : Clause → Prop
  | stmt place s => s.Proper ∧ (place ≠ .declaration → s.isDeclaration = false)
  | items ss => Stmt.AllProper ss
  | routine r => Stmt.RoutineProper r
  | methods rs => Stmt.MethodsProper rs

theorem ReadsClause.proper {p : Clause} {c c' : Cursor} (h : ReadsClause p c c')
    (hc : c.PlainAhead) : p.Proper ∧ c'.PlainAhead := by
  have skips {c c' : Cursor} (hs : c.Skips c') (hc : c.PlainAhead) : c'.PlainAhead :=
    hs.advances.plainAhead hc
  have body {f : Bool} {s : Stmt} (h : Clause.Proper (.stmt (.body f) s)) :
      s.isDeclaration = false := h.2 nofun
  induction h with
  | expr he ht =>
    obtain ⟨hp, hd⟩ := he.proper hc
    exact ⟨⟨hp, fun _ => rfl⟩, skips ht hd⟩
  | letVar hk hs ht =>
    obtain ⟨hp, hd⟩ := hs.proper hc.advance
    exact ⟨⟨hp, fun hne => absurd rfl hne⟩, skips ht hd⟩
  | block hl hb hr ht ih =>
    obtain ⟨hp, hd⟩ := ih hc.advance
    exact ⟨⟨hp, fun _ => rfl⟩, skips ht hd.advance⟩
  | ifThen hk ht hd hs hcon hn ih =>
    obtain ⟨hp, hd⟩ := ht.proper hc.advance
    obtain ⟨hp', hd'⟩ := ih (skips hs hd.advance)
    exact ⟨⟨⟨hp, body hp', hp'.1⟩, fun _ => rfl⟩, hd'⟩
  | ifElse hk ht hd hs hcon hn hs' halt ih ih' =>
    obtain ⟨hp, hd⟩ := ht.proper hc.advance
    obtain ⟨hp', hd'⟩ := ih (skips hs hd.advance)
    obtain ⟨hp'', hd''⟩ := ih' (skips hs' hd'.advance)
    exact ⟨⟨⟨hp, body hp', hp'.1, body hp'', hp''.1⟩, fun _ => rfl⟩, hd''⟩
  | whileDo hk ht hd hs hb ih | times hk ht hd hs hb ih =>
    obtain ⟨hp, hd⟩ := ht.proper hc.advance
    obtain ⟨hp', hd'⟩ := ih (skips hs hd.advance)
    exact ⟨⟨⟨hp, body hp', hp'.1⟩, fun _ => rfl⟩, hd'⟩
  | forLoop hk hl hi ht hs hu hr hs' hb ih =>
    obtain ⟨hpi, hci⟩ := hi.proper hc.advance.advance
    obtain ⟨hpt, hct⟩ := ht.proper hci
    obtain ⟨hpu, hcu⟩ := hu.proper hct.advance
    obtain ⟨hpb, hcb⟩ := ih (skips hs' hcu.advance)
    obtain ⟨hp, hd⟩ := proper_forLoop hpi hpt hpu hpb.1 (body hpb)
    exact ⟨⟨hp, fun _ => hd⟩, hcb⟩
  | breakLoop hk ht => exact ⟨⟨trivial, fun _ => rfl⟩, skips ht hc.advance⟩
  | returnWith hk hv ht =>
    obtain ⟨hp, hd⟩ := hv.proper hc.advance
    exact ⟨⟨hp, fun _ => rfl⟩, skips ht hd⟩
  | define hk hr ih =>
    obtain ⟨hp, hd⟩ := ih hc.advance
    exact ⟨⟨hp, fun hne => absurd rfl hne⟩, hd⟩
  | classDecl hk hn hs hl hm hr ht ih =>
    obtain ⟨hps, hcs⟩ := hs.proper hc.advance.advance
    obtain ⟨hpm, hcm⟩ := ih hcs.advance
    exact ⟨⟨⟨hc.advance.nextName hn, hps, hpm⟩, fun hne => absurd rfl hne⟩,
      skips ht hcm.advance⟩
  | noItems hs | noMethods hs => exact ⟨trivial, skips hs hc⟩
  | item hs hi hr ih ih' =>
    obtain ⟨hp, hd⟩ := ih (skips hs hc)
    obtain ⟨hp', hd'⟩ := ih' hd
    exact ⟨⟨hp.1, hp'⟩, hd'⟩
  | failed hs ha he hr ih => exact ih (ha.plainAhead (skips hs hc))
  | routine hn hl hp hr hb hbody he ht ih =>
    obtain ⟨hpp, hcp⟩ := hp.proper hc.advance.advance
    obtain ⟨hpb, hcb⟩ := ih hcp.advance.advance
    exact ⟨⟨hc.nextName hn, hpp, hpb⟩, skips ht hcb.advance⟩
  | method hs hk hm hr ih ih' =>
    obtain ⟨hp, hd⟩ := ih (skips hs hc).advance
    obtain ⟨hp', hd'⟩ := ih' hd
    exact ⟨⟨hp, hp'⟩, hd'⟩

theorem ofWord?_eq_none_of_ident {c : Char} {cs word : List Char}
    (h : (cut c cs).1 = .token .ident word) : Keyword.ofWord? (String.ofList word) = none := by
  -- of all that `cut` tries only a word can be an identifier, and keywords are tried first
  unfold cut at h
  split at h
  · cases h
  · unfold cutOperator at h
    split at h <;> cases h
  · split at h
    · cases h
    split at h
    · cases h
    split at h
    · unfold cutText at h
      split at h <;> cases h
    split at h
    · simp [cutNumber] at h
    split at h
    · simp only [cutWord, Segment.token.injEq] at h
      obtain ⟨hk, rfl⟩ := h
      split at hk
      · cases hk
      · assumption
    · cases h

theorem ofWord?_of_mem_segments {cs word : List Char}
    (h : Segment.token .ident word ∈ segments cs) :
    Keyword.ofWord? (String.ofList word) = none := by
  fun_induction segments cs with
  | case1 => simp at h
  | case2 c cs ih =>
    rcases List.mem_cons.1 h with h | h
    · exact ofWord?_eq_none_of_ident h.symm
    · exact ih h

theorem mem_of_mem_locate {line : Nat} {segs : List Segment} {l : Located}
    (h : l ∈ locate line segs) : l.segment ∈ segs := by
  induction segs generalizing line with
  | nil => simp [locate] at h
  | cons s rest ih =>
    rcases List.mem_cons.1 h with rfl | h
    · exact List.mem_cons_self
    · exact List.mem_cons_of_mem _ (ih h)

/-- An identifier is cut from the text as one. -/
theorem segment_of_mem_tokensAfter {last : Option TokenKind} {ls : List Located} {t : Token}
    (h : t ∈ tokensAfter last ls) (hk : t.kind = .ident) :
    ∃ l ∈ ls, ∃ word, l.segment = .token .ident word ∧ t.lexeme = String.ofList word := by
  fun_induction tokensAfter last ls with
  | case1 => simp at h
  | case2 last line kind lexeme rest ih =>
    rcases List.mem_cons.1 h with rfl | h
    · exact ⟨_, List.mem_cons_self, lexeme, by rw [← hk], rfl⟩
    · obtain ⟨l, hl, hw⟩ := ih h
      exact ⟨l, List.mem_cons_of_mem _ hl, hw⟩
  | case3 last line rest hm ih =>
    rcases List.mem_cons.1 h with rfl | h
    · cases hk
    · obtain ⟨l, hl, hw⟩ := ih h
      exact ⟨l, List.mem_cons_of_mem _ hl, hw⟩
  | case4 last line rest hm ih =>
    obtain ⟨l, hl, hw⟩ := ih h
    exact ⟨l, List.mem_cons_of_mem _ hl, hw⟩
  | case5 last l rest h1 h2 ih =>
    obtain ⟨l, hl, hw⟩ := ih h
    exact ⟨l, List.mem_cons_of_mem _ hl, hw⟩

theorem isPlain_of_scan {source : String} {t : Token} (h : t ∈ (scan source).tokens)
    (hk : t.kind = .ident) : IsPlain t.lexeme := by
  rw [scan_eq] at h
  rcases List.mem_append.1 h with h | h
  · obtain ⟨l, hl, word, hs, hlex⟩ := segment_of_mem_tokensAfter h hk
    have hw := ofWord?_of_mem_segments (hs ▸ mem_of_mem_locate hl)
    rw [← hlex] at hw
    -- `self` and `super` are keywords
    constructor
    · intro he
      rw [he] at hw
      exact absurd hw (by decide)
    · intro he
      rw [he] at hw
      exact absurd hw (by decide)
  · rw [List.mem_singleton.1 h] at hk
    cases hk

namespace Parsed

/-- What survives of a source text is proper. -/
theorem proper_of_scan (firstId : Nat) (source : String) :
    Stmt.AllProper (parse firstId (scan source).tokens).survivors := by
  have hc : (Cursor.start firstId (scan source).tokens).PlainAhead :=
    fun t ht hk => isPlain_of_scan ((List.takeWhile_sublist _).subset ht) hk
  unfold parse
  dsimp only
  split
  · rename_i found c h
    exact ((Parser.slots_reads h).proper hc).1
  · trivial

end Parsed

end Jal
