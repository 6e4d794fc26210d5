import Jal.Proofs.Program.Words
import Jal.Proofs.Grammar.Bounds
import Jal.Proofs.Grammar.Clauses

namespace Jal

mutual

def Stmt.within : Stmt → List Stmt
  | .block body => .block body :: Stmt.withinAll body
  | .ifThen test consequence none => .ifThen test consequence none :: consequence.within
  | .ifThen test consequence (some alternative) =>
    .ifThen test consequence (some alternative) :: consequence.within ++ alternative.within
  | .whileDo test body => .whileDo test body :: body.within
  | .times line count body => .times line count body :: body.within
  | .define routine => .define routine :: Stmt.withinRoutine routine
  | .classDecl name superclass methods =>
    .classDecl name superclass methods :: Stmt.withinMethods methods
  | s => [s]

def Stmt.withinAll : List Stmt → List Stmt
  | [] => []
  | s :: rest => s.within ++ Stmt.withinAll rest

def Stmt.withinRoutine : Routine Stmt → List Stmt
  | ⟨_, _, body⟩ => Stmt.withinAll body

def Stmt.withinMethods : List (Routine Stmt) → List Stmt
  | [] => []
  | r :: rest => Stmt.withinRoutine r ++ Stmt.withinMethods rest

end

/-- The branches of an `if` and the body of a loop declare nothing, and an `else` comes after a
consequence that leaves no `if` open. -/
def Stmt.Nests : Stmt → Prop
  | .ifThen _ consequence none => consequence.isDeclaration = false
  | .ifThen _ consequence (some alternative) =>
    consequence.isDeclaration = false ∧ consequence.endsInOpenIf = false ∧
      alternative.isDeclaration = false
  | .whileDo _ body => body.isDeclaration = false
  | .times _ _ body => body.isDeclaration = false
  | _ => True

/-- Everything in the clause nests. A statement that stands as a body declares nothing, and one
that ends in an open `if` is not followed by an `else` at the cursor. -/
def Clause.Nests (c : Cursor) : Clause → Prop
  | stmt place s =>
    (∀ t ∈ s.within, t.Nests) ∧ (place ≠ .declaration → s.isDeclaration = false) ∧
      (s.endsInOpenIf = true → c.peek.kind ≠ .keyword .elseKw)
  | items ss => ∀ t ∈ Stmt.withinAll ss, t.Nests
  | routine r => ∀ t ∈ Stmt.withinRoutine r, t.Nests
  | methods rs => ∀ t ∈ Stmt.withinMethods rs, t.Nests

variable {c c' : Cursor}

theorem Clause.Nests.isDeclaration {f : Bool} {s : Stmt} (h : Clause.Nests c (.stmt (.body f) s)) :
    s.isDeclaration = false := h.2.1 nofun

/-- A statement without parts that are statements. -/
theorem Clause.nests_leaf {place : Place} {s : Stmt} (hw : s.within = [s]) (hn : s.Nests)
    (hd : place ≠ .declaration → s.isDeclaration = false) (ho : s.endsInOpenIf = false) :
    Clause.Nests c (.stmt place s) := by
  refine ⟨?_, hd, fun h => absurd h (ho ▸ Bool.false_ne_true)⟩
  rw [hw]
  exact List.forall_mem_singleton.2 hn

theorem ReadsLet.nests {s : Stmt} (h : ReadsLet s c c') (d : Cursor) :
    Clause.Nests d (.stmt .declaration s) := by
  cases h with
  | bare hn => exact Clause.nests_leaf rfl trivial (absurd rfl) rfl
  | init hn ha he => exact Clause.nests_leaf rfl trivial (absurd rfl) rfl

theorem ReadsInit.nests {init : Option Stmt} (h : ReadsInit init c c') :
    ∀ s ∈ init, ∀ t ∈ s.within, t.Nests := by
  cases h with
  | none hs => exact nofun
  | letVar hk hl hs =>
    rintro _ ⟨⟩
    exact (hl.nests c).1
  | expr he hs =>
    rintro _ ⟨⟩
    exact List.forall_mem_singleton.2 trivial

/-- Only a `for` without a first clause and without an update can end in an open `if`: otherwise
it is a block, or its loop has one for its body. -/
theorem Clause.nests_forLoop {place : Place} {f : Bool} {init : Option Stmt}
    {test update : Option Expr} {body : Stmt} (hi : ∀ s ∈ init, ∀ t ∈ s.within, t.Nests)
    (hb : Clause.Nests c (.stmt (.body f) body)) :
    Clause.Nests c (.stmt place (Parser.forLoop init test update body)) := by
  have loop : Clause.Nests c (.stmt place (Parser.forLoop none test update body)) := by
    cases update with
    | none => exact ⟨List.forall_mem_cons.2 ⟨hb.isDeclaration, hb.1⟩, fun _ => rfl, hb.2.2⟩
    | some e =>
      have items : ∀ t ∈ Stmt.withinAll [body, .expr e], t.Nests :=
        List.forall_mem_append.2 ⟨hb.1, List.forall_mem_singleton.2 trivial⟩
      exact ⟨List.forall_mem_cons.2 ⟨rfl, List.forall_mem_cons.2 ⟨trivial, items⟩⟩, fun _ => rfl,
        nofun⟩
  cases init with
  | none => exact loop
  | some s =>
    have items : ∀ t ∈ Stmt.withinAll [s, Parser.forLoop none test update body], t.Nests :=
      List.forall_mem_append.2 ⟨hi s rfl, List.forall_mem_append.2 ⟨loop.1, nofun⟩⟩
    exact ⟨List.forall_mem_cons.2 ⟨trivial, items⟩, fun _ => rfl, nofun⟩

/-- Whatever is read nests, by induction over the reading. -/
theorem ReadsClause.nests {p : Clause} (h : ReadsClause p c c') : p.Nests c' := by
  induction h with
  | expr he ht | breakLoop hk ht | returnWith hk hv ht =>
    exact Clause.nests_leaf rfl trivial (fun _ => rfl) rfl
  | letVar hk hs ht => exact hs.nests _
  | block hl hb hr ht ih => exact ⟨List.forall_mem_cons.2 ⟨trivial, ih⟩, fun _ => rfl, nofun⟩
  | ifThen hk ht hd hs hc hn ih =>
    exact ⟨List.forall_mem_cons.2 ⟨ih.isDeclaration, ih.1⟩, fun _ => rfl, fun _ => hn⟩
  | ifElse hk ht hd hs hc hn hs' ha ih ih' =>
    -- an open `if` in the consequence would have read the `else` that stands there
    have closed := Bool.eq_false_iff.2 fun ho => ih.2.2 ho hn
    refine ⟨List.forall_mem_cons.2 ⟨⟨ih.isDeclaration, closed, ih'.isDeclaration⟩, ?_⟩,
      fun _ => rfl, ih'.2.2⟩
    exact List.forall_mem_append.2 ⟨ih.1, ih'.1⟩
  | whileDo hk ht hd hs hb ih | times hk ht hd hs hb ih =>
    exact ⟨List.forall_mem_cons.2 ⟨ih.isDeclaration, ih.1⟩, fun _ => rfl, ih.2.2⟩
  | forLoop hk hl hi ht hs hu hr hs' hb ih => exact Clause.nests_forLoop hi.nests ih
  | define hk hr ih => exact ⟨List.forall_mem_cons.2 ⟨trivial, ih⟩, absurd rfl, nofun⟩
  | classDecl hk hn hs hl hm hr ht ih =>
    exact ⟨List.forall_mem_cons.2 ⟨trivial, ih⟩, absurd rfl, nofun⟩
  | noItems hs | noMethods hs => exact nofun
  | item hs hi hr ih ih' => exact List.forall_mem_append.2 ⟨ih.1, ih'⟩
  | failed hs ha he hr ih => exact ih
  | routine hn hl hp hr hb hbody he ht ih => exact ih
  | method hs hk hm hr ih ih' => exact List.forall_mem_append.2 ⟨ih, ih'⟩

/-- In what survives of a token list, no branch or body of a loop declares a name where it stands,
and the consequence before an `else` leaves no `if` open that could take it. -/
theorem else_belongs_to_nearest_if (firstId : Nat) (tokens : List Token) :
    ∀ s ∈ Stmt.withinAll (parse firstId tokens).survivors, s.Nests := by
  unfold parse
  dsimp only
  split
  · rename_i found d h
    exact (Parser.slots_reads h).nests
  · exact nofun

/-- After a `let` without a name, `if a then while b do if c then d else e else f`: the first `else`
is taken by the `if` inside the loop, and only the second one by the `if` around it. -/
theorem else_after_loop_nests :
    let word (text : String) : Token := ⟨.ident, text, 1⟩
    let key (k : Keyword) : Token := ⟨.keyword k, "", 1⟩
    let x (id : Nat) (text : String) : Expr := .variable ⟨id, text, 1⟩
    let loop : Stmt :=
      .whileDo (x 1 "b") (.ifThen (x 2 "c") (.expr (x 3 "d")) (some (.expr (x 4 "e"))))
    let s : Stmt := .ifThen (x 0 "a") loop (some (.expr (x 5 "f")))
    let tokens :=
      [key .letKw, ⟨.eol, "", 1⟩, key .ifKw, word "a", key .thenKw, key .whileKw, word "b",
        key .doKw, key .ifKw, word "c", key .thenKw, word "d", key .elseKw, word "e",
        key .elseKw, word "f"]
    s ∈ Stmt.withinAll (parse 0 tokens).survivors ∧ s.Nests := by
  intro word key x loop s tokens
  have hp : (parse 0 tokens).survivors = [s] := by
    let start := Cursor.start 0 tokens
    let missing : ParseError := .expected 1 "variable name" "end of line"
    let after : Cursor := ⟨some .eol, tokens.drop 2, 1, [missing], 0⟩
    let last : Cursor := ⟨some .ident, [], 1, [missing], 6⟩
    let declaration := Parser.recovering (Parser.statement 17 .declaration)
    have skipped : declaration start.skipEols = .ok none after := by with_unfolding_all rfl
    have found : declaration after.skipEols = .ok (some s) last := by
      dsimp only [declaration, after, last, tokens, s, loop, x, key, word]
      with_unfolding_all rfl
    have read : Parser.slots 17 17 start = .ok [none, some s] last :=
      Parser.slots_step nofun skipped (Parser.slots_step nofun found (Parser.slots_stop rfl))
    have hn : start.rest.length + 1 = 17 := rfl
    unfold parse
    dsimp only
    rw [hn, read]
    rfl
  have hs : s ∈ Stmt.withinAll (parse 0 tokens).survivors := by
    rw [hp]
    exact List.mem_cons_self
  exact ⟨hs, else_belongs_to_nearest_if 0 _ s hs⟩

end Jal
