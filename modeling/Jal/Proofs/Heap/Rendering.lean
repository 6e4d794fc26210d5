import Jal.Heap.Render
import Mathlib.Data.List.Forall2
import Mathlib.Data.List.Perm.Subperm
import Mathlib.Logic.Relation
import Mathlib.Tactic.Choose

namespace Jal

inductive Shown where
  | atom (s : String)
  | cut
  | items (parts : List Shown)
deriving Inhabited

inductive Shown.Kind where
  | atom (s : String)
  | cut
  | items (count : Nat)
deriving Repr, DecidableEq

namespace Shown

mutual

def text : Shown → String
  | atom s => s
  | cut => "[...]"
  | items parts => "[" ++ ", ".intercalate (texts parts) ++ "]"

def texts : List Shown → List String
  | [] => []
  | t :: rest => t.text :: texts rest

end

def kind : Shown → Kind
  | atom s => .atom s
  | cut => .cut
  | items parts => .items parts.length

/-- The part at an address: which item to take, and which one of its items, and so on. -/
def at? (t : Shown) : List Nat → Option Shown
  | [] => some t
  | i :: rest =>
    match t with
    | items parts => parts[i]?.bind (·.at? rest)
    | _ => none

theorem texts_eq_map (parts : List Shown) : texts parts = parts.map text := by
  induction parts with
  | nil => rfl
  | cons t rest ih => rw [texts, ih, List.map_cons]

end Shown

namespace Heap

def atom? (h : Heap) : Value → Option String
  | .none => some "none"
  | .bool b => some (if b then "true" else "false")
  | .number x => some (Number.text x)
  | .text s => some s
  | .array _ => none
  | .native f => some ("<native func " ++ f.name ++ ">")
  | .function c _ => some ("<func " ++ c.name ++ ">")
  | .classValue c => some ("<class " ++ c.name ++ ">")
  | .object i =>
    some ("<instance of " ++ ((h.instance? i).map fun o => o.ofClass.name).getD "" ++ ">")

def at? (h : Heap) (v : Value) : List Nat → Option Value
  | [] => some v
  | i :: rest =>
    match v with
    | .array a => (h.elements a)[i]?.bind (h.at? · rest)
    | _ => none

/-- The arrays around an address of `v`, if those of `outer` are around `v`. -/
def around (h : Heap) (outer : List ArrayId) (v : Value) : List Nat → List ArrayId
  | [] => outer
  | i :: rest =>
    match v with
    | .array a =>
      match (h.elements a)[i]? with
      | some w => h.around (a :: outer) w rest
      | none => outer
    | _ => outer

/-- How a value looks at an address: cut short if it is an array that is also around the address,
and else an array of its elements or the text of an atom. -/
inductive Looks (h : Heap) (outer : List ArrayId) (v : Value) (p : List Nat) :
    Shown.Kind → Prop where
  | cut {a : ArrayId} (hv : h.at? v p = some (.array a)) (ha : a ∈ h.around outer v p) :
      Looks h outer v p .cut
  | items {a : ArrayId} (hv : h.at? v p = some (.array a)) (ha : a ∉ h.around outer v p) :
      Looks h outer v p (.items (h.elements a).size)
  | atom {w : Value} {s : String} (hv : h.at? v p = some w) (hs : h.atom? w = some s) :
      Looks h outer v p (.atom s)

variable {h : Heap} {path : ArrayPath} {outer : List ArrayId} {a : ArrayId} {v w : Value}

theorem outer_suffix_around (outer : List ArrayId) (v : Value) (p : List Nat) :
    outer <:+ h.around outer v p := by
  induction p generalizing outer v with
  | nil => exact List.suffix_refl _
  | cons i rest ih =>
    unfold around
    split
    · split
      · exact (List.suffix_cons _ _).trans (ih _ _)
      · exact List.suffix_refl _
    · exact List.suffix_refl _

/-- An address leads through one array for each of its numbers. -/
theorem length_around {p : List Nat} (hw : h.at? v p = some w) :
    (h.around outer v p).length = outer.length + p.length := by
  induction p generalizing outer v with
  | nil => rfl
  | cons i rest ih =>
    cases v with
    | array a =>
      obtain ⟨u, hu, hw⟩ := Option.bind_eq_some_iff.1 hw
      simp only [around, hu, ih hw, List.length_cons]
      omega
    | _ => cases hw

theorem mem_arrayIds_of_mem (hw : w ∈ h.elements a) : a ∈ h.arrayIds := by
  refine mem_arrayIds ?_
  by_contra hn
  simp [elements, Array.getElem?_eq_none (Nat.le_of_not_lt hn)] at hw

/-- An array that is around something is in the heap. -/
theorem around_subset {p : List Nat} (ho : outer ⊆ h.arrayIds) :
    h.around outer v p ⊆ h.arrayIds := by
  induction p generalizing outer v with
  | nil => exact ho
  | cons i rest ih =>
    unfold around
    split
    · rename_i a
      split
      · rename_i w hw
        exact ih (List.cons_subset.2 ⟨mem_arrayIds_of_mem (Array.mem_of_getElem? hw), ho⟩)
      · exact ho
    · exact ho

theorem looks_cons {i : Nat} {rest : List Nat} {kind : Shown.Kind}
    (hw : (h.elements a)[i]? = some w) :
    h.Looks outer (.array a) (i :: rest) kind ↔ h.Looks (a :: outer) w rest kind := by
  have hat : h.at? (.array a) (i :: rest) = h.at? w rest := by rw [at?, hw, Option.bind_some]
  have har : h.around outer (.array a) (i :: rest) = h.around (a :: outer) w rest := by
    simp only [around, hw]
  constructor
  · intro hl
    cases hl with
    | cut hv ha => exact .cut (hat ▸ hv) (har ▸ ha)
    | items hv ha => exact .items (hat ▸ hv) (har ▸ ha)
    | atom hv hs => exact .atom (hat ▸ hv) hs
  · intro hl
    cases hl with
    | cut hv ha => exact .cut (hat.trans hv) (har ▸ ha)
    | items hv ha => exact .items (hat.trans hv) (har ▸ ha)
    | atom hv hs => exact .atom (hat.trans hv) hs

theorem Looks.exists_at? {p : List Nat} {kind : Shown.Kind} (hl : h.Looks outer v p kind) :
    ∃ w, h.at? v p = some w := by
  cases hl with
  | cut hv | items hv | atom hv => exact ⟨_, hv⟩

theorem renderAll_eq_map (path : ArrayPath) (vs : List Value) :
    h.renderAll path vs = vs.map (h.renderIn path) := by
  induction vs with
  | nil => rw [renderAll, List.map_nil]
  | cons v rest ih => rw [renderAll, ih, List.map_cons]

theorem renderIn_atom {s : String} (hs : h.atom? v = some s) : h.renderIn path v = s := by
  unfold renderIn
  cases v <;> simp_all [atom?]

theorem renderIn_cut (hp : path.contains a.index = true) :
    h.renderIn path (.array a) = "[...]" := by
  rw [renderIn, dif_pos hp]

theorem renderIn_items (hp : ¬path.contains a.index = true) :
    h.renderIn path (.array a) =
      "[" ++ withCommas ((h.elements a).toList.map (h.renderIn (path.insert a.index))) ++ "]" := by
  rw [renderIn, dif_neg hp]
  by_cases ha : a.index < h.arrays.size
  · rw [dif_pos ha, renderAll_eq_map, elements, Array.getElem?_eq_getElem ha, Option.getD_some]
  · rw [dif_neg ha, elements, Array.getElem?_eq_none (Nat.le_of_not_lt ha)]
    rfl

/-- Rendering goes from an array that is not yet on the path to its elements, and nowhere else. -/
theorem render_induction {P : ArrayPath → Value → Prop}
    (atom : ∀ path v s, h.atom? v = some s → P path v)
    (cut : ∀ path a, path.contains a.index = true → P path (.array a))
    (items : ∀ path a, ¬path.contains a.index = true →
      (∀ w ∈ h.elements a, P (path.insert a.index) w) → P path (.array a))
    (path : ArrayPath) (v : Value) : P path v := by
  refine renderIn.induct h P (fun path vs => ∀ v ∈ vs, P path v)
    ?_ ?_ ?_ ?_ ?_ cut ?opened ?missing ?_ ?_ ?_ ?_ ?nil ?cons path v
  case opened =>
    intro path a hp ha ih
    refine items path a hp fun w hw => ih w ?_
    rwa [elements, Array.getElem?_eq_getElem ha, Option.getD_some, ← Array.mem_toList_iff] at hw
  case missing =>
    intro path a hp ha
    refine items path a hp fun w hw => ?_
    rw [elements, Array.getElem?_eq_none (Nat.le_of_not_lt ha)] at hw
    exact absurd hw (Array.not_mem_empty w)
  case nil => exact fun path v hv => absurd hv List.not_mem_nil
  case cons => exact fun path v rest hv hrest => List.forall_mem_cons.2 ⟨hv, hrest⟩
  -- what is left are the kinds of atoms
  all_goals intros; exact atom _ _ _ rfl

/-- The structure shows all there is to see of the value: just the addresses that lead through no
array twice, each as it looks. -/
def Depicts (h : Heap) (outer : List ArrayId) (v : Value) (t : Shown) : Prop :=
  ∀ p kind, (t.at? p).map Shown.kind = some kind ↔
    (h.around outer v p).Nodup ∧ h.Looks outer v p kind

/-- The path holds the arrays of the list, which are all different. -/
def PathOf (path : ArrayPath) (outer : List ArrayId) : Prop :=
  outer.Nodup ∧ ∀ a : ArrayId, path.contains a.index = true ↔ a ∈ outer

theorem contains_insert_iff {b : ArrayId} :
    (path.insert a.index).contains b.index = true ↔ b = a ∨ path.contains b.index = true := by
  rw [Std.TreeSet.contains_insert, Bool.or_eq_true, beq_iff_eq, Nat.compare_eq_eq]
  refine or_congr_left ⟨fun hab => ?_, fun hab => hab ▸ rfl⟩
  cases a
  cases b
  exact congrArg ArrayId.mk hab.symm

theorem PathOf.insert (ho : PathOf path outer) (ha : a ∉ outer) :
    PathOf (path.insert a.index) (a :: outer) := by
  refine ⟨List.nodup_cons.2 ⟨ha, ho.1⟩, fun b => ?_⟩
  rw [contains_insert_iff, ho.2 b, List.mem_cons]

/-- The text of a value as it is made with one stack of the arrays around the place: each array is
pushed before its elements are shown and popped after them. -/
def renderStacked (h : Heap) : Nat → Value → StateT (List ArrayId) Option String
  | 0, _ => failure
  | n + 1, .array a => do
    if (← get).contains a then return "[...]"
    modify (a :: ·)
    let texts ← (h.elements a).toList.mapM (h.renderStacked n)
    modify List.tail
    return "[" ++ withCommas texts ++ "]"
  | _ + 1, v => StateT.lift (h.atom? v)

theorem mapM_of_balanced {f : Value → StateT (List ArrayId) Option String} {g : Value → String}
    {vs : List Value} {stack : List ArrayId} (hf : ∀ v ∈ vs, f v stack = some (g v, stack)) :
    vs.mapM f stack = some (vs.map g, stack) := by
  induction vs with
  | nil => rfl
  | cons v rest ih =>
    obtain ⟨hv, hrest⟩ := List.forall_mem_cons.1 hf
    rw [List.mapM_cons, List.map_cons]
    change (f v stack).bind _ = _
    rw [hv, Option.bind_some]
    change (rest.mapM f stack).bind _ = _
    rw [ih hrest]
    rfl

theorem unvisited_push (hw : w ∈ h.elements a) (ha : a ∉ outer) :
    unvisited h.arrayIds (a :: outer).contains < unvisited h.arrayIds outer.contains := by
  refine unvisited_lt (mem_arrayIds_of_mem hw) ?_ ?_ ?_
  · simpa using ha
  · simp
  · intro b hb
    rw [List.contains_cons, hb, Bool.or_true]

/-- The stack is in the end what it was, and the text is the one that is made by handing the path
down. -/
theorem renderStacked_eq (path : ArrayPath) (v : Value) : ∀ n outer, PathOf path outer →
    unvisited h.arrayIds outer.contains < n →
      h.renderStacked n v outer = some (h.renderIn path v, outer) := by
  induction path, v using render_induction (h := h) with
  | atom path v s hs =>
    intro n outer _ hn
    obtain ⟨n, rfl⟩ := Nat.exists_eq_add_one.2 (Nat.zero_lt_of_lt hn)
    rw [renderIn_atom hs]
    cases v with
    | array a => cases hs
    | _ => cases hs; rfl
  | cut path a hp =>
    intro n outer ho hn
    obtain ⟨n, rfl⟩ := Nat.exists_eq_add_one.2 (Nat.zero_lt_of_lt hn)
    have ha : outer.contains a = true := List.contains_iff_mem.2 ((ho.2 a).1 hp)
    rw [renderIn_cut hp, renderStacked]
    change (if outer.contains a = true then _ else _ : StateT _ _ _) outer = _
    rw [if_pos ha]
    rfl
  | items path a hp ih =>
    intro n outer ho hn
    obtain ⟨n, rfl⟩ := Nat.exists_eq_add_one.2 (Nat.zero_lt_of_lt hn)
    have ha : a ∉ outer := fun ha => hp ((ho.2 a).2 ha)
    have hparts : ∀ w ∈ (h.elements a).toList, h.renderStacked n w (a :: outer) =
        some (h.renderIn (path.insert a.index) w, a :: outer) := by
      intro w hw
      rw [Array.mem_toList_iff] at hw
      have hlt := unvisited_push hw ha
      exact ih w hw n (a :: outer) (ho.insert ha) (by omega)
    rw [renderIn_items hp, renderStacked]
    change (if outer.contains a = true then _ else _ : StateT _ _ _) outer = _
    rw [if_neg (mt List.contains_iff_mem.1 ha)]
    change ((h.elements a).toList.mapM (h.renderStacked n) (a :: outer)).bind _ = _
    rw [mapM_of_balanced hparts]
    rfl

theorem renderStacked_nil (h : Heap) (v : Value) :
    h.renderStacked (h.arrays.size + 1) v [] = some (h.render v, []) := by
  refine renderStacked_eq ∅ v _ [] ⟨List.nodup_nil, fun a => by simp⟩ ?_
  refine Nat.lt_succ_of_le (Nat.le_trans List.countP_le_length ?_)
  simp [arrayIds]

theorem depicts_atom {s : String} (ho : outer.Nodup) (hs : h.atom? v = some s) :
    h.Depicts outer v (.atom s) := by
  rintro (_ | ⟨i, rest⟩) kind
  · refine ⟨fun he => ?_, ?_⟩
    · cases he
      exact ⟨ho, .atom rfl hs⟩
    · rintro ⟨-, hl⟩
      cases hl with
      | cut hv => cases hv; cases hs
      | items hv => cases hv; cases hs
      | atom hv hs' =>
        cases hv
        rw [hs] at hs'
        cases hs'
        rfl
  · refine ⟨nofun, fun ⟨_, hl⟩ => ?_⟩
    obtain ⟨w, hw⟩ := hl.exists_at?
    cases v with
    | array a => cases hs
    | _ => cases hw

theorem depicts_cut (ho : outer.Nodup) (ha : a ∈ outer) : h.Depicts outer (.array a) .cut := by
  rintro (_ | ⟨i, rest⟩) kind
  · refine ⟨fun he => ?_, ?_⟩
    · cases he
      exact ⟨ho, .cut rfl ha⟩
    · rintro ⟨-, hl⟩
      cases hl with
      | cut => rfl
      | items hv hn => cases hv; exact absurd ha hn
      | atom hv hs => cases hv; cases hs
  · -- every address further in leads through the array once more
    refine ⟨nofun, fun ⟨hd, hl⟩ => ?_⟩
    obtain ⟨w, hw⟩ := hl.exists_at?
    obtain ⟨u, hu, -⟩ := Option.bind_eq_some_iff.1 hw
    simp only [around, hu] at hd
    have hd := hd.sublist (outer_suffix_around (a :: outer) u rest).sublist
    exact absurd ha (List.nodup_cons.1 hd).1

theorem depicts_items {f : Value → Shown} (ho : outer.Nodup) (ha : a ∉ outer)
    (hf : ∀ w ∈ h.elements a, h.Depicts (a :: outer) w (f w)) :
    h.Depicts outer (.array a) (.items ((h.elements a).toList.map f)) := by
  rintro (_ | ⟨i, rest⟩) kind
  · refine ⟨fun he => ?_, ?_⟩
    · simp only [Shown.at?, Option.map_some, Shown.kind, List.length_map, Array.length_toList,
        Option.some.injEq] at he
      subst he
      exact ⟨ho, .items rfl ha⟩
    · rintro ⟨-, hl⟩
      cases hl with
      | cut hv hn => cases hv; exact absurd hn ha
      | items hv =>
        cases hv
        simp only [Shown.at?, Option.map_some, Shown.kind, List.length_map, Array.length_toList]
      | atom hv hs => cases hv; cases hs
  · cases hw : (h.elements a)[i]? with
    | none =>
      refine ⟨fun he => ?_, fun ⟨_, hl⟩ => ?_⟩
      · simp only [Shown.at?, List.getElem?_map, Array.getElem?_toList, hw, Option.map_none,
          Option.bind_none] at he
        cases he
      · obtain ⟨w, hl⟩ := hl.exists_at?
        rw [at?, hw] at hl
        cases hl
    | some w =>
      have hpart : (Shown.items ((h.elements a).toList.map f)).at? (i :: rest) =
          (f w).at? rest := by
        simp only [Shown.at?, List.getElem?_map, Array.getElem?_toList, hw, Option.map_some,
          Option.bind_some]
      have haround : h.around outer (.array a) (i :: rest) = h.around (a :: outer) w rest := by
        simp only [around, hw]
      rw [hpart, haround, looks_cons hw]
      exact hf w (Array.mem_of_getElem? hw) rest kind

theorem exists_depicts (path : ArrayPath) (v : Value) :
    ∀ outer, PathOf path outer → ∃ t : Shown, h.renderIn path v = t.text ∧ h.Depicts outer v t := by
  induction path, v using render_induction (h := h) with
  | atom path v s hs =>
    intro outer ho
    exact ⟨.atom s, (renderIn_atom hs).trans (by rw [Shown.text]), depicts_atom ho.1 hs⟩
  | cut path a hp =>
    intro outer ho
    exact ⟨.cut, (renderIn_cut hp).trans (by rw [Shown.text]), depicts_cut ho.1 ((ho.2 a).1 hp)⟩
  | items path a hp ih =>
    intro outer ho
    have ha : a ∉ outer := fun ha => hp ((ho.2 a).2 ha)
    choose! f hf using fun w hw => ih w hw (a :: outer) (ho.insert ha)
    refine ⟨.items ((h.elements a).toList.map f), ?_, depicts_items ho.1 ha fun w hw => (hf w hw).2⟩
    have htexts : (h.elements a).toList.map (h.renderIn (path.insert a.index)) =
        ((h.elements a).toList.map f).map Shown.text := by
      rw [List.map_map]
      exact List.map_congr_left fun w hw => (hf w (Array.mem_toList_iff.1 hw)).1
    rw [renderIn_items hp, Shown.text, Shown.texts_eq_map, htexts]
    rfl

/-- No address in the structure is longer than there are arrays. -/
theorem Depicts.length_le {t : Shown} {p : List Nat} (hd : h.Depicts [] v t)
    (hp : (t.at? p).isSome = true) : p.length ≤ h.arrays.size := by
  obtain ⟨part, hpart⟩ := Option.isSome_iff_exists.1 hp
  obtain ⟨hnodup, hl⟩ := (hd p part.kind).1 (by rw [hpart, Option.map_some])
  obtain ⟨w, hw⟩ := hl.exists_at?
  have hle := (hnodup.subperm (around_subset (List.nil_subset _))).length_le
  simpa [length_around hw, arrayIds] using hle

def Contains (h : Heap) (a b : ArrayId) : Prop := .array b ∈ h.elements a

def Reaches (h : Heap) (v : Value) (b : ArrayId) : Prop :=
  ∃ a, v = .array a ∧ Relation.ReflTransGen h.Contains a b

def Acyclic (h : Heap) (v : Value) : Prop := ∀ b, h.Reaches v b → ¬Relation.TransGen h.Contains b b

/-- The text of a value by plain recursion, if that comes to an end. -/
inductive Plain (h : Heap) : Value → String → Prop where
  | atom {v : Value} {s : String} (hs : h.atom? v = some s) : Plain h v s
  | items {a : ArrayId} {texts : List String}
      (ht : List.Forall₂ (Plain h) (h.elements a).toList texts) :
      Plain h (.array a) ("[" ++ ", ".intercalate texts ++ "]")

theorem Reaches.inside {b : ArrayId} (hr : h.Reaches w b) (hw : w ∈ h.elements a) :
    Relation.TransGen h.Contains a b := by
  obtain ⟨c, rfl, hcb⟩ := hr
  exact .head' hw hcb

theorem Reaches.of_element {b : ArrayId} (hr : h.Reaches w b) (hw : w ∈ h.elements a) :
    h.Reaches (.array a) b := ⟨a, rfl, (hr.inside hw).to_reflTransGen⟩

theorem forall₂_iff_eq_map {R : Value → String → Prop} {g : Value → String} {vs : List Value}
    {texts : List String} (hR : ∀ v ∈ vs, ∀ s, R v s ↔ s = g v) :
    List.Forall₂ R vs texts ↔ texts = vs.map g := by
  induction vs generalizing texts with
  | nil => rw [List.forall₂_nil_left_iff, List.map_nil]
  | cons v rest ih =>
    obtain ⟨hv, hrest⟩ := List.forall_mem_cons.1 hR
    rw [List.forall₂_cons_left_iff, List.map_cons]
    constructor
    · rintro ⟨s, texts', hs, ht, rfl⟩
      rw [(hv s).1 hs, (ih hrest).1 ht]
    · rintro rfl
      exact ⟨_, _, (hv _).2 rfl, (ih hrest).2 rfl, rfl⟩

/-- Without cycles the path makes no difference, as nothing on it is met again. -/
theorem plain_iff (path : ArrayPath) (v : Value) :
    h.Acyclic v → (∀ b : ArrayId, path.contains b.index = true → ¬h.Reaches v b) →
      ∀ s, h.Plain v s ↔ s = h.renderIn path v := by
  induction path, v using render_induction (h := h) with
  | atom path v s hs =>
    intro _ _ s'
    rw [renderIn_atom hs]
    constructor
    · intro hp
      cases hp with
      | atom hs' => exact Option.some.inj (hs'.symm.trans hs)
      | items => cases hs
    · rintro rfl
      exact .atom hs
  | cut path a hp => exact fun _ hpath => absurd ⟨a, rfl, .refl⟩ (hpath a hp)
  | items path a hp ih =>
    intro hacyclic hpath s
    have hparts : ∀ w ∈ (h.elements a).toList, ∀ s,
        h.Plain w s ↔ s = h.renderIn (path.insert a.index) w := by
      intro w hw
      rw [Array.mem_toList_iff] at hw
      refine ih w hw (fun b hb => hacyclic b (hb.of_element hw)) fun b hb hr => ?_
      rcases contains_insert_iff.1 hb with rfl | hb
      · exact hacyclic b ⟨b, rfl, .refl⟩ (hr.inside hw)
      · exact hpath b hb (hr.of_element hw)
    rw [renderIn_items hp]
    constructor
    · intro hs
      cases hs with
      | atom hs => cases hs
      | items ht => rw [(forall₂_iff_eq_map hparts).1 ht, withCommas]
    · rintro rfl
      exact .items ((forall₂_iff_eq_map hparts).2 rfl)

/-- The text of a value has the structure of the value. It shows the addresses on whose way no array
is met twice, so none that is longer than there are arrays in the heap. An array is cut short at the
addresses that have it around them already, and shown with all its elements in order at the others.
If no array in the value is inside itself, the text is what plain recursion gives. -/
theorem render_cuts_cycles (h : Heap) (v : Value) :
    (∃ t : Shown, h.render v = t.text ∧
      (∀ p kind, (t.at? p).map Shown.kind = some kind ↔
        (h.around [] v p).Nodup ∧ h.Looks [] v p kind) ∧
      ∀ p, (t.at? p).isSome = true → p.length ≤ h.arrays.size) ∧
    (h.Acyclic v → ∀ s, h.Plain v s ↔ s = h.render v) := by
  have hempty : PathOf ∅ [] := ⟨List.nodup_nil, fun a => by simp⟩
  obtain ⟨t, htext, hd⟩ := exists_depicts ∅ v [] hempty
  refine ⟨⟨t, htext, hd, fun p => hd.length_le⟩, fun ha => ?_⟩
  exact plain_iff ∅ v ha fun b hb => by simp at hb

/-- An array that holds another one twice shows it in full both times. -/
theorem render_cuts_cycles_shared :
    let h : Heap := { Heap.empty with arrays := #[#[.none], #[.array ⟨0⟩, .array ⟨0⟩]] }
    h.Acyclic (.array ⟨1⟩) ∧ h.render (.array ⟨1⟩) = "[[none], [none]]" := by
  intro h
  have hcontains (a b : ArrayId) (hab : h.Contains a b) : a.index = 1 ∧ b.index = 0 := by
    obtain ⟨_ | _ | n⟩ := a <;> simp_all [Contains, h, elements]
  have hacyclic : h.Acyclic (.array ⟨1⟩) := by
    intro b _ hb
    obtain ⟨c, hbc, -⟩ := Relation.TransGen.head'_iff.1 hb
    obtain ⟨d, -, hdb⟩ := Relation.TransGen.tail'_iff.1 hb
    exact absurd ((hcontains b c hbc).1.symm.trans (hcontains d b hdb).2) (by decide)
  have hinner : h.Plain (.array ⟨0⟩) ("[" ++ ", ".intercalate ["none"] ++ "]") :=
    .items (.cons (.atom rfl) .nil)
  have houter := Plain.items (h := h) (a := ⟨1⟩) (.cons hinner (.cons hinner .nil))
  exact ⟨hacyclic, ((render_cuts_cycles h _).2 hacyclic _).1 houter ▸ by decide⟩

end Heap

end Jal
