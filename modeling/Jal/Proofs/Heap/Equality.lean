import Mathlib.Data.List.Forall2
import Mathlib.Order.Bounds.Defs
import Mathlib.Order.PropInstances
import Jal.Machine.Operators

namespace Jal

namespace Number

open Float.Model

theorem compare_finite {s t : UnpackedFloat.Sign} {m m' : Nat} {e e' : Int} {hm : 0 < m}
    {hm' : 0 < m'} :
    (UnpackedFloat.finite s m e hm).compare (.finite t m' e' hm') = some .eq ↔
      s = t ∧ m = m' ∧ e = e' := by
  cases s with
  | positive =>
    cases t with
    | positive =>
      change some ((compare e e').then (compare m m')) = some .eq ↔ _
      simp [Ordering.then_eq_eq, and_comm]
    | negative => exact iff_of_false nofun nofun
  | negative =>
    cases t with
    | positive => exact iff_of_false nofun nofun
    | negative =>
      change some ((compare e e').then (compare m m')).swap = some .eq ↔ _
      simp [Ordering.then_eq_eq, Ordering.swap_eq_eq, and_comm]

theorem compare_eq_iff {a b : UnpackedFloat} :
    a.compare b = some .eq ↔
      (a = b ∧ a ≠ .notANumber) ∨ ∃ s t, a = .zero s ∧ b = .zero t := by
  have differ {c d : UnpackedFloat} (hz : ∀ s t, c = .zero s → d ≠ .zero t) (h : c ≠ d) :
      ¬((c = d ∧ c ≠ .notANumber) ∨ ∃ s t, c = .zero s ∧ d = .zero t) := by
    rintro (⟨he, -⟩ | ⟨s, t, hc, hd⟩)
    · exact h he
    · exact hz s t hc hd
  cases a with
  | notANumber =>
    refine iff_of_false nofun ?_
    rintro (⟨-, h⟩ | ⟨s, t, h, -⟩)
    · exact h rfl
    · cases h
  | infinity s =>
    cases b with
    | infinity t =>
      by_cases h : s = t
      · subst h
        exact iff_of_true (by cases s <;> rfl) (.inl ⟨rfl, nofun⟩)
      · refine iff_of_false ?_ (differ nofun fun he => h (UnpackedFloat.infinity.inj he))
        cases s <;> cases t <;> first | exact absurd rfl h | nofun
    | _ => exact iff_of_false (by cases s <;> nofun) (differ nofun nofun)
  | zero s =>
    cases b with
    | zero t => exact iff_of_true rfl (.inr ⟨s, t, rfl, rfl⟩)
    | infinity t => exact iff_of_false (by cases t <;> nofun) (differ nofun nofun)
    | finite t m e hm => exact iff_of_false (by cases t <;> nofun) (differ nofun nofun)
    | notANumber => exact iff_of_false nofun (differ nofun nofun)
  | finite s m e hm =>
    cases b with
    | finite t m' e' hm' =>
      rw [compare_finite]
      constructor
      · rintro ⟨rfl, rfl, rfl⟩
        exact .inl ⟨rfl, nofun⟩
      · rintro (⟨h, -⟩ | ⟨_, _, h, -⟩)
        · injection h with hs hm he
          exact ⟨hs, hm, he⟩
        · cases h
    | infinity t => exact iff_of_false (by cases t <;> cases s <;> nofun) (differ nofun nofun)
    | _ => exact iff_of_false (by cases s <;> nofun) (differ nofun nofun)

/-- Two numbers are equal if they are the same and a number at all, or if both are zero. -/
theorem beq_iff {x y : Float} :
    (x == y) = true ↔
      (x.toModel.unpack = y.toModel.unpack ∧ x.toModel.unpack ≠ .notANumber) ∨
        ∃ s t, x.toModel.unpack = .zero s ∧ y.toModel.unpack = .zero t := by
  have hd : (x == y) = (x.toModel.unpack.compare y.toModel.unpack == some .eq) := rfl
  rw [hd, beq_iff_eq, compare_eq_iff]

theorem beq_symm {x y : Float} (h : (x == y) = true) : (y == x) = true := by
  rw [beq_iff] at h ⊢
  rcases h with ⟨he, hn⟩ | ⟨s, t, hx, hy⟩
  · exact .inl ⟨he.symm, he ▸ hn⟩
  · exact .inr ⟨t, s, hy, hx⟩

theorem beq_trans {x y z : Float} (h : (x == y) = true) (h' : (y == z) = true) :
    (x == z) = true := by
  rw [beq_iff] at h h' ⊢
  rcases h with ⟨he, hn⟩ | ⟨s, t, hx, hy⟩
  · rwa [he]
  · rcases h' with ⟨he, -⟩ | ⟨t', u, -, hz⟩
    · exact .inr ⟨s, t, hx, he ▸ hy⟩
    · exact .inr ⟨s, u, hx, hz⟩

end Number

namespace Heap

/-- What it takes to relate two values if `R` relates the elements of arrays. -/
inductive Matches (h : Heap) (R : Value → Value → Prop) : Value → Value → Prop where
  | none : Matches h R .none .none
  | bool (b : Bool) : Matches h R (.bool b) (.bool b)
  | number {x y : Float} (he : (x == y) = true) : Matches h R (.number x) (.number y)
  | text (s : String) : Matches h R (.text s) (.text s)
  | native {f g : Native} (hn : f.name = g.name) : Matches h R (.native f) (.native g)
  | function (c d : Closure) (stamp : Nat) : Matches h R (.function c stamp) (.function d stamp)
  | classValue {c d : Class} (hs : c.own.stamp = d.own.stamp) :
      Matches h R (.classValue c) (.classValue d)
  | object (i : InstanceId) : Matches h R (.object i) (.object i)
  | sameArray (a : ArrayId) : Matches h R (.array a) (.array a)
  | arrays {a b : ArrayId} {vs ws : Array Value} (ha : h.arrays[a.index]? = some vs)
      (hb : h.arrays[b.index]? = some ws) (he : List.Forall₂ R vs.toList ws.toList) :
      Matches h R (.array a) (.array b)

/-- The relation holds only where looking through arrays once does not tell the values apart. -/
def Structural (h : Heap) (R : Value → Value → Prop) : Prop := ∀ v w, R v w → h.Matches R v w

/-- Some relation relates the values that is structural but for the pairs of arrays in `given`. -/
def AlikeGiven (h : Heap) (given : ArrayId → ArrayId → Prop) (v w : Value) : Prop :=
  ∃ R : Value → Value → Prop,
    (∀ v w, R v w → h.Matches R v w ∨ ∃ a b, v = .array a ∧ w = .array b ∧ given a b) ∧ R v w

def Alike (h : Heap) (v w : Value) : Prop := ∃ R, h.Structural R ∧ R v w

variable {h : Heap} {R S : Value → Value → Prop} {u v w : Value}

theorem Matches.mono (hm : h.Matches R v w) (hRS : ∀ v w, R v w → S v w) : h.Matches S v w := by
  cases hm with
  | none => exact .none
  | bool b => exact .bool b
  | number he => exact .number he
  | text s => exact .text s
  | native hn => exact .native hn
  | function c d stamp => exact .function c d stamp
  | classValue hs => exact .classValue hs
  | object i => exact .object i
  | sameArray a => exact .sameArray a
  | arrays ha hb he => exact .arrays ha hb (he.imp hRS)

theorem Matches.flip (hm : h.Matches R v w) : h.Matches (fun v w => R w v) w v := by
  cases hm with
  | none => exact .none
  | bool b => exact .bool b
  | number he => exact .number (Number.beq_symm he)
  | text s => exact .text s
  | native hn => exact .native hn.symm
  | function c d stamp => exact .function d c stamp
  | classValue hs => exact .classValue hs.symm
  | object i => exact .object i
  | sameArray a => exact .sameArray a
  | arrays ha hb he => exact .arrays hb ha he.flip

theorem forall₂_comp {us vs ws : List Value} (huv : List.Forall₂ R us vs)
    (hvw : List.Forall₂ R vs ws) : List.Forall₂ (fun u w => ∃ v, R u v ∧ R v w) us ws := by
  induction huv generalizing ws with
  | nil =>
    cases hvw
    exact .nil
  | cons hu _ ih =>
    cases hvw with
    | cons hw hvw => exact .cons ⟨_, hu, hw⟩ (ih hvw)

/-- Where one of the two steps stays at the same array, nothing relates its elements to themselves:
then `R` alone has to do. -/
theorem Matches.trans (hm : h.Matches R u v) (hm' : h.Matches R v w) :
    h.Matches (fun u w => R u w ∨ ∃ v, R u v ∧ R v w) u w := by
  cases hm with
  | none => exact hm'.mono fun _ _ => .inl
  | bool b => exact hm'.mono fun _ _ => .inl
  | number he =>
    cases hm' with
    | number he' => exact .number (Number.beq_trans he he')
  | text s => exact hm'.mono fun _ _ => .inl
  | native hn =>
    cases hm' with
    | native hn' => exact .native (hn.trans hn')
  | function c d stamp =>
    cases hm' with
    | function _ e => exact .function c e stamp
  | classValue hs =>
    cases hm' with
    | classValue hs' => exact .classValue (hs.trans hs')
  | object i => exact hm'.mono fun _ _ => .inl
  | sameArray a => exact hm'.mono fun _ _ => .inl
  | arrays ha hb he =>
    cases hm' with
    | sameArray => exact .arrays ha hb (he.imp fun _ _ => .inl)
    | arrays hb' hc he' =>
      obtain rfl := Option.some.inj (hb.symm.trans hb')
      exact .arrays ha hc ((forall₂_comp he he').imp fun _ _ => .inr)

theorem Alike.structural : h.Structural h.Alike := by
  rintro v w ⟨R, hR, hvw⟩
  exact (hR v w hvw).mono fun v w hvw => ⟨R, hR, hvw⟩

theorem Alike.symm (hvw : h.Alike v w) : h.Alike w v := by
  obtain ⟨R, hR, hvw⟩ := hvw
  exact ⟨fun v w => R w v, fun v w hvw => (hR w v hvw).flip, hvw⟩

theorem Alike.trans (huv : h.Alike u v) (hvw : h.Alike v w) : h.Alike u w := by
  refine ⟨fun u w => h.Alike u w ∨ ∃ v, h.Alike u v ∧ h.Alike v w, ?_, .inr ⟨v, huv, hvw⟩⟩
  rintro u w (huw | ⟨v, huv, hvw⟩)
  · exact (Alike.structural u w huw).mono fun _ _ => .inl
  · exact (Alike.structural u v huv).trans (Alike.structural v w hvw)

variable {given given' : ArrayId → ArrayId → Prop}

theorem AlikeGiven.of_given {a b : ArrayId} (hg : given a b) :
    h.AlikeGiven given (.array a) (.array b) :=
  ⟨fun v w => ∃ a b, v = .array a ∧ w = .array b ∧ given a b, fun _ _ hvw => .inr hvw,
    a, b, rfl, rfl, hg⟩

theorem AlikeGiven.of_matches (hm : h.Matches (h.AlikeGiven given) v w) :
    h.AlikeGiven given v w := by
  refine ⟨fun v w => h.AlikeGiven given v w ∨ h.Matches (h.AlikeGiven given) v w, ?_, .inr hm⟩
  rintro v w (⟨R, hR, hvw⟩ | hm)
  · rcases hR v w hvw with hm | hg
    · exact .inl (hm.mono fun v w hvw => .inl ⟨R, hR, hvw⟩)
    · exact .inr hg
  · exact .inl (hm.mono fun _ _ => .inl)

/-- A pair of arrays need not be given if its elements are alike once it is. -/
theorem AlikeGiven.discharge {a b : ArrayId}
    (hm : h.Matches (h.AlikeGiven given') (.array a) (.array b))
    (hg : ∀ c d, given' c d → given c d ∨ c = a ∧ d = b) (hvw : h.AlikeGiven given' v w) :
    h.AlikeGiven given v w := by
  refine ⟨h.AlikeGiven given', ?_, hvw⟩
  rintro v w ⟨R, hR, hvw⟩
  rcases hR v w hvw with hm' | ⟨c, d, rfl, rfl, hcd⟩
  · exact .inl (hm'.mono fun v w hvw => ⟨R, hR, hvw⟩)
  · rcases hg c d hcd with hcd | ⟨rfl, rfl⟩
    · exact .inr ⟨c, d, rfl, rfl, hcd⟩
    · exact .inl hm

theorem AlikeGiven.alike (hvw : h.AlikeGiven given v w) (hg : ∀ a b, ¬given a b) :
    h.Alike v w := by
  obtain ⟨R, hR, hvw⟩ := hvw
  refine ⟨R, fun v w hvw => ?_, hvw⟩
  rcases hR v w hvw with hm | ⟨a, b, -, -, hab⟩
  · exact hm
  · exact absurd hab (hg a b)

theorem matches_of_same (hs : v.same w = true) : h.Matches R v w := by
  revert hs
  fun_cases Value.same v w with
  | case1 => exact fun _ => .none
  | case2 b c =>
    intro hs
    obtain rfl := eq_of_beq hs
    exact .bool b
  | case3 x y => exact .number
  | case4 s t =>
    intro hs
    obtain rfl := eq_of_beq hs
    exact .text s
  | case5 f g =>
    intro hs
    obtain rfl := eq_of_beq hs
    exact .native rfl
  | case6 c s d t =>
    intro hs
    obtain rfl := eq_of_beq hs
    exact .function c d s
  | case7 c d => exact fun hs => .classValue (eq_of_beq hs)
  | case8 i j =>
    intro hs
    obtain rfl := eq_of_beq hs
    exact .object i
  | case9 => exact fun hs => absurd hs Bool.false_ne_true

theorem Matches.same (hm : h.Matches R v w) (hv : ∀ a b, v = .array a → w = .array b → False) :
    v.same w = true := by
  cases hm with
  | none => rfl
  | bool b => exact beq_self_eq_true b
  | number he => exact he
  | text s => exact beq_self_eq_true s
  | @native f g hn =>
    have hfg : f = g := by
      cases f <;> cases g <;> first | rfl | exact absurd hn (by decide)
    exact beq_iff_eq.2 hfg
  | function c d stamp => exact beq_self_eq_true stamp
  | classValue hs => exact beq_iff_eq.2 hs
  | object i => exact beq_self_eq_true i
  | sameArray a => exact absurd rfl fun he => hv a a he he
  | arrays => exact absurd rfl fun he => hv _ _ he rfl

/-- Two arrays match if there are as many elements on both sides and those in the same place are
related. -/
theorem matches_elements {a b : ArrayId} (ha : a.index < h.arrays.size)
    (hb : b.index < h.arrays.size) (hsize : h.arrays[a.index].size = h.arrays[b.index].size)
    (hall : ∀ p ∈ h.arrays[a.index].toList.zip h.arrays[b.index].toList, R p.1 p.2) :
    h.Matches R (.array a) (.array b) := by
  refine .arrays (Array.getElem?_eq_getElem ha) (Array.getElem?_eq_getElem hb) ?_
  exact List.forall₂_iff_zip.2 ⟨by simpa using hsize, fun hp => hall _ hp⟩

theorem Matches.elements {a b : ArrayId} (hm : h.Matches R (.array a) (.array b)) (hne : a ≠ b) :
    ∃ (ha : a.index < h.arrays.size) (hb : b.index < h.arrays.size),
      h.arrays[a.index].size = h.arrays[b.index].size ∧
        ∀ p ∈ h.arrays[a.index].toList.zip h.arrays[b.index].toList, R p.1 p.2 := by
  cases hm with
  | sameArray => exact absurd rfl hne
  | arrays ha hb he =>
    obtain ⟨ha', rfl⟩ := Array.getElem?_eq_some_iff.1 ha
    obtain ⟨hb', rfl⟩ := Array.getElem?_eq_some_iff.1 hb
    exact ⟨ha', hb', by simpa using he.length_eq, fun p hp => (List.forall₂_iff_zip.1 he).2 hp⟩

/-- What the comparison has on its list is alike, given the pairs it has opened: where it opens one,
the elements it adds to the list are what lets that pair go again. -/
theorem alikeGiven_of_equalAll {opened : ArrayPairs} {todo : List (Value × Value)}
    (he : h.equalAll opened todo = true) :
    ∀ p ∈ todo, h.AlikeGiven (fun a b => opened.contains (a, b) = true) p.1 p.2 := by
  fun_induction Heap.equalAll with
  | case1 => exact fun p hp => absurd hp List.not_mem_nil
  | case2 opened a rest ih =>
    exact List.forall_mem_cons.2 ⟨.of_matches (.sameArray _), ih he⟩
  | case3 opened a b rest hne hp ih =>
    exact List.forall_mem_cons.2 ⟨.of_given hp, ih he⟩
  | case4 opened a b rest hne hp hab ha hb vs ws ih =>
    obtain ⟨hsize, he⟩ := Bool.and_eq_true_iff.1 he
    obtain ⟨helements, hrest⟩ := List.forall_mem_append.1 (ih he)
    have hm := matches_elements ha hb (eq_of_beq hsize) helements
    have hopened : ∀ c d, (opened.insert (a, b)).contains (c, d) = true →
        opened.contains (c, d) = true ∨ c = a ∧ d = b := by
      intro c d hcd
      rw [Std.HashSet.contains_insert, Bool.or_eq_true, beq_iff_eq, Prod.mk.injEq] at hcd
      rcases hcd with ⟨hc, hd⟩ | hcd
      · exact .inr ⟨hc.symm, hd.symm⟩
      · exact .inl hcd
    have hself := AlikeGiven.of_matches hm
    exact List.forall_mem_cons.2
      ⟨hself.discharge hm hopened, fun p hp => (hrest p hp).discharge hm hopened⟩
  | case5 => cases he
  | case6 opened v w rest hv ih =>
    obtain ⟨hs, he⟩ := Bool.and_eq_true_iff.1 he
    exact List.forall_mem_cons.2 ⟨.of_matches (matches_of_same hs), ih he⟩

theorem equalAll_of_alike {opened : ArrayPairs} {todo : List (Value × Value)}
    (hall : ∀ p ∈ todo, h.Alike p.1 p.2) : h.equalAll opened todo = true := by
  fun_induction Heap.equalAll with
  | case1 => rfl
  | case2 opened a rest ih => exact ih (List.forall_mem_cons.1 hall).2
  | case3 opened a b rest hne hp ih => exact ih (List.forall_mem_cons.1 hall).2
  | case4 opened a b rest hne hp hab ha hb vs ws ih =>
    obtain ⟨hself, hrest⟩ := List.forall_mem_cons.1 hall
    obtain ⟨_, _, hsize, helements⟩ := (Alike.structural _ _ hself).elements hne
    rw [ih (List.forall_mem_append.2 ⟨helements, hrest⟩), Bool.and_true]
    exact beq_iff_eq.2 hsize
  | case5 opened a b rest hne hp hab =>
    obtain ⟨ha, hb, -⟩ := (Alike.structural _ _ (List.forall_mem_cons.1 hall).1).elements hne
    exact absurd ⟨ha, hb⟩ hab
  | case6 opened v w rest hv ih =>
    obtain ⟨hself, hrest⟩ := List.forall_mem_cons.1 hall
    rw [ih hrest, Bool.and_true]
    exact (Alike.structural _ _ hself).same hv

theorem equal_iff : h.equal v w = true ↔ h.Alike v w := by
  constructor
  · intro he
    have hvw := alikeGiven_of_equalAll he (v, w) (List.mem_singleton_self _)
    refine hvw.alike fun a b hab => ?_
    rw [Std.HashSet.contains_empty] at hab
    cases hab
  · intro hvw
    exact equalAll_of_alike fun p hp => List.mem_singleton.1 hp ▸ hvw

mutual

/-- Equality of two values inside the pairs of arrays on `path`, which count as equal. A pair is
forgotten when the comparison leaves it. -/
def equalIn (h : Heap) (path : List (ArrayId × ArrayId)) (v w : Value) : Bool :=
  match v, w with
  | .array a, .array b =>
    if a = b then true
    else if hp : path.contains (a, b) then true
    else if hab : a.index < h.arrays.size ∧ b.index < h.arrays.size then
      have ha := hab.1
      have hb := hab.2
      let vs := h.arrays[a.index]
      let ws := h.arrays[b.index]
      vs.size == ws.size && h.equalEach ((a, b) :: path) (vs.toList.zip ws.toList)
    else false
  | v, w => v.same w
termination_by (unvisited h.arrayPairs path.contains, 0)
decreasing_by
  refine Prod.Lex.left _ _ (unvisited_lt (mem_arrayPairs ha hb) (Bool.eq_false_iff.2 hp) ?_ ?_)
  · exact List.contains_iff_mem.2 List.mem_cons_self
  · intro p h
    rw [List.contains_cons, h, Bool.or_true]

def equalEach (h : Heap) (path : List (ArrayId × ArrayId)) (pairs : List (Value × Value)) : Bool :=
  match pairs with
  | [] => true
  | (v, w) :: rest => h.equalIn path v w && h.equalEach path rest
termination_by (unvisited h.arrayPairs path.contains, pairs.length + 1)

end

theorem alikeGiven_of_equalIn (path : List (ArrayId × ArrayId)) (v w : Value) :
    h.equalIn path v w = true → h.AlikeGiven (fun a b => (a, b) ∈ path) v w := by
  refine equalIn.induct h
    (fun path v w => h.equalIn path v w = true → h.AlikeGiven (fun a b => (a, b) ∈ path) v w)
    (fun path pairs => h.equalEach path pairs = true →
      ∀ p ∈ pairs, h.AlikeGiven (fun a b => (a, b) ∈ path) p.1 p.2)
    ?same ?known ?opened ?missing ?leaf ?nil ?cons path v w
  case same =>
    intro path a _
    exact .of_matches (.sameArray a)
  case known =>
    intro path a b _ hp _
    exact .of_given (List.contains_iff_mem.1 hp)
  case opened =>
    intro path a b hne hp hab ha hb vs ws ih he
    rw [equalIn, if_neg hne, dif_neg hp, dif_pos hab] at he
    obtain ⟨hsize, he⟩ := Bool.and_eq_true_iff.1 he
    have hm := matches_elements ha hb (eq_of_beq hsize) (ih he)
    refine (AlikeGiven.of_matches hm).discharge hm fun c d hcd => ?_
    rcases List.mem_cons.1 hcd with hcd | hcd
    · exact .inr (Prod.mk.injEq .. ▸ hcd)
    · exact .inl hcd
  case missing =>
    intro path a b hne hp hab he
    rw [equalIn, if_neg hne, dif_neg hp, dif_neg hab] at he
    cases he
  case leaf =>
    intro path v w hv he
    rw [equalIn.eq_2 h path v w hv] at he
    exact .of_matches (matches_of_same he)
  case nil => exact fun _ _ p hp => absurd hp List.not_mem_nil
  case cons =>
    intro path v w rest ihv ihrest he
    rw [equalEach] at he
    obtain ⟨hself, hrest⟩ := Bool.and_eq_true_iff.1 he
    exact List.forall_mem_cons.2 ⟨ihv hself, ihrest hrest⟩

theorem equalIn_of_alike (path : List (ArrayId × ArrayId)) (v w : Value) :
    h.Alike v w → h.equalIn path v w = true := by
  refine equalIn.induct h
    (fun path v w => h.Alike v w → h.equalIn path v w = true)
    (fun path pairs => (∀ p ∈ pairs, h.Alike p.1 p.2) → h.equalEach path pairs = true)
    ?same ?known ?opened ?missing ?leaf ?nil ?cons path v w
  case same =>
    intro path a _
    rw [equalIn, if_pos rfl]
  case known =>
    intro path a b hne hp _
    rw [equalIn, if_neg hne, dif_pos hp]
  case opened =>
    intro path a b hne hp hab ha hb vs ws ih hvw
    obtain ⟨_, _, hsize, helements⟩ := (Alike.structural _ _ hvw).elements hne
    rw [equalIn, if_neg hne, dif_neg hp, dif_pos hab]
    exact Bool.and_eq_true_iff.2 ⟨beq_iff_eq.2 hsize, ih helements⟩
  case missing =>
    intro path a b hne hp hab hvw
    obtain ⟨ha, hb, -⟩ := (Alike.structural _ _ hvw).elements hne
    exact absurd ⟨ha, hb⟩ hab
  case leaf =>
    intro path v w hv hvw
    rw [equalIn.eq_2 h path v w hv]
    exact (Alike.structural _ _ hvw).same hv
  case nil =>
    intro path _
    rw [equalEach]
  case cons =>
    intro path v w rest ihv ihrest hall
    obtain ⟨hself, hrest⟩ := List.forall_mem_cons.1 hall
    rw [equalEach, ihv hself, ihrest hrest, Bool.and_true]

/-- Forgetting what lies outside the path does not change the answer. -/
theorem equalIn_nil : h.equalIn [] v w = h.equal v w := by
  rw [Bool.eq_iff_iff, equal_iff]
  constructor
  · intro he
    exact (alikeGiven_of_equalIn [] v w he).alike fun a b => List.not_mem_nil
  · exact equalIn_of_alike [] v w

/-- The comparison as it is made with one stack of the pairs of arrays that it is inside of: each
pair is pushed before its elements are compared and popped after them. -/
def equalStacked (h : Heap) : Nat → Value → Value → StateT (List (ArrayId × ArrayId)) Option Bool
  | 0, _, _ => failure
  | n + 1, .array a, .array b => do
    if a = b then return true
    if (← get).contains (a, b) then return true
    match h.arrays[a.index]?, h.arrays[b.index]? with
    | some vs, some ws =>
      modify ((a, b) :: ·)
      let equal ←
        if vs.size == ws.size then
          (vs.toList.zip ws.toList).allM fun p => h.equalStacked n p.1 p.2
        else pure false
      modify List.tail
      return equal
    | _, _ => return false
  | _ + 1, v, w => return v.same w

section Stacked

variable {a b : ArrayId} {path : List (ArrayId × ArrayId)} {n : Nat}

theorem unvisited_pushPair (ha : a.index < h.arrays.size) (hb : b.index < h.arrays.size)
    (hp : ¬path.contains (a, b) = true) :
    unvisited h.arrayPairs ((a, b) :: path).contains < unvisited h.arrayPairs path.contains := by
  apply unvisited_lt (mem_arrayPairs ha hb) (Bool.eq_false_iff.2 hp)
  · exact List.contains_iff_mem.2 List.mem_cons_self
  · intro p hp
    rw [List.contains_cons, hp, Bool.or_true]

theorem equalStacked_known (hne : ¬a = b) (hp : path.contains (a, b) = true) :
    h.equalStacked (n + 1) (.array a) (.array b) path = some (true, path) := by
  rw [equalStacked, if_neg hne]
  change (if path.contains (a, b) = true then _ else _ : StateT _ _ _) path = _
  rw [if_pos hp]
  rfl

theorem equalStacked_missing (hne : ¬a = b) (hp : ¬path.contains (a, b) = true)
    (hab : ¬(a.index < h.arrays.size ∧ b.index < h.arrays.size)) :
    h.equalStacked (n + 1) (.array a) (.array b) path = some (false, path) := by
  rw [equalStacked, if_neg hne]
  change (if path.contains (a, b) = true then _ else _ : StateT _ _ _) path = _
  rw [if_neg hp]
  cases hva : h.arrays[a.index]? with
  | none => rfl
  | some vs =>
    cases hvb : h.arrays[b.index]? with
    | none => rfl
    | some ws =>
      have ha := (Array.getElem?_eq_some_iff.1 hva).1
      exact absurd ⟨ha, (Array.getElem?_eq_some_iff.1 hvb).1⟩ hab

/-- If comparing the elements leaves the stack alone, so does comparing the arrays. -/
theorem equalStacked_opened (hne : ¬a = b) (hp : ¬path.contains (a, b) = true)
    (ha : a.index < h.arrays.size) (hb : b.index < h.arrays.size) {each : Bool}
    (he : ((h.arrays[a.index].toList.zip h.arrays[b.index].toList).allM fun p =>
      h.equalStacked n p.1 p.2) ((a, b) :: path) = some (each, (a, b) :: path)) :
    h.equalStacked (n + 1) (.array a) (.array b) path =
      some (h.arrays[a.index].size == h.arrays[b.index].size && each, path) := by
  rw [equalStacked, if_neg hne]
  change (if path.contains (a, b) = true then _ else _ : StateT _ _ _) path = _
  rw [if_neg hp, Array.getElem?_eq_getElem ha, Array.getElem?_eq_getElem hb]
  dsimp only
  by_cases hs : (h.arrays[a.index].size == h.arrays[b.index].size) = true
  · rw [if_pos hs, hs, Bool.true_and]
    change ((h.arrays[a.index].toList.zip h.arrays[b.index].toList).allM
      (fun p => h.equalStacked n p.1 p.2) ((a, b) :: path)).bind _ = _
    rw [he]
    rfl
  · rw [if_neg hs, Bool.eq_false_iff.2 hs]
    rfl

/-- The stack is in the end what it was, and the answer is the one that is found by handing the path
down. -/
theorem equalStacked_eq (path : List (ArrayId × ArrayId)) (v w : Value) : ∀ n,
    unvisited h.arrayPairs path.contains < n →
      h.equalStacked n v w path = some (h.equalIn path v w, path) := by
  refine equalIn.induct h
    (fun path v w => ∀ n, unvisited h.arrayPairs path.contains < n →
      h.equalStacked n v w path = some (h.equalIn path v w, path))
    (fun path pairs => ∀ n, unvisited h.arrayPairs path.contains < n →
      (pairs.allM fun p => h.equalStacked n p.1 p.2) path = some (h.equalEach path pairs, path))
    ?same ?known ?opened ?missing ?leaf ?nil ?cons path v w
  case same =>
    intro path a n hn
    obtain ⟨n, rfl⟩ := Nat.exists_eq_add_one.2 (Nat.zero_lt_of_lt hn)
    rw [equalIn, if_pos rfl, equalStacked, if_pos rfl]
    rfl
  case known =>
    intro path a b hne hp n hn
    obtain ⟨n, rfl⟩ := Nat.exists_eq_add_one.2 (Nat.zero_lt_of_lt hn)
    rw [equalIn, if_neg hne, dif_pos hp, equalStacked_known hne hp]
  case opened =>
    intro path a b hne hp hab ha hb vs ws ih n hn
    obtain ⟨n, rfl⟩ := Nat.exists_eq_add_one.2 (Nat.zero_lt_of_lt hn)
    have hlt := unvisited_pushPair ha hb hp
    rw [equalIn, if_neg hne, dif_neg hp, dif_pos hab]
    exact equalStacked_opened hne hp ha hb (ih n (by omega))
  case missing =>
    intro path a b hne hp hab n hn
    obtain ⟨n, rfl⟩ := Nat.exists_eq_add_one.2 (Nat.zero_lt_of_lt hn)
    rw [equalIn, if_neg hne, dif_neg hp, dif_neg hab, equalStacked_missing hne hp hab]
  case leaf =>
    intro path v w hv n hn
    obtain ⟨n, rfl⟩ := Nat.exists_eq_add_one.2 (Nat.zero_lt_of_lt hn)
    rw [equalIn.eq_2 h path v w hv, equalStacked.eq_3 _ _ _ _ hv]
    rfl
  case nil =>
    intro path n _
    rw [equalEach]
    rfl
  case cons =>
    intro path v w rest ihv ihrest n hn
    rw [equalEach, List.allM]
    change (h.equalStacked n v w path).bind _ = _
    rw [ihv n hn, Option.bind_some]
    cases he : h.equalIn path v w with
    | true => exact ihrest n hn
    | false => rfl

end Stacked

theorem equalStacked_nil (h : Heap) (v w : Value) :
    h.equalStacked (h.arrays.size * h.arrays.size + 1) v w [] = some (h.equal v w, []) := by
  rw [equalStacked_eq [] v w _ ?_, equalIn_nil]
  refine Nat.lt_succ_of_le (Nat.le_trans List.countP_le_length ?_)
  simp [arrayPairs, arrayIds, Function.comp_def]

theorem isGreatest_alike : IsGreatest {R | h.Structural R} h.Alike :=
  ⟨Alike.structural, fun R hR _ _ hvw => ⟨R, hR, hvw⟩⟩

theorem Matches.alike (hm : h.Matches h.Alike v w) : h.Alike v w := by
  refine ⟨fun v w => h.Alike v w ∨ h.Matches h.Alike v w, ?_, .inr hm⟩
  rintro v w (hvw | hm)
  · exact (Alike.structural v w hvw).mono fun _ _ => .inl
  · exact hm.mono fun _ _ => .inl

theorem applyBinary_equal : applyBinary h .equal v w = .ok (.bool true) ↔ h.Alike v w := by
  rw [applyBinary, Except.ok.injEq, Value.bool.injEq, equal_iff]

/-- Two values are equal if and only if the greatest structural relation relates them, whether the
comparison remembers all pairs of arrays it has opened or only those it is inside of. So `==` is
symmetric and transitive. It is not reflexive: some numbers differ from themselves. -/
theorem equal_structural (h : Heap) :
    IsGreatest {R | h.Structural R} (fun v w => h.equal v w = true) ∧
    (∀ v w, h.equal v w = true ↔ h.Matches (fun v w => h.equal v w = true) v w) ∧
    (∀ v w, h.equalIn [] v w = h.equal v w) ∧
    (∀ v w, applyBinary h .equal v w = .ok (.bool (h.equalIn [] v w))) ∧
    (∀ v w, applyBinary h .equal v w = .ok (.bool true) →
      applyBinary h .equal w v = .ok (.bool true)) ∧
    (∀ u v w, applyBinary h .equal u v = .ok (.bool true) →
      applyBinary h .equal v w = .ok (.bool true) →
      applyBinary h .equal u w = .ok (.bool true)) := by
  have heq : (fun v w => h.equal v w = true) = h.Alike := by
    funext v w
    exact propext equal_iff
  refine ⟨?_, fun v w => ?_, fun v w => equalIn_nil, fun v w => ?_, fun v w hvw => ?_,
    fun u v w huv hvw => ?_⟩
  · rw [heq]
    exact isGreatest_alike
  · rw [heq, equal_iff]
    exact ⟨Alike.structural v w, Matches.alike⟩
  · rw [equalIn_nil, applyBinary]
  · exact applyBinary_equal.2 (applyBinary_equal.1 hvw).symm
  · exact applyBinary_equal.2 ((applyBinary_equal.1 huv).trans (applyBinary_equal.1 hvw))

/-- Two arrays that hold each other are equal, though comparing their elements never ends. -/
theorem equal_structural_cycle :
    let h : Heap := { Heap.empty with arrays := #[#[.array ⟨1⟩], #[.array ⟨0⟩]] }
    h.equal (.array ⟨0⟩) (.array ⟨1⟩) = true := by
  intro h
  refine (equal_structural h).1.2
    (fun v w hvw => ?_ : h.Structural fun v w =>
      v = .array ⟨0⟩ ∧ w = .array ⟨1⟩ ∨ v = .array ⟨1⟩ ∧ w = .array ⟨0⟩) _ _ (.inl ⟨rfl, rfl⟩)
  rcases hvw with ⟨rfl, rfl⟩ | ⟨rfl, rfl⟩
  · exact .arrays rfl rfl (.cons (.inr ⟨rfl, rfl⟩) .nil)
  · exact .arrays rfl rfl (.cons (.inl ⟨rfl, rfl⟩) .nil)

end Heap

end Jal
