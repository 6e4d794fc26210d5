import Jal.Heap.Basic

namespace Jal

def unvisited {α : Type} (all : List α) (visited : α → Bool) : Nat :=
  all.countP fun a => !visited a

theorem unvisited_le {α : Type} (all : List α) {before after : α → Bool}
    (keep : ∀ a, before a → after a) : unvisited all after ≤ unvisited all before := by
  apply List.countP_mono_left
  intro a _ ha
  rw [Bool.not_eq_true'] at ha ⊢
  exact Bool.eq_false_iff.2 fun hb => Bool.eq_false_iff.1 ha (keep a hb)

/-- A visit to a new place leaves fewer. -/
theorem unvisited_lt {α : Type} {all : List α} {before after : α → Bool} {a : α} (ha : a ∈ all)
    (new : before a = false) (visit : after a = true) (keep : ∀ b, before b → after b) :
    unvisited all after < unvisited all before := by
  induction all with
  | nil => cases ha
  | cons b all ih =>
    have h := unvisited_le all keep
    rcases List.mem_cons.1 ha with rfl | ha
    · simp only [unvisited, List.countP_cons, new, visit] at h ⊢
      simp only [Bool.not_true, Bool.not_false, Bool.false_eq_true, if_false, if_true]
      omega
    · have h' := ih ha
      simp only [unvisited, List.countP_cons] at h' ⊢
      cases hb : before b
      · simp only [Bool.not_false, if_true]
        split <;> omega
      · simp only [keep b hb, Bool.not_true, Bool.false_eq_true, if_false]
        omega

namespace Heap

def arrayIds (h : Heap) : List ArrayId := (List.range h.arrays.size).map ArrayId.mk

def arrayPairs (h : Heap) : List (ArrayId × ArrayId) :=
  h.arrayIds.flatMap fun a => h.arrayIds.map fun b => (a, b)

theorem mem_arrayIds {h : Heap} {a : ArrayId} (ha : a.index < h.arrays.size) :
    a ∈ h.arrayIds := by
  simp only [arrayIds, List.mem_map, List.mem_range]
  exact ⟨a.index, ha, rfl⟩

theorem mem_arrayPairs {h : Heap} {a b : ArrayId} (ha : a.index < h.arrays.size)
    (hb : b.index < h.arrays.size) : (a, b) ∈ h.arrayPairs := by
  simp only [arrayPairs, List.mem_flatMap, List.mem_map]
  exact ⟨a, mem_arrayIds ha, b, mem_arrayIds hb, rfl⟩

end Heap

end Jal
