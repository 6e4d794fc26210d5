import Jal.Heap.Unvisited
import Std.Data.HashSet

namespace Jal

namespace Value

/-- Equality of two values that are not both arrays. -/
def same : Value → Value → Bool
  | none, none => true
  | bool b, bool c => b == c
  | number x, number y => x == y
  | text s, text t => s == t
  | native f, native g => f == g
  | function _ s, function _ t => s == t
  | classValue c, classValue d => c.own.stamp == d.own.stamp
  | object i, object j => i == j
  | _, _ => false

end Value

namespace Heap

abbrev ArrayPairs := Std.HashSet (ArrayId × ArrayId)

/-- All pairs of `todo` are equal, given that the elements of the pairs in `opened` are. -/
def equalAll (h : Heap) (opened : ArrayPairs) (todo : List (Value × Value)) : Bool :=
  match todo with
  | [] => true
  | (.array a, .array b) :: rest =>
    if a = b then h.equalAll opened rest
    else if hp : opened.contains (a, b) then h.equalAll opened rest
    else if hab : a.index < h.arrays.size ∧ b.index < h.arrays.size then
      have ha := hab.1
      have hb := hab.2
      let vs := h.arrays[a.index]
      let ws := h.arrays[b.index]
      vs.size == ws.size &&
        h.equalAll (opened.insert (a, b)) (vs.toList.zip ws.toList ++ rest)
    else false
  | (v, w) :: rest => v.same w && h.equalAll opened rest
termination_by (unvisited h.arrayPairs opened.contains, todo.length)
decreasing_by
  · exact Prod.Lex.right _ (Nat.lt_succ_self _)
  · exact Prod.Lex.right _ (Nat.lt_succ_self _)
  · refine Prod.Lex.left _ _ (unvisited_lt (mem_arrayPairs ha hb) (Bool.eq_false_iff.2 hp) ?_ ?_)
    · exact Std.HashSet.contains_insert_self
    · intro p h
      rw [Std.HashSet.contains_insert, h, Bool.or_true]
  · exact Prod.Lex.right _ (Nat.lt_succ_self _)

def equal (h : Heap) (v w : Value) : Bool := h.equalAll ∅ [(v, w)]

end Heap

end Jal
