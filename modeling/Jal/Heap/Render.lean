import Jal.Heap.Unvisited
import Jal.Number.Shortest
import Jal.Program.Render
import Std.Data.TreeSet

namespace Jal

namespace Heap

abbrev ArrayPath := Std.TreeSet Nat

mutual

/-- The text of a value inside the arrays of `path`. -/
def renderIn (h : Heap) (path : ArrayPath) (v : Value) : String :=
  match v with
  | .none => "none"
  | .bool b => if b then "true" else "false"
  | .number x => Number.text x
  | .text s => s
  | .array a =>
    if hp : path.contains a.index then "[...]"
    else if ha : a.index < h.arrays.size then
      "[" ++ withCommas (renderAll h (path.insert a.index) h.arrays[a.index].toList) ++ "]"
    else "[]"
  | .native f => "<native func " ++ f.name ++ ">"
  | .function c _ => "<func " ++ c.name ++ ">"
  | .classValue c => "<class " ++ c.name ++ ">"
  | .object i =>
    "<instance of " ++ ((h.instance? i).map fun o => o.ofClass.name).getD "" ++ ">"
termination_by (unvisited h.arrayIds fun a => path.contains a.index, 0)
decreasing_by
  refine Prod.Lex.left _ _ (unvisited_lt (mem_arrayIds ha) (Bool.eq_false_iff.2 hp) ?_ ?_)
  · exact Std.TreeSet.contains_insert_self
  · intro b h
    rw [Std.TreeSet.contains_insert, h, Bool.or_true]

def renderAll (h : Heap) (path : ArrayPath) (vs : List Value) : List String :=
  match vs with
  | [] => []
  | v :: rest => renderIn h path v :: renderAll h path rest
termination_by (unvisited h.arrayIds fun a => path.contains a.index, vs.length + 1)

end

def render (h : Heap) (v : Value) : String := h.renderIn ∅ v

end Heap

end Jal
