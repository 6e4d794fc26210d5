import Jal.Proofs.Machine.Respects
import Jal.Proofs.Scope.Orderly

namespace Jal

namespace Bindings

theorem lookup_set_self (b : Bindings) (name : String) (v : Value) :
    (b.set name v).lookup name = some v := by
  induction b with
  | nil => simp [set]
  | cons entry rest ih =>
    obtain ⟨other, w⟩ := entry
    rw [set]
    split
    · exact List.lookup_cons_self
    · rename_i hne
      rw [lookup_cons_of_ne (Ne.symm hne), ih]

theorem lookup_set_of_ne (b : Bindings) {name x : String} (v : Value) (h : x ≠ name) :
    (b.set name v).lookup x = b.lookup x := by
  induction b with
  | nil => rw [set, lookup_cons_of_ne h]
  | cons entry rest ih =>
    obtain ⟨other, w⟩ := entry
    rw [set]
    split
    · rename_i he
      rw [he, lookup_cons_of_ne h, lookup_cons_of_ne h]
    · by_cases hx : x = other
      · rw [hx, List.lookup_cons_self, List.lookup_cons_self]
      · rw [lookup_cons_of_ne hx, lookup_cons_of_ne hx, ih]

/-- What a name is bound to after another binding has been set. -/
theorem lookup_set (b : Bindings) (name x : String) (v : Value) :
    (b.set name v).lookup x = if x = name then some v else b.lookup x := by
  split
  · rename_i h
    rw [h, lookup_set_self]
  · rename_i h
    exact lookup_set_of_ne b v h

end Bindings

/-- Frames keep their links and their names, arrays their length, and instances their class and
their fields. -/
structure Heap.Grows (h h' : Heap) : Prop where
  frames : ∀ f frame, h.frame? f = some frame → ∃ frame', h'.frame? f = some frame' ∧
    frame'.outer = frame.outer ∧
    ∀ name, (frame.bindings.lookup name).isSome → (frame'.bindings.lookup name).isSome
  arrays : ∀ (a : ArrayId) elements, h.arrays[a.index]? = some elements →
    ∃ elements', h'.arrays[a.index]? = some elements' ∧ elements'.size = elements.size
  instances : ∀ i o, h.instance? i = some o → ∃ o', h'.instance? i = some o' ∧
    o'.ofClass = o.ofClass ∧
    ∀ name, (o.fields.lookup name).isSome → (o'.fields.lookup name).isSome

namespace Heap

theorem Grows.refl (h : Heap) : h.Grows h where
  frames _ frame hf := ⟨frame, hf, rfl, fun _ h => h⟩
  arrays _ elements ha := ⟨elements, ha, rfl⟩
  instances _ o ho := ⟨o, ho, rfl, fun _ h => h⟩

theorem Grows.trans {h h' h'' : Heap} (g : h.Grows h') (g' : h'.Grows h'') : h.Grows h'' where
  frames f frame hf := by
    obtain ⟨frame', hf', ho, hb⟩ := g.frames f frame hf
    obtain ⟨frame'', hf'', ho', hb'⟩ := g'.frames f frame' hf'
    exact ⟨frame'', hf'', ho'.trans ho, fun name hn => hb' name (hb name hn)⟩
  arrays a elements ha := by
    obtain ⟨elements', ha', hs⟩ := g.arrays a elements ha
    obtain ⟨elements'', ha'', hs'⟩ := g'.arrays a elements' ha'
    exact ⟨elements'', ha'', hs'.trans hs⟩
  instances i o ho := by
    obtain ⟨o', ho', hc, hb⟩ := g.instances i o ho
    obtain ⟨o'', ho'', hc', hb'⟩ := g'.instances i o' ho'
    exact ⟨o'', ho'', hc'.trans hc, fun name hn => hb' name (hb name hn)⟩

theorem frame?_newFrame_self (h : Heap) (bindings : Bindings) (outer : Option FrameId) :
    (h.newFrame bindings outer).2.frame? (h.newFrame bindings outer).1 =
      some ⟨bindings, outer⟩ := by
  simp [newFrame, frame?]

theorem frame?_newFrame {h : Heap} {f : FrameId} {frame : Frame} (bindings : Bindings)
    (outer : Option FrameId) (hf : h.frame? f = some frame) :
    (h.newFrame bindings outer).2.frame? f = some frame := by
  unfold frame? newFrame at *
  rw [Array.getElem?_push]
  split
  · rename_i hi
    rw [hi, Array.getElem?_eq_none (Nat.le_refl _)] at hf
    cases hf
  · exact hf

/-- A frame that is there after a new one was made is the new one or was there before. -/
theorem frame?_newFrame_cases {h : Heap} {bindings : Bindings} {outer : Option FrameId}
    {f : FrameId} {frame : Frame} (hf : (h.newFrame bindings outer).2.frame? f = some frame) :
    frame = ⟨bindings, outer⟩ ∨ h.frame? f = some frame := by
  unfold frame? newFrame at *
  rw [Array.getElem?_push] at hf
  split at hf
  · exact .inl (Option.some.inj hf).symm
  · exact .inr hf

theorem frame?_define (h : Heap) (f g : FrameId) (name : String) (v : Value) :
    (h.define f name v).frame? g =
      (h.frame? g).map fun frame =>
        if f.index = g.index then { frame with bindings := Bindings.set frame.bindings name v }
        else frame := by
  simp only [define, frame?, Array.getElem?_modify]
  split
  · rfl
  · cases h.frames[g.index]? <;> rfl

theorem instance?_setField (h : Heap) (i j : InstanceId) (name : String) (v : Value) :
    (h.setField i name v).instance? j =
      (h.instance? j).map fun o =>
        if i.index = j.index then { o with fields := Bindings.set o.fields name v } else o := by
  simp only [setField, instance?, Array.getElem?_modify]
  split
  · rfl
  · cases h.instances[j.index]? <;> rfl

theorem Edit.grows {h h' : Heap} {name : Option String} (e : h.Edit name h') : h.Grows h' := by
  cases e with
  | newFrame bindings outer =>
    exact
      { Grows.refl h with
        frames := fun f frame hf =>
          ⟨frame, frame?_newFrame bindings outer hf, rfl, fun _ hn => hn⟩ }
  | newArray elements =>
    refine { Grows.refl h with arrays := fun a old ha => ⟨old, ?_, rfl⟩ }
    have hlt := (Array.getElem?_eq_some_iff.1 ha).1
    rw [Heap.newArray, Array.getElem?_push, if_neg (Nat.ne_of_lt hlt)]
    exact ha
  | newInstance c =>
    refine { Grows.refl h with instances := fun i o ho => ⟨o, ?_, rfl, fun _ hn => hn⟩ }
    have hlt := (Array.getElem?_eq_some_iff.1 ho).1
    rw [Heap.newInstance, instance?, Array.getElem?_push, if_neg (Nat.ne_of_lt hlt)]
    exact ho
  | newStamp =>
    exact ⟨(Grows.refl h).frames, (Grows.refl h).arrays, (Grows.refl h).instances⟩
  | define f name v =>
    refine { Grows.refl h with frames := fun g frame hg => ?_ }
    rw [frame?_define, hg]
    refine ⟨_, rfl, ?_, ?_⟩
    · split <;> rfl
    · intro x hx
      split
      · rw [Bindings.lookup_set]
        split
        · rfl
        · exact hx
      · exact hx
  | setElement a slot v =>
    refine { Grows.refl h with arrays := fun b elements hb => ?_ }
    simp only [Heap.setElement, Array.getElem?_modify, hb]
    split
    · exact ⟨_, rfl, Array.size_setIfInBounds⟩
    · exact ⟨_, rfl, rfl⟩
  | setField i name v =>
    refine { Grows.refl h with instances := fun j o ho => ?_ }
    rw [instance?_setField, ho]
    refine ⟨_, rfl, ?_, ?_⟩
    · split <;> rfl
    · intro x hx
      split
      · rw [Bindings.lookup_set]
        split
        · rfl
        · exact hx
      · exact hx

end Heap

theorem Run.respected_grows : Respected (fun _ => True) fun m m' => m.heap.Grows m'.heap where
  refl m := .refl m.heap
  trans := .trans
  heap e _ := e.grows
  console m _ := .refl m.heap
  frame h := h
  loop h := h
  call h := h

end Jal
