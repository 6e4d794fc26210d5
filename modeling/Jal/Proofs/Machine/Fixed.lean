import Jal.Proofs.Machine.Fits

namespace Jal

/-- Every frame stays, and `self` and `super` are in it what they were, or still nothing. -/
def Heap.Fixed (h h' : Heap) : Prop :=
  ∀ f frame, h.frame? f = some frame → ∃ frame', h'.frame? f = some frame' ∧
    ∀ name, ¬IsPlain name → frame'.bindings.lookup name = frame.bindings.lookup name

namespace Heap.Fixed

variable {h h' h'' : Heap}

theorem refl (h : Heap) : h.Fixed h := fun _ frame hf => ⟨frame, hf, fun _ _ => rfl⟩

theorem trans (k : h.Fixed h') (k' : h'.Fixed h'') : h.Fixed h'' := by
  intro f frame hf
  obtain ⟨frame', hf', hb⟩ := k f frame hf
  obtain ⟨frame'', hf'', hb'⟩ := k' f frame' hf'
  exact ⟨frame'', hf'', fun name hn => (hb' name hn).trans (hb name hn)⟩

theorem of_frames (he : h'.frames = h.frames) : h.Fixed h' := by
  intro f frame hf
  exact ⟨frame, by rw [frame?, he]; exact hf, fun _ _ => rfl⟩

theorem newFrame (h : Heap) (bindings : Bindings) (outer : Option FrameId) :
    h.Fixed (h.newFrame bindings outer).2 :=
  fun _ frame hf => ⟨frame, frame?_newFrame bindings outer hf, fun _ _ => rfl⟩

theorem define (h : Heap) (f : FrameId) {name : String} (hn : IsPlain name) (v : Value) :
    h.Fixed (h.define f name v) := by
  intro g frame hg
  rw [frame?_define, hg]
  refine ⟨_, rfl, fun x hx => ?_⟩
  split
  · exact Bindings.lookup_set_of_ne _ v fun he => hx (he ▸ hn)
  · rfl

/-- What the frame has at two times that lead to a common one is the same. -/
theorem lookup_eq (k : h.Fixed h'') (k' : h'.Fixed h'') {f : FrameId} {frame frame' : Frame}
    (hf : h.frame? f = some frame) (hf' : h'.frame? f = some frame') {name : String}
    (hn : ¬IsPlain name) : frame'.bindings.lookup name = frame.bindings.lookup name := by
  obtain ⟨last, hl, hb⟩ := k f frame hf
  obtain ⟨last', hl', hb'⟩ := k' f frame' hf'
  obtain rfl := Option.some.inj (hl.symm.trans hl')
  exact (hb' name hn).symm.trans (hb name hn)

end Heap.Fixed

/-- A run that declares and assigns plain names only leaves `self` and `super` alone. -/
theorem Run.respected_fixed : Respected IsPlain fun m m' => m.heap.Fixed m'.heap where
  refl m := .refl m.heap
  trans h h' := h.trans h'
  heap e hn := by
    cases e with
    | newFrame bindings outer => exact .newFrame _ bindings outer
    | define f name v => exact .define _ f (hn name rfl) v
    | newArray | newInstance | newStamp | setElement | setField => exact .of_frames rfl
  console m _ := .refl m.heap
  frame h := h
  loop h := h
  call h := h

end Jal
