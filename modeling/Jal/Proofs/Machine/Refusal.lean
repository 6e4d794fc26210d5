import Jal.Proofs.Machine.Blind

namespace Jal

namespace Console

def refusing (c : Console) (n : Nat) : Console := { c with refusesFrom := some n }

structure Reliable (c : Console) : Prop where
  refusesFrom : c.refusesFrom = none
  faults : ∀ n, c.faults n = none

theorem reliable_ofInput (input : List UInt8) (clock : Nat → Option Float) :
    (ofInput input clock).Reliable := ⟨rfl, fun _ => rfl⟩

/-- The second console is the first one later on: texts have been added, none of them empty. -/
structure Later (c c' : Console) : Prop where
  refusesFrom : c'.refusesFrom = c.refusesFrom
  faults : c'.faults = c.faults
  written : ∃ texts, c'.written.toList = c.written.toList ++ texts ∧ ∀ text ∈ texts, text ≠ ""

theorem Later.refl (c : Console) : c.Later c :=
  ⟨rfl, rfl, [], (List.append_nil _).symm, nofun⟩

theorem Later.trans {c d d' : Console} (h : c.Later d) (h' : d.Later d') : c.Later d' := by
  obtain ⟨texts, hw, ht⟩ := h.written
  obtain ⟨texts', hw', ht'⟩ := h'.written
  refine ⟨h'.refusesFrom.trans h.refusesFrom, h'.faults.trans h.faults, texts ++ texts', ?_, ?_⟩
  · rw [hw', hw, List.append_assoc]
  · exact List.forall_mem_append.2 ⟨ht, ht'⟩

theorem Later.isPrefix {c c' : Console} (h : c.Later c') :
    c.written.toList <+: c'.written.toList := by
  obtain ⟨texts, hw, -⟩ := h.written
  exact ⟨texts, hw.symm⟩

theorem Later.reliable {c c' : Console} (h : c.Later c') (hc : c.Reliable) : c'.Reliable :=
  ⟨h.refusesFrom.trans hc.refusesFrom, fun n => by rw [h.faults, hc.faults]⟩

theorem later_call (c : Console) : c.Later c.call.2 :=
  ⟨rfl, rfl, [], (List.append_nil _).symm, nofun⟩

theorem written_record {s : String} (hs : s ≠ "") (c : Console) :
    (c.record s).written = c.written.push s := by
  rw [record, if_neg (by simpa using hs)]

theorem later_record (c : Console) (s : String) : c.Later (c.record s) := by
  by_cases hs : s = ""
  · subst hs
    exact .refl c
  · have hw := written_record hs c
    refine ⟨?_, ?_, [s], by rw [hw, Array.toList_push], ?_⟩
    · unfold record
      split <;> rfl
    · unfold record
      split <;> rfl
    · rintro _ (_ | ⟨_, ⟨⟩⟩)
      exact hs

theorem later_put (c : Console) (s : String) : c.Later (c.put s).2 := by
  unfold put
  split
  · exact .refl c
  · have hcall := c.later_call
    rcases hc : c.call with ⟨_ | message, c'⟩ <;> rw [hc] at hcall
    · exact hcall.trans (c'.later_record s)
    · exact hcall

theorem later_write (c : Console) (s : String) : c.Later (c.write s).2 := by
  have hput := c.later_put s
  unfold write
  rcases hc : c.put s with ⟨_ | message, c'⟩ <;> rw [hc] at hput
  · exact hput.trans c'.later_call
  · exact hput

/-- On a reliable console both the write and the flush are done. -/
theorem Reliable.write {c : Console} (h : c.Reliable) (s : String) :
    c.write s = (none, { c.record s with calls := c.calls + 2 }) := by
  have hr : c.refuses s = false := by
    rw [refuses, h.refusesFrom, Option.any_none, Bool.and_false]
  have hput : c.put s = (none, ({ c with calls := c.calls + 1 } : Console).record s) := by
    simp only [put, hr, Bool.false_eq_true, if_false, call, h.faults]
  simp only [Console.write, hput, call]
  unfold record
  split <;> simp only [h.faults]

theorem write_of_refuses {c : Console} {s : String} (h : c.refuses s = true) :
    c.write s = (some refusedMessage, c) := by
  simp only [write, put, h, if_true]

/-- A console that will refuse only later writes what the other one does. -/
theorem write_refusing {c : Console} {n : Nat} {s : String}
    (h : (c.refusing n).refuses s = false) (hc : c.refusesFrom = none) :
    (c.refusing n).write s = ((c.write s).1, (c.write s).2.refusing n) := by
  have hr : c.refuses s = false := by rw [refuses, hc, Option.any_none, Bool.and_false]
  have hrecord (c : Console) : (c.refusing n).record s = (c.record s).refusing n := by
    unfold record
    split <;> rfl
  have hcall (c : Console) : (c.refusing n).call = (c.call.1, c.call.2.refusing n) := rfl
  have hput : (c.refusing n).put s = ((c.put s).1, (c.put s).2.refusing n) := by
    simp only [put, h, hr, Bool.false_eq_true, if_false, hcall]
    rcases c.call with ⟨_ | message, c'⟩
    · simp only [hrecord]
    · rfl
  simp only [write, hput]
  rcases c.put s with ⟨_ | message, c'⟩
  · exact hcall c'
  · rfl

theorem readLine_refusing (c : Console) (n : Nat) :
    (c.refusing n).readLine = (c.readLine.1, c.readLine.2.refusing n) := by
  unfold readLine refusing
  split <;> rfl

theorem readLine_snd {c c' : Console} {line : Line} (h : c.readLine = (line, c')) :
    ∃ input, c' = { c with input } := by
  unfold readLine at h
  split at h <;> cases h <;> exact ⟨_, rfl⟩

end Console

def Machine.refusing (m : Machine) (n : Nat) : Machine := m.withConsole (m.console.refusing n)

def Native.text (f : Native) (heap : Heap) (arguments : List Value) : String :=
  match f with
  | .print | .input => heap.render (arguments.headD .none)
  | .println => heap.render (arguments.headD .none) ++ "\n"
  | .time => ""

/-- A write that is refused: the line of the error, the console before it, and the text. -/
structure Refusal where
  line : Option Nat
  console : Console
  text : String

namespace Run

variable {α β : Type} {n : Nat} {m : Machine} {act : Run α} {E E' : Refusal → Prop}

/-- The action writes no text that is refused, and so goes on in the same way. -/
structure Spared (n : Nat) (m : Machine) (act : Run α) : Prop where
  size : (act.final m).console.written.size ≤ n
  same : act (m.refusing n) = mapMachine (·.refusing n) (act m)

/-- The action fails with the refusal, where otherwise it would have written the text. -/
structure CutOff (n : Nat) (m : Machine) (act : Run α) (r : Refusal) : Prop where
  size : r.console.written.size = n
  written : r.console.written.toList ++ [r.text] <+: (act.final m).console.written.toList
  error : ∃ m', act (m.refusing n) = .error (.error ⟨r.line, .console refusedMessage⟩) m' ∧
    m'.console = r.console.refusing n

/-- On a console that has not refused anything up to here the action is spared, or it is cut off by
one of the refusals. -/
structure Cuts (n : Nat) (m : Machine) (act : Run α) (E : Refusal → Prop) : Prop where
  later : m.console.Later (act.final m).console
  fate : m.console.Reliable → m.console.written.size ≤ n →
    Spared n m act ∨ ∃ r, E r ∧ CutOff n m act r

theorem Cuts.mono (h : Cuts n m act E) (hE : ∀ r, E r → E' r) : Cuts n m act E' :=
  ⟨h.later, fun hf hs => (h.fate hf hs).imp_right fun ⟨r, he, hc⟩ => ⟨r, hE r he, hc⟩⟩

theorem CutOff.take_written {r : Refusal} (h : CutOff n m act r) :
    (act.final m).console.written.toList.take n = r.console.written.toList := by
  obtain ⟨rest, hw⟩ := h.written
  rw [← hw, List.append_assoc, List.take_left' (by rw [Array.length_toList, h.size])]

theorem CutOff.getElem?_written {r : Refusal} (h : CutOff n m act r) :
    (act.final m).console.written.toList[n]? = some r.text := by
  obtain ⟨rest, hw⟩ := h.written
  have hn : r.console.written.toList.length = n := by rw [Array.length_toList, h.size]
  rw [← hw, List.append_assoc, List.getElem?_append_right (Nat.le_of_eq hn), hn, Nat.sub_self]
  rfl

theorem CutOff.lt_size {r : Refusal} (h : CutOff n m act r) :
    n < (act.final m).console.written.size := by
  obtain ⟨hn, -⟩ := List.getElem?_eq_some_iff.1 h.getElem?_written
  rwa [Array.length_toList] at hn

theorem Spared.bind {next : α → Run β} {a : α} {m₁ : Machine} (h : Spared n m act)
    (ha : act m = .ok a m₁) : (act >>= next) (m.refusing n) = next a (m₁.refusing n) := by
  have hs := h.same
  rw [ha] at hs
  simp only [Bind.bind, EStateM.bind, hs, mapMachine]

theorem CutOff.bind {next : α → Run β} {r : Refusal} (h : CutOff n m act r)
    (hl : (act.final m).console.Later ((act >>= next).final m).console) :
    CutOff n m (act >>= next) r := by
  obtain ⟨m', he, hm'⟩ := h.error
  refine ⟨h.size, h.written.trans hl.isPrefix, m', ?_, hm'⟩
  simp only [Bind.bind, EStateM.bind, he]

/-- One action after the other: the second one is begun with a console that has refused nothing
either. -/
theorem Cuts.bind {next : α → Run β} (h : Cuts n m act E)
    (h' : ∀ a m₁, act m = .ok a m₁ → Cuts n m₁ (next a) E) : Cuts n m (act >>= next) E := by
  cases ha : act m with
  | error e m₁ =>
    have hf : (act >>= next).final m = act.final m :=
      (final_bind_error ha).trans (final_error ha).symm
    refine ⟨hf ▸ h.later, fun hr hs => (h.fate hr hs).imp (fun hsp => ⟨hf ▸ hsp.size, ?_⟩) ?_⟩
    · have hsame := hsp.same
      rw [ha] at hsame
      simp only [Bind.bind, EStateM.bind, ha, hsame, mapMachine]
    · rintro ⟨r, he, hc⟩
      exact ⟨r, he, hc.bind (hf ▸ .refl _)⟩
  | ok a m₁ =>
    have hnext := h' a m₁ ha
    have hf : (act >>= next).final m = (next a).final m₁ := final_bind_ok ha
    have hlater := h.later
    rw [final_ok ha] at hlater
    refine ⟨hf ▸ hlater.trans hnext.later, fun hr hs => ?_⟩
    rcases h.fate hr hs with hsp | ⟨r, he, hc⟩
    · have hsize := hsp.size
      rw [final_ok ha] at hsize
      refine (hnext.fate (hlater.reliable hr) hsize).imp
        (fun hsp' => ⟨hf ▸ hsp'.size, ?_⟩) ?_
      · rw [hsp.bind ha, hsp'.same]
        simp only [Bind.bind, EStateM.bind, ha]
      · rintro ⟨r, he, hc⟩
        refine ⟨r, he, hc.size, hf ▸ hc.written, ?_⟩
        rw [hsp.bind ha]
        exact hc.error
    · refine .inr ⟨r, he, hc.bind ?_⟩
      rw [hf, final_ok ha]
      exact hnext.later

/-- An action that writes nothing and does not ask what is refused. -/
theorem cuts_of_same (hl : m.console.Later (act.final m).console)
    (hw : (act.final m).console.written = m.console.written)
    (hs : act (m.refusing n) = mapMachine (·.refusing n) (act m)) : Cuts n m act E where
  later := hl
  fate := fun _ hsize => .inl ⟨hw ▸ hsize, hs⟩

theorem Blind.cuts (h : Blind act) : Cuts n m act E := by
  have hf : (act.final m).console = m.console := by
    rw [h.final_eq m]
    rfl
  refine cuts_of_same (hf ▸ .refl _) (by rw [hf]) ?_
  exact h.eq_map m (m.console.refusing n) m.depth fun _ => rfl

theorem Cuts.orLine {line : Nat} (h : Cuts n m act E)
    (hE : ∀ r, E r → E' { r with line := r.line <|> some line }) :
    Cuts n m (orLine line act) E' := by
  have hf := final_orLine line act m
  refine ⟨hf.symm ▸ h.later, fun hr hs => ?_⟩
  refine (h.fate hr hs).imp (fun hsp => ⟨hf.symm ▸ hsp.size, ?_⟩) ?_
  · have hsame := hsp.same
    rcases ha : act m with ⟨a, m₁⟩ | ⟨_ | _, m₁⟩ <;> rw [ha] at hsame <;>
      simp only [Run.orLine, ha, hsame, mapMachine]
  · rintro ⟨r, he, hc⟩
    obtain ⟨m', hx, hm'⟩ := hc.error
    refine ⟨_, hE r he, hc.size, hf.symm ▸ hc.written, m', ?_, hm'⟩
    simp only [Run.orLine, hx, RuntimeError.orLine]

/-- An action that runs another one on a machine with the same console, and puts back what it
changed there. -/
theorem Cuts.within {act' : Run α} {m₀ : Machine} (back : Machine → Machine) (h : Cuts n m₀ act E)
    (hm : m₀.console = m.console) (hb : ∀ m' c, back (m'.withConsole c) = (back m').withConsole c)
    (ha : ∀ c, act' (m.withConsole c) = mapMachine back (act (m₀.withConsole c))) :
    Cuts n m act' E := by
  have hback (m' : Machine) : (back m').console = m'.console := by
    have hc := congrArg Machine.console (hb m' m'.console)
    exact hc
  have hself : act' m = mapMachine back (act m₀) := by
    have hc := ha m.console
    rw [← hm] at hc
    exact (congrArg act' (show m = m.withConsole m₀.console by rw [hm]; rfl)).trans hc
  have hrefusing : act' (m.refusing n) = mapMachine back (act (m₀.refusing n)) := by
    rw [Machine.refusing, Machine.refusing, hm]
    exact ha _
  have hf : (act'.final m).console = (act.final m₀).console := by
    rcases hx : act m₀ with ⟨a, m₁⟩ | ⟨e, m₁⟩ <;> rw [hx] at hself
    · rw [final_ok hself, final_ok hx, hback]
    · rw [final_error hself, final_error hx, hback]
  refine ⟨hf ▸ hm ▸ h.later, fun hr hs => ?_⟩
  refine (h.fate (hm ▸ hr) (hm ▸ hs)).imp (fun hsp => ⟨hf ▸ hsp.size, ?_⟩) ?_
  · rw [hrefusing, hsp.same, hself]
    rcases act m₀ with ⟨a, m₁⟩ | ⟨e, m₁⟩ <;>
      simp only [mapMachine, Machine.refusing, hb, hback]
  · rintro ⟨r, he, hc⟩
    obtain ⟨m', hx, hm'⟩ := hc.error
    refine ⟨r, he, hc.size, hf ▸ hc.written, back m', ?_, (hback m').trans hm'⟩
    rw [hrefusing, hx, mapMachine]

theorem Cuts.congr {act' : Run α} (h : Cuts n m act E)
    (ha : ∀ c, act' (m.withConsole c) = act (m.withConsole c)) : Cuts n m act' E := by
  refine h.within id rfl (fun _ _ => rfl) fun c => (ha c).trans ?_
  cases act (m.withConsole c) <;> rfl

theorem Cuts.inFrame {f : FrameId} (h : Cuts n { m with frame := f } act E) :
    Cuts n m (inFrame f act) E := by
  refine h.within (fun m' => { m' with frame := m.frame }) rfl (fun _ _ => rfl) fun c => ?_
  simp only [Run.inFrame, Machine.withConsole]
  cases act { m with frame := f, console := c } <;> rfl

theorem Cuts.inLoop {act : Nat → Run α} (h : Cuts n m.enterLoop (act m.nextLoop) E) :
    Cuts n m (inLoop act) E := by
  refine h.within Machine.leaveLoop rfl (fun _ _ => rfl) fun c => ?_
  simp only [Run.inLoop, Machine.withConsole, Machine.enterLoop]
  cases act m.nextLoop _ <;> rfl

theorem Cuts.inCall {f : FrameId} (h : m.depth < maxDepth → Cuts n (m.enterCall f) act E) :
    Cuts n m (inCall f act) E := by
  by_cases hd : maxDepth ≤ m.depth
  · have hover : Cuts n m (fail .stackOverflow : Run α) E := (blind_throw _).cuts
    refine hover.congr fun c => ?_
    have hd' : maxDepth ≤ (m.withConsole c).depth := hd
    rw [Run.inCall, if_pos hd']
  · refine (h (Nat.lt_of_not_le hd)).within (·.leaveCall m.frame m.loops) rfl (fun _ _ => rfl) ?_
    intro c
    have hd' : ¬maxDepth ≤ (m.withConsole c).depth := hd
    rw [Run.inCall, if_neg hd']
    simp only [Machine.withConsole, Machine.enterCall]
    cases act _ <;> rfl

/-- Only write `n` itself is cut off: an empty text is not written, and one before it is not
refused. -/
theorem cuts_write (s : String) :
    Cuts n m (write s) fun r => r = ⟨none, m.console, s⟩ ∧ m.console.written.size = n ∧ s ≠ "" := by
  refine ⟨?_, fun hr hsize => ?_⟩
  · have hl := m.console.later_write s
    rcases hc : m.console.write s with ⟨_ | message, c⟩ <;> rw [hc] at hl
    · rw [final_ok (write_of_ok hc)]
      exact hl
    · rw [final_error (write_of_fault hc)]
      exact hl
  · have hw := write_of_ok (hr.write s)
    have hf : ((write s).final m).console.written = (m.console.record s).written := by
      rw [final_ok hw]
    -- the two consoles write alike unless the second one refuses this text
    have hspared (h : (m.refusing n).console.refuses s = false)
        (hn : (m.console.record s).written.size ≤ n) : Spared n m (write s) := by
      refine ⟨hf ▸ hn, ?_⟩
      have hc := Console.write_refusing h hr.refusesFrom
      rw [hr.write] at hc
      rw [hw]
      exact write_of_ok hc
    by_cases hs : s = ""
    · subst hs
      exact .inl (hspared rfl hsize)
    have hrefuses : (m.refusing n).console.refuses s = decide (n ≤ m.console.written.size) := by
      have he : s.isEmpty = false := by simpa using hs
      rw [Console.refuses, he]
      rfl
    have hpush := Console.written_record hs m.console
    rcases Nat.lt_or_eq_of_le hsize with hlt | heq
    · refine .inl (hspared ?_ (by rw [hpush, Array.size_push]; exact hlt))
      rw [hrefuses, decide_eq_false (Nat.not_le_of_lt hlt)]
    · rw [decide_eq_true (Nat.le_of_eq heq.symm)] at hrefuses
      refine .inr ⟨_, ⟨rfl, heq, hs⟩, heq, ?_, m.refusing n, ?_, rfl⟩
      · simp only [hf, hpush, Array.toList_push, List.prefix_refl]
      · exact write_of_fault (Console.write_of_refuses hrefuses)

theorem cuts_readLine : Cuts n m readLine E := by
  rcases hx : m.console.readLine with ⟨line, c⟩
  obtain ⟨input, rfl⟩ := Console.readLine_snd hx
  have hr : (m.refusing n).console.readLine = (line, { m.console.refusing n with input }) := by
    have h := m.console.readLine_refusing n
    rw [hx] at h
    exact h
  have hfinal : (readLine.final m).console = { m.console with input } := by
    unfold final readLine
    rw [hx]
    cases line <;> rfl
  refine cuts_of_same ?_ (by rw [hfinal]) ?_
  · rw [hfinal]
    exact ⟨rfl, rfl, [], (List.append_nil _).symm, nofun⟩
  · unfold readLine
    rw [hx, hr]
    cases line <;> rfl

theorem cuts_now : Cuts n m now E := by
  have hx : m.console.now = (m.console.clock m.console.readings, _) := rfl
  have hr : (m.refusing n).console.now = (m.console.clock m.console.readings, _) := rfl
  have hfinal : (now.final m).console = m.console.now.2 := by
    unfold final now
    rw [hx]
    cases m.console.clock m.console.readings <;> rfl
  refine cuts_of_same ?_ (by rw [hfinal]; rfl) ?_
  · rw [hfinal]
    exact ⟨rfl, rfl, [], (List.append_nil _).symm, nofun⟩
  · unfold now
    rw [hx, hr]
    cases m.console.clock m.console.readings <;> rfl

theorem cuts_callNative (f : Native) (arguments : List Value) :
    Cuts n m (callNative f arguments) fun r => r = ⟨none, m.console, f.text m.heap arguments⟩ ∧
      m.console.written.size = n ∧ f.text m.heap arguments ≠ "" := by
  have written {next : Unit → Run Value} (hn : ∀ u m₁, Cuts n m₁ (next u) fun r =>
      r = ⟨none, m.console, f.text m.heap arguments⟩ ∧ m.console.written.size = n ∧
        f.text m.heap arguments ≠ "") :
      Cuts n m (write (f.text m.heap arguments) >>= next) fun r =>
        r = ⟨none, m.console, f.text m.heap arguments⟩ ∧ m.console.written.size = n ∧
          f.text m.heap arguments ≠ "" := (cuts_write _).bind fun u m₁ _ => hn u m₁
  cases f with
  | print => exact (written fun _ _ => (blind_pure Value.none).cuts).congr fun _ => rfl
  | println => exact (written fun _ _ => (blind_pure Value.none).cuts).congr fun _ => rfl
  | input => exact (written fun _ _ => cuts_readLine).congr fun _ => rfl
  | time => exact (cuts_now).congr fun _ => rfl

end Run

end Jal
