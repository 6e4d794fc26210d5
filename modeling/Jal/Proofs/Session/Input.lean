import Mathlib.Data.List.Basic
import Mathlib.Data.List.TakeDrop
import Mathlib.Logic.ExistsUnique
import Jal.Session

namespace Jal

/-- The bytes of an input, cut after each newline. What follows the last newline is a segment
unless it is empty. -/
inductive Segmented : List (List UInt8) → Prop where
  | nil : Segmented []
  | last {line : List UInt8} (hne : line ≠ []) (hline : newlineByte ∉ line) : Segmented [line]
  | cons {line : List UInt8} {segs : List (List UInt8)} (hline : newlineByte ∉ line)
      (rest : Segmented segs) : Segmented ((line ++ [newlineByte]) :: segs)

theorem exists_segmented (input : List UInt8) : ∃ segs, Segmented segs ∧ segs.flatten = input := by
  induction input with
  | nil => exact ⟨[], .nil, rfl⟩
  | cons b bytes ih =>
    obtain ⟨segs, hsegs, hbytes⟩ := ih
    by_cases hb : b = newlineByte
    · subst hb
      exact ⟨[newlineByte] :: segs, .cons List.not_mem_nil hsegs, congrArg _ hbytes⟩
    -- any other byte begins the first segment of what follows it
    · have hnotMem : ∀ {line : List UInt8}, newlineByte ∉ line → newlineByte ∉ b :: line :=
        fun hline hmem => (List.mem_cons.1 hmem).elim (hb ·.symm) hline
      cases hsegs with
      | nil =>
        exact ⟨[[b]], .last (List.cons_ne_nil b _) (hnotMem List.not_mem_nil), congrArg _ hbytes⟩
      | @last line _ hline =>
        exact ⟨[b :: line], .last (List.cons_ne_nil b _) (hnotMem hline), congrArg _ hbytes⟩
      | @cons line segs hline rest =>
        exact ⟨(b :: line ++ [newlineByte]) :: segs, .cons (hnotMem hline) rest, congrArg _ hbytes⟩

theorem span_line {line : List UInt8} (hline : newlineByte ∉ line) (after : List UInt8)
    (hafter : ∀ b ∈ after.head?, b = newlineByte) :
    ((line ++ after).map Except.ok).span continuesLine = (line.map .ok, after.map .ok) := by
  have hpos : ∀ b ∈ line.map Except.ok, continuesLine b = true := by
    intro b hb
    obtain ⟨b, hmem, rfl⟩ := List.mem_map.1 hb
    exact bne_iff_ne.2 fun he => hline (he ▸ hmem)
  rw [List.map_append, List.span_eq_takeWhile_dropWhile, List.takeWhile_append_of_pos hpos,
    List.dropWhile_append_of_pos hpos]
  cases after with
  | nil => rw [List.map_nil, List.takeWhile_nil, List.append_nil, List.dropWhile_nil]
  | cons b after =>
    obtain rfl := hafter b rfl
    rw [List.map_cons, List.takeWhile_cons_of_neg (by decide), List.append_nil,
      List.dropWhile_cons_of_neg (by decide)]

theorem filterMap_ok (bytes : List UInt8) :
    (bytes.map (Except.ok : UInt8 → Except String UInt8)).filterMap Except.toOption = bytes := by
  rw [List.filterMap_map]
  exact List.filterMap_some

namespace Segmented

variable {seg : List UInt8} {segs segs' : List (List UInt8)}

theorem tail (h : Segmented segs) : Segmented segs.tail := by
  cases h with
  | nil => exact .nil
  | last => exact .nil
  | cons _ rest => exact rest

theorem flatten_ne_nil (h : Segmented (seg :: segs)) : (seg :: segs).flatten ≠ [] := by
  have hseg : seg ≠ [] := by
    cases h with
    | last hne => exact hne
    | cons => exact List.append_ne_nil_of_right_ne_nil _ (List.cons_ne_nil _ _)
  rw [List.flatten_cons]
  exact List.append_ne_nil_of_left_ne_nil hseg _

theorem splitLine_flatten (h : Segmented (seg :: segs)) :
    splitLine ((seg :: segs).flatten.map .ok) = (.ok seg, segs.flatten.map .ok) := by
  cases h with
  | last _ hline =>
    have hspan := span_line hline [] nofun
    rw [List.flatten_cons, List.flatten_nil, splitLine, hspan]
    simp only [filterMap_ok, List.map_nil]
  | @cons line _ hline =>
    have hspan := span_line hline (newlineByte :: segs.flatten) fun b hb =>
      (Option.some.inj hb).symm
    rw [List.flatten_cons, List.append_assoc, List.singleton_append, splitLine, hspan]
    simp only [filterMap_ok, List.map_cons]

theorem eq_of_flatten (h : Segmented segs) (h' : Segmented segs')
    (he : segs.flatten = segs'.flatten) : segs = segs' := by
  induction segs generalizing segs' with
  | nil =>
    cases segs' with
    | nil => rfl
    | cons seg' segs' => exact absurd he.symm h'.flatten_ne_nil
  | cons seg segs ih =>
    cases segs' with
    | nil => exact absurd he h.flatten_ne_nil
    | cons seg' segs' =>
      have hsplit := h.splitLine_flatten
      rw [he, h'.splitLine_flatten] at hsplit
      obtain ⟨hseg, hrest⟩ := Prod.mk.inj hsplit
      obtain rfl := Except.ok.inj hseg
      have hrest : segs'.flatten = segs.flatten :=
        List.map_injective_iff.2 (fun _ _ => Except.ok.inj) hrest
      have hsegs : segs = segs' := ih h.tail h'.tail hrest.symm
      rw [hsegs]

end Segmented

def returnByte : UInt8 := 13

/-- The bytes of a segment without its newline and one carriage return right before that. -/
inductive Stripped : List UInt8 → List UInt8 → Prop where
  | crlf (line : List UInt8) : Stripped (line ++ [returnByte, newlineByte]) line
  | lf {line : List UInt8} (hline : line.getLast? ≠ some returnByte) :
      Stripped (line ++ [newlineByte]) line
  | bare {line : List UInt8} (hline : line.getLast? ≠ some newlineByte) : Stripped line line

def encode (s : String) : List UInt8 := s.toUTF8.data.toList

theorem encode_eq (s : String) : encode s = s.toList.flatMap String.utf8EncodeChar := by
  rw [encode, String.toUTF8_eq_toByteArray, ← String.utf8Encode_toList, List.utf8Encode,
    List.toList_data_toByteArray]

theorem decode?_of_valid {bytes : List UInt8} (h : ByteArray.IsValidUTF8 ⟨bytes.toArray⟩) :
    ∃ s, decode? bytes = some s ∧ encode s = bytes :=
  ⟨.fromUTF8 _ h, dif_pos h, rfl⟩

theorem decode?_of_invalid {bytes : List UInt8} (h : ¬ByteArray.IsValidUTF8 ⟨bytes.toArray⟩) :
    decode? bytes = none :=
  dif_neg h

/-- Only a character of one byte ends in a byte below `128`. -/
theorem getLast?_utf8EncodeChar {c : Char} {b : UInt8} (hb : b < 128)
    (h : (String.utf8EncodeChar c).getLast? = some b) : Char.ofNat b.toNat = c := by
  have hhigh : ∀ v : Nat, UInt8.ofNat (v % 64 + 128) ≠ b := by
    rintro v rfl
    have hlt : (v % 64 + 128) % 256 < 128 := UInt8.lt_iff_toNat_lt.1 hb
    omega
  revert h
  fun_cases String.utf8EncodeChar c with
  | case1 v hv =>
    intro h
    obtain rfl : UInt8.ofNat v = b := Option.some.inj h
    have hmod : (UInt8.ofNat v).toNat = c.toNat := Nat.mod_eq_of_lt (by omega)
    rw [hmod, Char.ofNat_toNat]
  | case2 v => exact fun h => absurd (Option.some.inj h) (hhigh v)
  | case3 v => exact fun h => absurd (Option.some.inj h) (hhigh v)
  | case4 v => exact fun h => absurd (Option.some.inj h) (hhigh v)

/-- The last character of a text whose encoding ends in a byte below `128`. -/
theorem getLast?_of_flatMap {cs : List Char} {b : UInt8} (hb : b < 128)
    (h : (cs.flatMap String.utf8EncodeChar).getLast? = some b) :
    cs.getLast? = some (Char.ofNat b.toNat) := by
  obtain rfl | ⟨init, c, rfl⟩ := List.eq_nil_or_concat' cs
  · cases h
  · rw [List.flatMap_append, List.flatMap_singleton,
      List.getLast?_append_of_ne_nil _ String.utf8EncodeChar_ne_nil] at h
    rw [List.getLast?_concat, getLast?_utf8EncodeChar hb h]

theorem stripped_chomp (cs : List Char) :
    Stripped (cs.flatMap String.utf8EncodeChar) ((chomp cs).flatMap String.utf8EncodeChar) := by
  fun_cases chomp cs with
  | case1 rest h =>
    have hcs : cs = rest.reverse ++ ['\r', '\n'] := by simpa using List.reverse_eq_iff.1 h
    rw [hcs, List.flatMap_append]
    exact .crlf _
  | case2 rest hne h =>
    have hcs : cs = rest.reverse ++ ['\n'] := by simpa using List.reverse_eq_iff.1 h
    rw [hcs, List.flatMap_append]
    refine .lf fun hlast => ?_
    have hr := getLast?_of_flatMap (by decide) hlast
    rw [List.getLast?_reverse, List.head?_eq_some_iff] at hr
    exact hr.elim hne
  | case3 _ hne =>
    refine .bare fun hlast => ?_
    have hn := getLast?_of_flatMap (by decide) hlast
    rw [List.getLast?_eq_head?_reverse, List.head?_eq_some_iff] at hn
    exact hn.elim hne

/-- What a call that asks for a line finds: nothing at the end of the input, else a segment, which
is text or is not. -/
inductive ReadAs : Option (List UInt8) → Line → Prop where
  | endOfInput : ReadAs none .endOfInput
  | text {seg : List UInt8} {s : String} (hvalid : ByteArray.IsValidUTF8 ⟨seg.toArray⟩)
      (hs : Stripped seg (encode s)) : ReadAs (some seg) (.text s)
  | notText {seg : List UInt8} (hinvalid : ¬ByteArray.IsValidUTF8 ⟨seg.toArray⟩) :
      ReadAs (some seg) (@Line.notText notTextMessage)

/-- A console with these segments before it reads the first of them. -/
theorem Console.readLine_segmented {segs : List (List UInt8)} (h : Segmented segs) {c : Console}
    (hc : c.input = segs.flatten.map .ok) :
    ∃ line, c.readLine = (line, { c with input := segs.tail.flatten.map .ok }) ∧
      ReadAs segs.head? line := by
  cases segs with
  | nil =>
    have hsame : { c with input := ([] : List (List UInt8)).flatten.map .ok } = c := by rw [← hc]
    refine ⟨.endOfInput, ?_, .endOfInput⟩
    rw [List.tail_nil, hsame, readLine, hc]
    rfl
  | cons seg segs =>
    have hne : ¬c.input.isEmpty = true := by
      rw [hc, List.isEmpty_map, List.isEmpty_iff]
      exact h.flatten_ne_nil
    have hsplit : splitLine c.input = (.ok seg, segs.flatten.map .ok) := by
      rw [hc, h.splitLine_flatten]
    by_cases hvalid : ByteArray.IsValidUTF8 ⟨seg.toArray⟩
    · obtain ⟨s, hs, he⟩ := decode?_of_valid hvalid
      refine ⟨.text (String.ofList (chomp s.toList)), ?_, .text hvalid ?_⟩
      · simp only [readLine, if_neg hne, hsplit, Line.ofBytes, hs, List.tail_cons]
      · rw [← he, encode_eq, encode_eq, String.toList_ofList]
        exact stripped_chomp s.toList
    · refine ⟨@Line.notText notTextMessage, ?_, .notText hvalid⟩
      simp only [readLine, if_neg hne, hsplit, Line.ofBytes, decode?_of_invalid hvalid,
        List.tail_cons]

def Line.outcome (m : Machine) : Line → EStateM.Result Stop Machine Value
  | text s => .ok (.text s) m
  | endOfInput => .ok .none m
  | @notText message => .error (.error ⟨none, .console message⟩) m

theorem Run.readLine_eq (m : Machine) :
    readLine m = m.console.readLine.1.outcome { m with console := m.console.readLine.2 } := by
  unfold readLine
  rcases m.console.readLine with ⟨_ | _ | _, c⟩ <;> rfl

theorem Line.outcome_inj {line line' : Line} {m m' : Machine}
    (h : line.outcome m = line'.outcome m') : line = line' ∧ m = m' := by
  cases line <;> cases line' <;> cases h <;> exact ⟨rfl, rfl⟩

theorem Console.input_record (c : Console) (s : String) : (c.record s).input = c.input := by
  unfold record
  split <;> rfl

theorem Console.input_put (c : Console) (s : String) : (c.put s).2.input = c.input := by
  unfold put
  split
  · rfl
  · have hcall : c.call.2.input = c.input := rfl
    rcases hc : c.call with ⟨_ | message, c'⟩ <;> rw [hc] at hcall
    · exact (input_record c' s).trans hcall
    · exact hcall

theorem Console.input_write (c : Console) (s : String) : (c.write s).2.input = c.input := by
  have hput := c.input_put s
  unfold write
  rcases hc : c.put s with ⟨_ | message, c'⟩ <;> rw [hc] at hput <;> exact hput

namespace Session

def prompt (s : Session) (arguments : List Value) : Option String × Console :=
  s.machine.console.write (s.machine.heap.render (arguments.headD .none))

theorem callNative_input (s : Session) (arguments : List Value) :
    Run.callNative .input arguments s.machine =
      match s.prompt arguments with
      | (some message, console) =>
        .error (.error ⟨none, .console message⟩) { s.machine with console }
      | (none, console) => Run.readLine { s.machine with console } := by
  have hcall : Run.callNative .input arguments s.machine =
      (Run.write (s.machine.heap.render (arguments.headD .none)) >>= fun _ => Run.readLine)
        s.machine := rfl
  rcases hp : s.prompt arguments with ⟨_ | message, console⟩ <;> rw [prompt] at hp <;>
    simp only [hcall, bind, EStateM.bind, Run.write, hp]
  rfl

inductive Ask where
  /-- The host asks the session. -/
  | directly
  /-- A program calls `input`. -/
  | prompted (arguments : List Value)

/-- The call reads `line` and leaves the session `s'`; a prompt has been written before. -/
def Ask.Reads (s : Session) (line : Line) (s' : Session) : Ask → Prop
  | directly => s.readLine = (line, s')
  | prompted arguments =>
    (s.prompt arguments).1 = none ∧
      Run.callNative .input arguments s.machine = line.outcome s'.machine ∧ s'.nextId = s.nextId

/-- The prompt of the call cannot be written, and so nothing is read. -/
def Ask.Refused (s : Session) : Ask → Prop
  | directly => False
  | prompted arguments =>
    ∃ message console, s.prompt arguments = (some message, console) ∧
      console.input = s.machine.console.input ∧
      Run.callNative .input arguments s.machine =
        .error (.error ⟨none, .console message⟩) { s.machine with console }

/-- The lines that are read one after another. Between two calls anything may happen that leaves
the input alone. -/
inductive Reading : Session → List Line → Session → Prop where
  | done (s : Session) : Reading s [] s
  | other {s s' last : Session} {lines : List Line}
      (h : s'.machine.console.input = s.machine.console.input) (rest : Reading s' lines last) :
      Reading s lines last
  | call {s s' last : Session} {line : Line} {lines : List Line} (ask : Ask)
      (h : ask.Reads s line s') (rest : Reading s' lines last) : Reading s (line :: lines) last

/-- A call that is not refused reads the first segment. -/
theorem Ask.reads_segmented {segs : List (List UInt8)} (h : Segmented segs) {s s' : Session}
    (hs : s.machine.console.input = segs.flatten.map .ok) {ask : Ask} {line : Line}
    (hask : ask.Reads s line s') :
    s'.machine.console.input = segs.tail.flatten.map .ok ∧ ReadAs segs.head? line := by
  cases ask with
  | directly =>
    obtain ⟨line', hread, has⟩ := Console.readLine_segmented h hs
    simp only [Reads, readLine, hread] at hask
    obtain ⟨rfl, rfl⟩ := Prod.mk.inj hask
    exact ⟨rfl, has⟩
  | prompted arguments =>
    obtain ⟨hwritten, houtcome, -⟩ := hask
    have hinput : (s.prompt arguments).2.input = segs.flatten.map .ok :=
      (Console.input_write _ _).trans hs
    rcases hp : s.prompt arguments with ⟨failure, console⟩
    rw [hp] at hwritten hinput
    obtain rfl : failure = none := hwritten
    obtain ⟨line', hread, has⟩ := Console.readLine_segmented h hinput
    rw [callNative_input, hp] at houtcome
    simp only [Run.readLine_eq, hread] at houtcome
    obtain ⟨rfl, hm⟩ := Line.outcome_inj houtcome
    rw [← hm]
    exact ⟨rfl, has⟩

theorem Ask.refused_or_reads (ask : Ask) (s : Session) :
    ask.Refused s ∨ ∃ line s', ask.Reads s line s' := by
  cases ask with
  | directly => exact .inr ⟨_, _, rfl⟩
  | prompted arguments =>
    have hcall := callNative_input s arguments
    have hinput : (s.prompt arguments).2.input = s.machine.console.input :=
      Console.input_write _ _
    rcases hp : s.prompt arguments with ⟨_ | message, console⟩ <;> rw [hp] at hcall hinput
    · refine .inr ⟨_, ⟨_, s.nextId⟩, ?_, hcall.trans (Run.readLine_eq _), rfl⟩
      rw [hp]
    · exact .inl ⟨message, console, hp, hinput, hcall⟩

theorem Reading.lines {s s' : Session} {lines : List Line} (h : Reading s lines s')
    {segs : List (List UInt8)} (hsegs : Segmented segs)
    (hs : s.machine.console.input = segs.flatten.map .ok) :
    (∀ (i : Nat) (line : Line), lines[i]? = some line → ReadAs segs[i]? line) ∧
      s'.machine.console.input = (segs.drop lines.length).flatten.map .ok := by
  induction h generalizing segs with
  | done s => exact ⟨fun i line hi => (nomatch hi), hs⟩
  | other hsame rest ih => exact ih hsegs (hsame.trans hs)
  | call ask hask rest ih =>
    obtain ⟨hleft, has⟩ := Ask.reads_segmented hsegs hs hask
    obtain ⟨hlines, hlast⟩ := ih hsegs.tail hleft
    refine ⟨fun i line hi => ?_, ?_⟩
    · cases i with
      | zero =>
        obtain rfl := Option.some.inj hi
        rwa [List.head?_eq_getElem?] at has
      | succ i =>
        have hrest := hlines i line hi
        rwa [List.getElem?_tail] at hrest
    · rw [hlast, List.drop_tail, List.length_cons]

end Session

open Session

/-- Every input has one segmentation, and every call reads a line unless its prompt cannot be
written. Read one after another, the lines are those of the segments in order, and the end of the
input from then on; what is left is the segments that were not reached. -/
theorem input_read_by_segments :
    (∀ input : List UInt8, ∃! segs, Segmented segs ∧ segs.flatten = input) ∧
    (∀ (ask : Ask) (s : Session), ask.Refused s ∨ ∃ line s', ask.Reads s line s') ∧
    ∀ segs, Segmented segs → ∀ (s s' : Session) (lines : List Line),
      s.machine.console.input = segs.flatten.map .ok → Reading s lines s' →
      (∀ (i : Nat) (line : Line), lines[i]? = some line → ReadAs segs[i]? line) ∧
      s'.machine.console.input = (segs.drop lines.length).flatten.map .ok := by
  refine ⟨fun input => ?_, Ask.refused_or_reads, fun segs hsegs s s' lines hs hr => ?_⟩
  · obtain ⟨segs, hsegs, rfl⟩ := exists_segmented input
    exact ⟨segs, ⟨hsegs, rfl⟩, fun segs' h => h.1.eq_of_flatten hsegs h.2⟩
  · exact hr.lines hsegs hs

theorem input_read_by_segments_mixed :
    let segs : List (List UInt8) := [[65, 100, 97, 13, 10], [255, 10], [120, 13]]
    let s := Session.start (Console.ofInput segs.flatten fun _ => none)
    let lines : List Line :=
      [.text "Ada", @Line.notText notTextMessage, .text "x\r", .endOfInput]
    Segmented segs ∧ ∃ s', Reading s lines s' ∧
      (∀ (i : Nat) (line : Line), lines[i]? = some line → ReadAs segs[i]? line) ∧
      s'.machine.console.input = [] := by
  intro segs s lines
  have hsegs : Segmented segs := by
    refine .cons (?_ : newlineByte ∉ [65, 100, 97, 13])
      (.cons (?_ : newlineByte ∉ [255]) (.last ?_ ?_)) <;> decide
  let c := (s.machine.console.write "name? ").2.readLine.2
  let named : Session := { s with machine := { s.machine with console := c } }
  have hnamed : (Ask.prompted [.text "name? "]).Reads s (.text "Ada") named := by
    have hshown : s.machine.heap.render (.text "name? ") = "name? " := by
      rw [Heap.render, Heap.renderIn]
    have hprompt : s.prompt [.text "name? "] = (none, (s.machine.console.write "name? ").2) := by
      rw [prompt, List.headD_cons, hshown]
      rfl
    refine ⟨by rw [hprompt], ?_, rfl⟩
    rw [callNative_input, hprompt]
    rfl
  have hreading : Reading s lines named.readLine.2.readLine.2.readLine.2 :=
    .call _ hnamed <| .call .directly (Prod.ext rfl rfl) <| .call .directly (Prod.ext rfl rfl) <|
      .call .directly (Prod.ext rfl rfl) <| .done _
  exact ⟨hsegs, _, hreading, input_read_by_segments.2.2 segs hsegs s _ lines rfl hreading⟩

end Jal
