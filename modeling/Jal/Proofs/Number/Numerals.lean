import Mathlib.Data.List.DropRight
import Jal.Machine.Eval
import Jal.Proofs.Token.Relexing

namespace Jal

namespace Text

def Padded (body cs : List Char) : Prop :=
  ∃ before after, cs = before ++ body ++ after ∧
    (∀ c ∈ before, isBlank c = true) ∧ ∀ c ∈ after, isBlank c = true

theorem padded_trim (cs : List Char) : Padded (trim cs) cs := by
  let rest := cs.dropWhile isBlank
  have hrest : rest.rdropWhile isBlank ++ rest.rtakeWhile isBlank = rest :=
    List.rdropWhile_append_rtakeWhile ..
  refine ⟨cs.takeWhile isBlank, rest.rtakeWhile isBlank, ?_, fun c => of_mem_takeWhile,
    fun c hc => List.mem_rtakeWhile_imp hc⟩
  change _ = _ ++ rest.rdropWhile isBlank ++ _
  rw [List.append_assoc, hrest, List.takeWhile_append_dropWhile]

theorem Padded.trim_eq {body cs : List Char} (h : Padded body cs)
    (hbody : ∀ c ∈ body, isBlank c = false) : trim cs = body := by
  obtain ⟨before, after, rfl, hbefore, hafter⟩ := h
  rw [trim, List.append_assoc, List.dropWhile_append_of_pos hbefore]
  cases body with
  | nil =>
    rw [List.nil_append, List.dropWhile_eq_nil_iff.2 hafter]
    rfl
  | cons b bs =>
    have hfirst : ¬isBlank b = true := ne_true_of_eq_false (hbody b List.mem_cons_self)
    have hback : ∀ c ∈ after.reverse, isBlank c = true := fun c hc =>
      hafter c (List.mem_reverse.1 hc)
    have hlast : (b :: bs).reverse.dropWhile isBlank = (b :: bs).reverse := by
      refine List.dropWhile_eq_self_iff.2 fun hl => ?_
      exact ne_true_of_eq_false (hbody _ (List.mem_reverse.1 (List.getElem_mem hl)))
    rw [List.cons_append, List.dropWhile_cons_of_neg hfirst, ← List.cons_append,
      List.reverse_append, List.dropWhile_append_of_pos hback, hlast, List.reverse_reverse]

theorem isBlank_eq_false {c : Char} (hlow : 32 < c.toNat) (hhigh : c.toNat < 133) :
    isBlank c = false := by
  simp [isBlank, blankRanges, Ranges.contains]
  omega

theorem isBlank_of_isAlphanum {c : Char} (hc : c.isAlphanum = true) : isBlank c = false := by
  have hle : ∀ {a b : UInt32}, decide (a ≤ b) = true → a.toNat ≤ b.toNat := fun h =>
    UInt32.le_iff_toNat_le.1 (of_decide_eq_true h)
  have hrange : 48 ≤ c.toNat ∧ c.toNat ≤ 122 := by
    rcases Bool.or_eq_true_iff.1 hc with halpha | hdigit
    · rcases Bool.or_eq_true_iff.1 halpha with hupper | hlower
      · obtain ⟨hlow, hhigh⟩ := of_decide_eq_true hupper
        have hlow : 65 ≤ c.toNat := UInt32.le_iff_toNat_le.1 hlow
        have hhigh : c.toNat ≤ 90 := UInt32.le_iff_toNat_le.1 hhigh
        omega
      · obtain ⟨hlow, hhigh⟩ := Bool.and_eq_true_iff.1 hlower
        have hlow : 97 ≤ c.toNat := hle hlow
        exact ⟨by omega, hle hhigh⟩
    · obtain ⟨hlow, hhigh⟩ := Bool.and_eq_true_iff.1 hdigit
      have hhigh : c.toNat ≤ 57 := hle hhigh
      exact ⟨hle hlow, by omega⟩
  exact isBlank_eq_false (by omega) (by omega)

end Text

namespace Number

inductive Sign where
  | none
  | plus
  | minus
deriving DecidableEq

def Sign.chars : Sign → List Char
  | none => []
  | plus => ['+']
  | minus => ['-']

structure Exponent where
  mark : Char
  sign : Sign
  digits : List Char
  isMark : mark = 'e' ∨ mark = 'E'
  isDigits : IsDigits digits

namespace Exponent

def chars (e : Exponent) : List Char := e.mark :: (e.sign.chars ++ e.digits)

def power (e : Exponent) : Int :=
  if e.sign = .minus then -(ofExponentDigits e.digits : Int) else ofExponentDigits e.digits

end Exponent

/-- A number as it may be written: an optional sign, digits with an optional dot and at least one
digit in all, and an optional exponent. -/
structure Numeral where
  sign : Sign
  whole : List Char
  /-- What stands after the dot, if there is one. -/
  fraction : Option (List Char)
  exponent : Option Exponent
  isDigit_whole : ∀ c ∈ whole, c.isDigit = true
  isDigit_fraction : ∀ c ∈ fraction.getD [], c.isDigit = true
  digits_ne_nil : whole ++ fraction.getD [] ≠ []

namespace Numeral

def magnitude (n : Numeral) : List Char :=
  n.whole ++ n.fraction.elim [] ('.' :: ·) ++ n.exponent.elim [] Exponent.chars

def chars (n : Numeral) : List Char := n.sign.chars ++ n.magnitude

def decimal (n : Numeral) : Decimal :=
  let d := Decimal.ofDigits n.whole (n.fraction.getD [])
  { d with exponent := d.exponent + n.exponent.elim 0 Exponent.power }

def value (n : Numeral) : Float := n.decimal.toFloat (n.sign == .minus)

end Numeral

theorem isDigits_iff {ds : List Char} : IsDigits ds ↔ ds ≠ [] ∧ ∀ c ∈ ds, c.isDigit = true := by
  constructor
  · rintro ⟨hc, hcs⟩
    exact ⟨List.cons_ne_nil _ _, List.forall_mem_cons.2 ⟨hc, hcs⟩⟩
  · rintro ⟨hne, hds⟩
    cases ds with
    | nil => exact absurd rfl hne
    | cons d ds =>
      obtain ⟨hd, hds⟩ := List.forall_mem_cons.1 hds
      exact .intro hd hds

theorem splitSign_chars (sign : Sign) {cs : List Char} (h : ∀ c ∈ cs.head?, c ≠ '-' ∧ c ≠ '+') :
    splitSign (sign.chars ++ cs) = (sign == .minus, cs) := by
  cases sign with
  | plus => rfl
  | minus => rfl
  | none =>
    change splitSign cs = (false, cs)
    fun_cases splitSign cs with
    | case1 rest => exact absurd rfl (h '-' rfl).1
    | case2 rest => exact absurd rfl (h '+' rfl).2
    | case3 => rfl

theorem exists_sign (cs : List Char) : ∃ sign : Sign, cs = sign.chars ++ (splitSign cs).2 := by
  fun_cases splitSign cs with
  | case1 rest => exact ⟨.minus, rfl⟩
  | case2 rest => exact ⟨.plus, rfl⟩
  | case3 => exact ⟨.none, rfl⟩

theorem not_sign_of_isDigit {c : Char} (hc : c.isDigit = true) : c ≠ '-' ∧ c ≠ '+' := by
  constructor <;> rintro rfl <;> exact absurd hc (by decide)

theorem readExponent?_elim (e : Option Exponent) :
    readExponent? (e.elim [] Exponent.chars) = some (e.elim 0 Exponent.power) := by
  cases e with
  | none => rfl
  | some e =>
    obtain ⟨hne, hdigits⟩ := isDigits_iff.1 e.isDigits
    have hhead : ∀ c ∈ e.digits.head?, c ≠ '-' ∧ c ≠ '+' := fun c hc =>
      not_sign_of_isDigit (hdigits c (List.mem_of_mem_head? hc))
    have hmark : (e.mark == 'e' || e.mark == 'E') = true := by simp [e.isMark]
    have hread : (!e.digits.isEmpty && e.digits.all Char.isDigit) = true := by
      simpa [hne] using hdigits
    simp only [Option.elim_some, Exponent.chars, readExponent?, hmark, if_true,
      splitSign_chars e.sign hhead, hread, Exponent.power, beq_iff_eq]

theorem exists_exponent {cs : List Char} {shift : Int} (h : readExponent? cs = some shift) :
    ∃ e : Option Exponent, cs = e.elim [] Exponent.chars := by
  revert h
  fun_cases readExponent? cs with
  | case1 => exact fun _ => ⟨none, rfl⟩
  | case2 c rest hc negative digits hs hd =>
    intro _
    obtain ⟨sign, hrest⟩ := exists_sign rest
    rw [hs] at hrest
    rw [Bool.and_eq_true, Bool.not_eq_true', List.isEmpty_eq_false_iff, List.all_eq_true] at hd
    rw [Bool.or_eq_true, beq_iff_eq, beq_iff_eq] at hc
    exact ⟨some ⟨c, sign, digits, hc, isDigits_iff.2 hd⟩, congrArg (c :: ·) hrest⟩
  | case3 => exact nofun
  | case4 => exact nofun

/-- Digits end where something else begins. -/
theorem span_digits {ds rest : List Char} (hd : ∀ c ∈ ds, c.isDigit = true)
    (hr : ∀ c ∈ rest.head?, ¬c.isDigit = true) :
    (ds ++ rest).takeWhile Char.isDigit = ds ∧ (ds ++ rest).dropWhile Char.isDigit = rest := by
  rw [List.takeWhile_append_of_pos hd, List.dropWhile_append_of_pos hd]
  cases rest with
  | nil => exact ⟨List.append_nil ds, rfl⟩
  | cons c rest =>
    have hc := hr c rfl
    rw [List.takeWhile_cons_of_neg hc, List.dropWhile_cons_of_neg hc, List.append_nil]
    exact ⟨rfl, rfl⟩

theorem head_exponent {e : Option Exponent} {c : Char}
    (hc : c ∈ (e.elim [] Exponent.chars).head?) : ¬c.isDigit = true ∧ c ≠ '.' := by
  cases e with
  | none => cases hc
  | some e =>
    obtain rfl : e.mark = c := Option.some.inj hc
    rcases e.isMark with h | h <;> rw [h] <;> decide

theorem splitFraction_elim {fraction : Option (List Char)}
    (hf : ∀ c ∈ fraction.getD [], c.isDigit = true) (e : Option Exponent) :
    splitFraction (fraction.elim [] ('.' :: ·) ++ e.elim [] Exponent.chars) =
      (fraction.getD [], e.elim [] Exponent.chars) := by
  cases fraction with
  | none =>
    change splitFraction (e.elim [] Exponent.chars) = ([], e.elim [] Exponent.chars)
    generalize he : e.elim [] Exponent.chars = cs
    fun_cases splitFraction cs with
    | case1 rest =>
      have hhead : '.' ∈ (e.elim [] Exponent.chars).head? := by rw [he]; rfl
      exact absurd rfl (head_exponent hhead).2
    | case2 => rfl
  | some fs =>
    obtain ⟨htake, hdrop⟩ := span_digits hf fun c hc => (head_exponent hc).1
    exact congrArg₂ Prod.mk htake hdrop

theorem exists_fraction (cs : List Char) : ∃ fraction : Option (List Char),
    (splitFraction cs).1 = fraction.getD [] ∧ (∀ c ∈ fraction.getD [], c.isDigit = true) ∧
      cs = fraction.elim [] ('.' :: ·) ++ (splitFraction cs).2 := by
  fun_cases splitFraction cs with
  | case1 rest =>
    refine ⟨some (rest.takeWhile Char.isDigit), rfl, fun c => of_mem_takeWhile, ?_⟩
    exact congrArg ('.' :: ·) List.takeWhile_append_dropWhile.symm
  | case2 => exact ⟨none, rfl, fun c hc => absurd hc List.not_mem_nil, rfl⟩

namespace Numeral

/-- Neither a dot nor an exponent begins with a digit. -/
theorem not_isDigit_head (n : Numeral) {c : Char}
    (hc : c ∈ (n.fraction.elim [] ('.' :: ·) ++ n.exponent.elim [] Exponent.chars).head?) :
    ¬c.isDigit = true := by
  cases hf : n.fraction with
  | none =>
    rw [hf] at hc
    exact (head_exponent hc).1
  | some fs =>
    rw [hf] at hc
    obtain rfl : '.' = c := Option.some.inj hc
    decide

theorem readDecimal?_magnitude (n : Numeral) : readDecimal? n.magnitude = some n.decimal := by
  obtain ⟨htake, hdrop⟩ := span_digits n.isDigit_whole fun c hc => n.not_isDigit_head hc
  have hne : (n.whole.isEmpty && (n.fraction.getD []).isEmpty) = false := by
    have h := n.digits_ne_nil
    rw [Ne, List.append_eq_nil_iff] at h
    simpa using h
  rw [magnitude, List.append_assoc, readDecimal?, htake, hdrop,
    splitFraction_elim n.isDigit_fraction]
  simp only [hne, readExponent?_elim]
  rfl

theorem exists_magnitude {cs : List Char} {d : Decimal} (h : readDecimal? cs = some d)
    (sign : Sign) : ∃ n : Numeral, n.sign = sign ∧ n.magnitude = cs := by
  obtain ⟨fraction, hfst, hdigits, hrest⟩ := exists_fraction (cs.dropWhile Char.isDigit)
  simp only [readDecimal?] at h
  split at h
  · cases h
  next hne =>
    obtain ⟨shift, hshift, -⟩ := Option.bind_eq_some_iff.1 h
    obtain ⟨exponent, hexponent⟩ := exists_exponent hshift
    rw [hexponent] at hrest
    rw [hfst, Bool.and_eq_true, List.isEmpty_iff, List.isEmpty_iff, ← List.append_eq_nil_iff] at hne
    refine ⟨⟨sign, cs.takeWhile Char.isDigit, fraction, exponent, fun c => of_mem_takeWhile,
      hdigits, hne⟩, rfl, ?_⟩
    rw [magnitude, List.append_assoc, ← hrest, List.takeWhile_append_dropWhile]

theorem head_magnitude_ne_sign (n : Numeral) {c : Char} (hc : c ∈ n.magnitude.head?) :
    c ≠ '-' ∧ c ≠ '+' := by
  rw [magnitude, List.append_assoc] at hc
  cases hw : n.whole with
  | cons d ds =>
    rw [hw] at hc
    obtain rfl : d = c := Option.some.inj hc
    exact not_sign_of_isDigit (n.isDigit_whole d (hw ▸ List.mem_cons_self))
  | nil =>
    -- without digits before it there is a dot
    have hne := n.digits_ne_nil
    cases hf : n.fraction with
    | none => exact absurd (by rw [hw, hf]; rfl) hne
    | some fs =>
      rw [hw, hf] at hc
      obtain rfl : '.' = c := Option.some.inj hc
      decide

theorem read?_chars (n : Numeral) : read? n.chars = some n.value := by
  have hsign : splitSign n.chars = (n.sign == .minus, n.magnitude) :=
    splitSign_chars n.sign fun c hc => n.head_magnitude_ne_sign hc
  rw [read?, hsign]
  simp only [n.readDecimal?_magnitude]
  rfl

theorem digits_subset_chars (n : Numeral) : n.whole ++ n.fraction.getD [] ⊆ n.chars := by
  have hfraction : n.fraction.getD [] ⊆ n.fraction.elim [] ('.' :: ·) := by
    cases n.fraction with
    | none => exact List.Subset.refl _
    | some fs => exact List.subset_cons_self ..
  intro c hc
  rw [chars, magnitude]
  simp only [List.mem_append] at hc ⊢
  exact .inr (.inl (hc.imp_right (hfraction ·)))

theorem any_isDigit_chars (n : Numeral) : n.chars.any Char.isDigit = true := by
  obtain ⟨c, hc⟩ := List.exists_mem_of_ne_nil _ n.digits_ne_nil
  refine List.any_eq_true.2 ⟨c, n.digits_subset_chars hc, ?_⟩
  exact (List.mem_append.1 hc).elim (n.isDigit_whole c) (n.isDigit_fraction c)

end Numeral

theorem isBlank_of_isDigit {c : Char} (hc : c.isDigit = true) : Text.isBlank c = false :=
  Text.isBlank_of_isAlphanum (Bool.or_eq_true_iff.2 (.inr hc))

theorem Sign.forall_mem_chars (sign : Sign) :
    ∀ c ∈ sign.chars, Text.isBlank c = false ∧ ¬c.isDigit = true := by
  cases sign with
  | none => exact List.forall_mem_nil _
  | plus => exact List.forall_mem_singleton.2 (by decide)
  | minus => exact List.forall_mem_singleton.2 (by decide)

theorem Sign.isBlank_chars (sign : Sign) : ∀ c ∈ sign.chars, Text.isBlank c = false :=
  fun c hc => (sign.forall_mem_chars c hc).1

theorem Exponent.isBlank_chars (e : Exponent) : ∀ c ∈ e.chars, Text.isBlank c = false := by
  have hmark : Text.isBlank e.mark = false := by
    rcases e.isMark with h | h <;> rw [h] <;> decide
  rw [chars, List.forall_mem_cons, List.forall_mem_append]
  exact ⟨hmark, e.sign.isBlank_chars, fun c hc =>
    isBlank_of_isDigit ((isDigits_iff.1 e.isDigits).2 c hc)⟩

theorem Numeral.isBlank_chars (n : Numeral) : ∀ c ∈ n.chars, Text.isBlank c = false := by
  have hfraction : ∀ c ∈ n.fraction.elim [] ('.' :: ·), Text.isBlank c = false := by
    have hdigits := n.isDigit_fraction
    cases hf : n.fraction with
    | none => exact fun c hc => absurd hc List.not_mem_nil
    | some fs =>
      rw [hf] at hdigits
      exact List.forall_mem_cons.2 ⟨by decide, fun c hc => isBlank_of_isDigit (hdigits c hc)⟩
  have hexponent : ∀ c ∈ n.exponent.elim [] Exponent.chars, Text.isBlank c = false := by
    cases n.exponent with
    | none => exact fun c hc => absurd hc List.not_mem_nil
    | some e => exact e.isBlank_chars
  rw [chars, magnitude, List.forall_mem_append, List.forall_mem_append, List.forall_mem_append]
  exact ⟨n.sign.isBlank_chars, ⟨fun c hc => isBlank_of_isDigit (n.isDigit_whole c hc), hfraction⟩,
    hexponent⟩

def words : List String := ["inf", "infinity", "nan"]

theorem mem_words_of_readWord? {cs : List Char} {negative : Bool} {x : Float}
    (h : readWord? cs negative = some x) : String.ofList (cs.map Char.toLower) ∈ words := by
  revert h
  fun_cases readWord? cs negative with
  | case1 word hword =>
    intro _
    change word ∈ words
    rw [Bool.or_eq_true, beq_iff_eq, beq_iff_eq] at hword
    rcases hword with h | h <;> rw [h] <;> decide
  | case2 word _ hnan =>
    intro _
    change word ∈ words
    rw [beq_iff_eq.1 hnan]
    decide
  | case3 => exact nofun

theorem isAlpha_of_toLower {c : Char} (h : c.toLower.isAlpha = true) : c.isAlpha = true := by
  by_cases hupper : c.isUpper = true
  · exact Bool.or_eq_true_iff.2 (.inl hupper)
  · have hsame : c.toLower = c := dif_neg fun hc => hupper (decide_eq_true hc)
    rwa [hsame] at h

theorem isAlpha_of_mem_words {cs : List Char} (h : String.ofList (cs.map Char.toLower) ∈ words)
    {c : Char} (hc : c ∈ cs) : c.isAlpha = true := by
  have hwords : words.all (fun w => w.toList.all Char.isAlpha) = true := by decide
  have hword := List.all_eq_true.1 (List.all_eq_true.1 hwords _ h)
  refine isAlpha_of_toLower (hword _ ?_)
  rw [String.toList_ofList]
  exact List.mem_map_of_mem hc

theorem not_any_isDigit_word (sign : Sign) {word : List Char}
    (h : String.ofList (word.map Char.toLower) ∈ words) :
    ¬(sign.chars ++ word).any Char.isDigit = true := by
  intro hany
  obtain ⟨c, hc, hdigit⟩ := List.any_eq_true.1 hany
  rcases List.mem_append.1 hc with hc | hc
  · exact (sign.forall_mem_chars c hc).2 hdigit
  · have hletter : isLetter c = true := Bool.or_eq_true_iff.2 (.inl (isAlpha_of_mem_words h hc))
    exact not_isDigit_of_isLetter hletter hdigit

theorem isBlank_word (sign : Sign) {word : List Char}
    (h : String.ofList (word.map Char.toLower) ∈ words) :
    ∀ c ∈ sign.chars ++ word, Text.isBlank c = false := by
  rw [List.forall_mem_append]
  exact ⟨sign.isBlank_chars, fun c hc =>
    Text.isBlank_of_isAlphanum (Bool.or_eq_true_iff.2 (.inl (isAlpha_of_mem_words h hc)))⟩

/-- A text with a digit in it is read as a numeral or not at all. -/
theorem exists_numeral_of_read? {cs : List Char} {x : Float} (hdigit : cs.any Char.isDigit = true)
    (h : read? cs = some x) : ∃ n : Numeral, n.chars = cs := by
  obtain ⟨sign, hcs⟩ := exists_sign cs
  rw [read?] at h
  cases hd : readDecimal? (splitSign cs).2 with
  | some d =>
    obtain ⟨n, hsign, hmagnitude⟩ := Numeral.exists_magnitude hd sign
    exact ⟨n, by rw [Numeral.chars, hsign, hmagnitude, ← hcs]⟩
  | none =>
    simp only [hd] at h
    rw [hcs] at hdigit
    exact absurd hdigit (not_any_isDigit_word sign (mem_words_of_readWord? h))

/-- A literal is a numeral without a sign and an exponent. -/
theorem exists_numeral_of_isLexeme {x : Float} {cs : List Char} (h : IsLexeme (.number x) cs) :
    ∃ n : Numeral, n.chars = cs ∧ n.value = x := by
  have hvalue : ∀ n : Numeral, n.sign = .none → n.exponent = none →
      n.value = ofLiteral n.whole (n.fraction.getD []) := by
    intro n hsign hexponent
    rw [Numeral.value, Numeral.decimal, hsign, hexponent, Option.elim_none, Int.add_zero]
    rfl
  cases h with
  | @whole ds hd =>
    obtain ⟨hne, hds⟩ := isDigits_iff.1 hd
    let n : Numeral := ⟨.none, cs, none, none, hds, fun c hc => absurd hc List.not_mem_nil,
      List.append_ne_nil_of_left_ne_nil hne _⟩
    have hchars : n.chars = cs ++ [] ++ [] := rfl
    exact ⟨n, by rw [hchars, List.append_nil, List.append_nil], hvalue n rfl rfl⟩
  | @decimal ds fs hd hf =>
    obtain ⟨hne, hds⟩ := isDigits_iff.1 hd
    let n : Numeral := ⟨.none, ds, some fs, none, hds, (isDigits_iff.1 hf).2,
      List.append_ne_nil_of_left_ne_nil hne _⟩
    have hchars : n.chars = ds ++ '.' :: fs ++ [] := rfl
    exact ⟨n, by rw [hchars, List.append_nil], hvalue n rfl rfl⟩

end Number

open Number Text

theorem numeral?_eq_some_iff {s : String} {x : Float} :
    numeral? s = some x ↔ ∃ n : Numeral, Padded n.chars s.toList ∧ n.value = x := by
  constructor
  · intro h
    rw [numeral?] at h
    split at h
    · next hdigit =>
      obtain ⟨n, hn⟩ := exists_numeral_of_read? hdigit h
      have hvalue := n.read?_chars
      rw [hn, h] at hvalue
      exact ⟨n, hn ▸ padded_trim s.toList, (Option.some.inj hvalue).symm⟩
    · cases h
  · rintro ⟨n, hn, rfl⟩
    rw [numeral?, hn.trim_eq n.isBlank_chars]
    simp only [n.any_isDigit_chars, if_true, n.read?_chars]

theorem numeral?_of_word {s : String} {sign : Sign} {word : List Char}
    (hw : String.ofList (word.map Char.toLower) ∈ words)
    (hs : Padded (sign.chars ++ word) s.toList) : numeral? s = none := by
  rw [numeral?, hs.trim_eq (isBlank_word sign hw)]
  exact if_neg (not_any_isDigit_word sign hw)

theorem Run.eval_numOf {fuel line : Nat} {operand : Expr} {m m' : Machine} {s : String}
    (h : eval fuel operand m = .ok (.text s) m') :
    eval (fuel + 1) (.unary .numOf line operand) m =
      match numeral? s with
      | some x => .ok (.number x) m'
      | none => .error (.error ⟨some line, .numberParse s⟩) m' := by
  have hunary : eval (fuel + 1) (.unary .numOf line operand) m =
      liftAt line (applyUnary m'.heap .numOf (.text s)) m' := by
    rw [eval]
    simp only [bind, EStateM.bind, h]
    rfl
  rw [hunary, applyUnary]
  cases numeral? s <;> rfl

/-- The number literals of a source are numerals. -/
theorem exists_numeral_of_scan {source : String} {t : Token} {x : Float}
    (ht : t ∈ (scan source).tokens) (hx : t.kind = .number x) :
    ∃ n : Numeral, n.chars = t.lexeme.toList ∧ n.value = x := by
  obtain ⟨pieces, eof, h⟩ := exists_pieced source
  rw [h.tokens, List.filterMap_append, List.mem_append] at ht
  rcases ht with ht | ht
  · exact exists_numeral_of_isLexeme (hx ▸ h.isLexeme ht)
  · obtain rfl := List.mem_singleton.1 ht
    rw [h.ending.1] at hx
    cases hx

/-- Where the operand of `numof` is a text, the result is the value of the numeral that the text
shows between blanks, and without such a numeral a fault that names the text. So the words for
infinity and not-a-number are refused in every case and with every sign. And where the text shows a
number literal of some source, the result is the number of that literal. -/
theorem numof_reads_numerals {fuel line : Nat} {operand : Expr} {m m' : Machine} {s : String}
    (h : Run.eval fuel operand m = .ok (.text s) m') :
    (∀ x, Run.eval (fuel + 1) (.unary .numOf line operand) m = .ok (.number x) m' ↔
      ∃ n : Numeral, Padded n.chars s.toList ∧ n.value = x) ∧
    ((¬∃ n : Numeral, Padded n.chars s.toList) →
      Run.eval (fuel + 1) (.unary .numOf line operand) m =
        .error (.error ⟨some line, .numberParse s⟩) m') ∧
    (∀ (sign : Sign) (word : List Char), String.ofList (word.map Char.toLower) ∈ words →
      Padded (sign.chars ++ word) s.toList →
      Run.eval (fuel + 1) (.unary .numOf line operand) m =
        .error (.error ⟨some line, .numberParse s⟩) m') ∧
    ∀ source : String, ∀ t ∈ (scan source).tokens, ∀ x, t.kind = .number x →
      Padded t.lexeme.toList s.toList →
      Run.eval (fuel + 1) (.unary .numOf line operand) m = .ok (.number x) m' := by
  rw [Run.eval_numOf h]
  refine ⟨fun x => ?_, fun hnone => ?_, fun sign word hw hs => ?_, fun source t ht x hx hs => ?_⟩
  · rw [← numeral?_eq_some_iff]
    cases numeral? s <;> simp
  · cases hn : numeral? s with
    | none => rfl
    | some x =>
      obtain ⟨n, hpadded, -⟩ := numeral?_eq_some_iff.1 hn
      exact absurd ⟨n, hpadded⟩ hnone
  · rw [numeral?_of_word hw hs]
  · obtain ⟨n, hchars, hvalue⟩ := exists_numeral_of_scan ht hx
    rw [numeral?_eq_some_iff.2 ⟨n, hchars ▸ hs, hvalue⟩]

theorem numof_reads_numerals_literal :
    let m := Machine.start (Console.ofInput [] fun _ => none)
    let x := ofLiteral ['2'] ['5', '0']
    (⟨.number x, "2.50", 1⟩ : Token) ∈ (scan "2.50").tokens ∧
    Run.eval 2 (.unary .numOf 1 (.literal (.text "\u00a02.50\n"))) m = .ok (.number x) m ∧
    Run.eval 2 (.unary .numOf 1 (.literal (.text " -Infinity"))) m =
      .error (.error ⟨some 1, .numberParse " -Infinity"⟩) m := by
  intro m x
  have hsegments : segments "2.50".toList = [.token (.number x) "2.50".toList] := by
    have hcut : cut '2' ".50".toList = (.token (.number x) "2.50".toList, []) := rfl
    change segments ('2' :: ".50".toList) = _
    rw [segments, hcut, segments]
  have ht : (⟨.number x, "2.50", 1⟩ : Token) ∈ (scan "2.50").tokens := by
    rw [scan_eq, hsegments]
    exact List.mem_cons_self
  refine ⟨ht, ?_, ?_⟩
  · refine (numof_reads_numerals rfl).2.2.2 "2.50" _ ht x rfl ?_
    exact ⟨['\u00a0'], ['\n'], by decide, List.forall_mem_singleton.2 (by decide),
      List.forall_mem_singleton.2 (by decide)⟩
  · refine (numof_reads_numerals rfl).2.2.1 .minus "Infinity".toList (by decide) ?_
    exact ⟨[' '], [], by decide, List.forall_mem_singleton.2 (by decide), List.forall_mem_nil _⟩

end Jal
