import Mathlib.Logic.Relation
import Jal.Proofs.Token.Relexing

namespace Jal

/-- What a string literal is made of. A quote and a backslash only come with a backslash before
them. -/
inductive TextItem where
  | plain (c : Char) (hq : c ≠ '"') (hb : c ≠ '\\')
  | escape (c : Char)

namespace TextItem

def chars : TextItem → List Char
  | plain c _ _ => [c]
  | escape c => ['\\', c]

def meaning : TextItem → List Char
  | plain c _ _ => [c]
  | escape 'n' => ['\n']
  | escape 't' => ['\t']
  | escape 'r' => ['\r']
  | escape 'b' => ['\x08']
  | escape 'f' => ['\x0c']
  | escape '\\' => ['\\']
  | escape '"' => ['"']
  | escape '\'' => ['\'']
  | escape c => ['\\', c]

/-- The item that stands for a character: itself, or its escape if it is a quote or a backslash. -/
def ofChar (c : Char) : TextItem :=
  if hq : c = '"' then escape c
  else if hb : c = '\\' then escape c
  else plain c hq hb

theorem meaning_ofChar (c : Char) : (ofChar c).meaning = [c] := by
  unfold ofChar
  split
  · next hq => rw [hq]; rfl
  · split
    · next hb => rw [hb]; rfl
    · rfl

def literal (items : List TextItem) : String :=
  String.ofList ('"' :: items.flatMap chars ++ ['"'])

theorem isTextBody_flatMap (items : List TextItem) : IsTextBody (items.flatMap chars) := by
  induction items with
  | nil => exact .nil
  | cons item items ih =>
    cases item with
    | plain c hq hb => exact .plain hq hb ih
    | escape c => exact .shielded c ih

theorem unescape_plain {c : Char} (hb : c ≠ '\\') (rest : List Char) :
    unescape (c :: rest) = c :: unescape rest := by
  rw [unescape]
  exact fun _ _ hc _ => hb hc

/-- An escape has the value that it means, whatever comes after it. -/
theorem unescape_escape (c : Char) (rest : List Char) :
    unescape ('\\' :: c :: rest) = (escape c).meaning ++ unescape rest := by
  rw [unescape]
  fun_cases escaped? c with
  | case9 =>
    -- not one of the known escapes, and so none of those that `meaning` lists
    rw [meaning]
    · rfl
    all_goals assumption
  | _ => rfl

theorem unescape_flatMap (items : List TextItem) :
    unescape (items.flatMap chars) = items.flatMap meaning := by
  induction items with
  | nil => rfl
  | cons item items ih =>
    rw [List.flatMap_cons, List.flatMap_cons, ← ih]
    cases item with
    | plain c hq hb => exact unescape_plain hb _
    | escape c => exact unescape_escape c _

theorem scan_literal (items : List TextItem) :
    scan (literal items) =
      { tokens := [⟨.text (String.ofList (items.flatMap meaning)), literal items, 1⟩,
          ⟨.eof, "", 1 + (literal items).toList.count '\n'⟩]
        errors := [] } := by
  have hsegments := (isTextBody_flatMap items).segments_append []
  rw [List.append_nil, unescape_flatMap, segments] at hsegments
  have hchars : (literal items).toList = '"' :: items.flatMap chars ++ ['"'] :=
    String.toList_ofList
  simp only [scan_eq, hchars, hsegments]
  rfl

end TextItem

/-- One call of `unescape` makes the other: behind a pair, or behind a single character that is no
backslash. -/
inductive UnescapeCalls : List Char → List Char → Prop where
  | pair (c : Char) (rest : List Char) : UnescapeCalls ('\\' :: c :: rest) rest
  | single {c : Char} (hb : c ≠ '\\') (rest : List Char) : UnescapeCalls (c :: rest) rest

/-- A call with anything left to read, a single backslash apart, writes something and makes one
other call for the rest. -/
theorem exists_unescapeCalls {cs : List Char} (hnil : cs ≠ []) (hlast : cs ≠ ['\\']) :
    ∃ rest written, UnescapeCalls cs rest ∧ unescape cs = written ++ unescape rest := by
  obtain ⟨c, cs, rfl⟩ := List.exists_cons_of_ne_nil hnil
  by_cases hb : c = '\\'
  · subst hb
    cases cs with
    | nil => exact absurd rfl hlast
    | cons d rest => exact ⟨rest, _, .pair d rest, TextItem.unescape_escape d rest⟩
  · exact ⟨cs, [c], .single hb cs, TextItem.unescape_plain hb cs⟩

/-- What is left to read of the text between two quotes could stand between quotes itself. -/
theorem IsTextBody.of_calls {body rest : List Char}
    (h : Relation.ReflTransGen UnescapeCalls body rest) (hb : IsTextBody body) :
    IsTextBody rest := by
  induction h with
  | refl => exact hb
  | tail _ hstep ih =>
    cases hstep with
    | pair c rest =>
      cases ih with
      | plain _ hne => exact absurd rfl hne
      | shielded _ h => exact h
    | single hne =>
      cases ih with
      | plain _ _ h => exact h
      | shielded => exact absurd rfl hne

theorem not_isTextBody_backslash : ¬IsTextBody ['\\'] := by
  intro h
  cases h with
  | plain _ hne => exact hne rfl

/-- A literal of any items is scanned as one text without error, and its value is what the items
mean one after another. So every string is the value of a literal: the one with its quotes and
backslashes escaped. And whatever the source, no call of `unescape` that its literals lead to is
given a single backslash: each reads a character or a pair and goes on, until nothing is left. -/
theorem text_literals_decoded :
    (∀ items : List TextItem,
      scan (TextItem.literal items) =
        { tokens := [⟨.text (String.ofList (items.flatMap TextItem.meaning)),
              TextItem.literal items, 1⟩,
            ⟨.eof, "", 1 + (TextItem.literal items).toList.count '\n'⟩]
          errors := [] }) ∧
    (∀ s : String,
      scan (TextItem.literal (s.toList.map TextItem.ofChar)) =
        { tokens := [⟨.text s, TextItem.literal (s.toList.map TextItem.ofChar), 1⟩,
            ⟨.eof, "", 1 + (TextItem.literal (s.toList.map TextItem.ofChar)).toList.count '\n'⟩]
          errors := [] }) ∧
    ∀ source : String, ∀ t ∈ (scan source).tokens, ∀ value, t.kind = .text value →
      ∃ body, t.lexeme.toList = '"' :: body ++ ['"'] ∧ value = String.ofList (unescape body) ∧
        ∀ rest, Relation.ReflTransGen UnescapeCalls body rest →
          rest ≠ ['\\'] ∧
          (rest ≠ [] → ∃ next written,
            UnescapeCalls rest next ∧ unescape rest = written ++ unescape next) := by
  refine ⟨TextItem.scan_literal, fun s => ?_, fun source t ht value hv => ?_⟩
  · have hmeaning : (s.toList.map TextItem.ofChar).flatMap TextItem.meaning = s.toList := by
      simp only [List.flatMap_map, TextItem.meaning_ofChar, List.flatMap_singleton']
    rw [TextItem.scan_literal, hmeaning, String.ofList_toList]
  · obtain ⟨pieces, eof, h⟩ := exists_pieced source
    rw [h.tokens, List.filterMap_append, List.mem_append] at ht
    rcases ht with ht | ht
    · have hl := h.isLexeme ht
      rw [hv] at hl
      generalize hcs : t.lexeme.toList = cs at hl
      cases hl with
      | @text body hb =>
        refine ⟨body, rfl, rfl, fun rest hcalls => ?_⟩
        have hlast : rest ≠ ['\\'] := by
          rintro rfl
          exact not_isTextBody_backslash (hb.of_calls hcalls)
        exact ⟨hlast, fun hnil => exists_unescapeCalls hnil hlast⟩
    · obtain rfl := List.mem_singleton.1 ht
      rw [h.ending.1] at hv
      cases hv

end Jal
