import LiveStream.Lib.Split

/-!
# JSON objects as text

Strings and objects as `json.dumps` writes them: only printable ASCII characters, everything else
escaped, and `", "` and `": "` between the parts of an object. The values are given as text.

* `apart_quote` and `apart_showObject`, a closing brace is followed by an opening one only inside
  a key or a value that has the two already;
* `newline_not_mem_showObject`, a text never has a line break of its own.
-/

namespace LiveStream
namespace Lib

/-! ## Strings -/

def hexDigit (n : ℕ) : Char :=
  ['0', '1', '2', '3', '4', '5', '6', '7', '8', '9', 'a', 'b', 'c', 'd', 'e', 'f'].getD n '0'

/-- `\uXXXX`. -/
def unicodeEscape (n : ℕ) : List Char :=
  ['\\', 'u', hexDigit (n / 4096 % 16), hexDigit (n / 256 % 16), hexDigit (n / 16 % 16),
    hexDigit (n % 16)]

/-- The characters with an escape of two characters. -/
def shortEscapes : List (Char × Char) :=
  [('"', '"'), ('\\', '\\'), ('\n', 'n'), ('\r', 'r'), ('\t', 't'), ('\x08', 'b'), ('\x0c', 'f')]

/-- A character inside a string; one outside the basic plane becomes two. -/
def escapeChar (c : Char) : List Char :=
  match shortEscapes.find? fun e => e.1 = c with
  | some e => ['\\', e.2]
  | none =>
    if ' ' ≤ c ∧ c ≤ '~' then [c]
    else if c.toNat < 65536 then unicodeEscape c.toNat
    else
      unicodeEscape (55296 + (c.toNat - 65536) / 1024) ++
        unicodeEscape (56320 + (c.toNat - 65536) % 1024)

def quote (text : List Char) : List Char := '"' :: (text.flatMap escapeChar ++ ['"'])

/-! ## Objects -/

def showField (field : List Char × List Char) : List Char := quote field.1 ++ ':' :: ' ' :: field.2

/-- What stands between the braces. -/
def showFields (fields : List (List Char × List Char)) : List Char :=
  List.intercalate [',', ' '] (fields.map showField)

def showObject (fields : List (List Char × List Char)) : List Char :=
  '{' :: (showFields fields ++ ['}'])

/-! ## Braces and line breaks -/

/-- Neither a brace nor a line break. -/
def Plain (c : Char) : Prop := c ≠ '{' ∧ c ≠ '}' ∧ c ≠ '\n'

instance : DecidablePred Plain := fun c =>
  inferInstanceAs (Decidable (c ≠ '{' ∧ c ≠ '}' ∧ c ≠ '\n'))

theorem plain_hexDigit (n : ℕ) : Plain (hexDigit n) := by
  rcases lt_or_ge n 16 with h | h
  · interval_cases n <;> decide
  · have hdefault : hexDigit n = '0' := List.getD_eq_default _ _ h
    rw [hdefault]
    decide

theorem plain_unicodeEscape {n : ℕ} {c : Char} (h : c ∈ unicodeEscape n) : Plain c := by
  simp only [unicodeEscape, List.mem_cons, List.not_mem_nil, or_false] at h
  rcases h with rfl | rfl | rfl | rfl | rfl | rfl
  · decide
  · decide
  all_goals exact plain_hexDigit _

theorem plain_shortEscapes : ∀ e ∈ shortEscapes, Plain e.2 := by
  decide

/-- A character stands for itself, or is written with other characters that are plain. -/
theorem escapeChar_cases (c : Char) :
    (escapeChar c = [c] ∧ c ≠ '\n') ∨ (escapeChar c ≠ [] ∧ ∀ x ∈ escapeChar c, Plain x) := by
  unfold escapeChar
  split
  · next e he =>
    refine Or.inr ⟨List.cons_ne_nil _ _, ?_⟩
    rw [List.forall_mem_cons]
    refine ⟨by decide, fun x hx => ?_⟩
    rw [List.mem_singleton.mp hx]
    exact plain_shortEscapes e (List.mem_of_find?_eq_some he)
  · next hnone =>
    have hc : c ≠ '\n' := by
      rintro rfl
      cases hnone
    split_ifs
    · exact Or.inl ⟨rfl, hc⟩
    · exact Or.inr ⟨List.cons_ne_nil _ _, fun x hx => plain_unicodeEscape hx⟩
    · refine Or.inr ⟨List.cons_ne_nil _ _, fun x hx => ?_⟩
      rcases List.mem_append.mp hx with hx | hx <;> exact plain_unicodeEscape hx

theorem newline_not_mem_escapeChar (c : Char) : '\n' ∉ escapeChar c := by
  rcases escapeChar_cases c with ⟨heq, hne⟩ | ⟨-, hplain⟩
  · rw [heq, List.mem_singleton]
    exact hne.symm
  · exact fun h => (hplain _ h).2.2 rfl

theorem eq_of_brace_mem_escapeChar {b c : Char} (hb : ¬ Plain b) (h : b ∈ escapeChar c) :
    c = b := by
  rcases escapeChar_cases c with ⟨heq, -⟩ | ⟨-, hplain⟩
  · rw [heq, List.mem_singleton] at h
    exact h.symm
  · exact absurd (hplain b h) hb

theorem apart_escapeChar (c : Char) : Apart '}' '{' (escapeChar c) := by
  rcases escapeChar_cases c with ⟨heq, -⟩ | ⟨-, hplain⟩
  · rw [heq]
    exact .singleton c
  · exact apart_of_not_mem fun h => (hplain _ h).2.1 rfl

theorem head?_flatMap_escapeChar {text : List Char}
    (h : (text.flatMap escapeChar).head? = some '{') :
    text.head? = some '{' := by
  cases text with
  | nil => cases h
  | cons c text =>
    have hne : escapeChar c ≠ [] := by
      rcases escapeChar_cases c with ⟨heq, -⟩ | ⟨hne, -⟩
      · rw [heq]
        exact List.cons_ne_nil _ _
      · exact hne
    rw [List.flatMap_cons, List.head?_append_of_ne_nil _ hne] at h
    rw [List.head?_cons, eq_of_brace_mem_escapeChar (by decide) (List.mem_of_mem_head? h)]

/-- Escaping brings no two braces together. -/
theorem apart_flatMap_escapeChar {text : List Char} (h : Apart '}' '{' text) :
    Apart '}' '{' (text.flatMap escapeChar) := by
  induction text with
  | nil => exact .nil
  | cons c text ih =>
    unfold Apart at h
    rw [List.isChain_cons] at h
    rw [List.flatMap_cons, Apart, List.isChain_append]
    refine ⟨apart_escapeChar c, ih h.2, ?_⟩
    rintro x hx y hy ⟨rfl, rfl⟩
    have hc : c = '}' := eq_of_brace_mem_escapeChar (by decide) (List.mem_of_mem_getLast? hx)
    exact h.1 '{' (head?_flatMap_escapeChar hy) ⟨hc, rfl⟩

theorem apart_quote {text : List Char} (h : Apart '}' '{' text) : Apart '}' '{' (quote text) :=
  ((apart_flatMap_escapeChar h).concat (by decide)).cons (by decide)

theorem newline_not_mem_quote (text : List Char) : '\n' ∉ quote text := by
  have hescaped : '\n' ∉ text.flatMap escapeChar := by
    rw [List.mem_flatMap]
    rintro ⟨c, -, hc⟩
    exact newline_not_mem_escapeChar c hc
  simp [quote, hescaped]

theorem mem_intercalate {sep : List Char} {parts : List (List Char)} {c : Char}
    (h : c ∈ List.intercalate sep parts) : c ∈ sep ∨ ∃ p ∈ parts, c ∈ p := by
  induction parts with
  | nil => cases h
  | cons p parts ih =>
    by_cases hne : parts = []
    · subst hne
      rw [List.intercalate_singleton] at h
      exact Or.inr ⟨p, List.mem_cons_self .., h⟩
    · rw [List.intercalate_cons_of_ne_nil hne, List.mem_append, List.mem_append] at h
      rcases h with (hp | hsep) | hrest
      · exact Or.inr ⟨p, List.mem_cons_self .., hp⟩
      · exact Or.inl hsep
      · rcases ih hrest with hsep | ⟨q, hq, hmem⟩
        · exact Or.inl hsep
        · exact Or.inr ⟨q, List.mem_cons_of_mem _ hq, hmem⟩

variable {fields : List (List Char × List Char)}

theorem apart_intercalate {parts : List (List Char)} (h : ∀ p ∈ parts, Apart '}' '{' p) :
    Apart '}' '{' (List.intercalate [',', ' '] parts) := by
  induction parts with
  | nil => exact .nil
  | cons p parts ih =>
    cases parts with
    | nil =>
      rw [List.intercalate_singleton]
      exact h p (List.mem_cons_self ..)
    | cons q parts =>
      have hrest := ih fun r hr => h r (List.mem_cons_of_mem _ hr)
      have hspace : Apart '}' '{' (' ' :: List.intercalate [',', ' '] (q :: parts)) :=
        hrest.cons (by decide)
      rw [List.intercalate_cons_cons, List.append_assoc]
      exact (h p (List.mem_cons_self ..)).join (c := ',') hspace (by decide) (by decide)

theorem apart_showFields
    (h : ∀ f ∈ fields, Apart '}' '{' f.1 ∧ Apart '}' '{' f.2) :
    Apart '}' '{' (showFields fields) := by
  apply apart_intercalate
  intro p hp
  obtain ⟨f, hf, rfl⟩ := List.mem_map.mp hp
  obtain ⟨hkey, hvalue⟩ := h f hf
  exact (apart_quote hkey).join (hvalue.cons (by decide)) (by decide) (by decide)

theorem apart_showObject
    (h : ∀ f ∈ fields, Apart '}' '{' f.1 ∧ Apart '}' '{' f.2) :
    Apart '}' '{' (showObject fields) :=
  ((apart_showFields h).concat (by decide)).cons (by decide)

theorem newline_not_mem_showFields (h : ∀ f ∈ fields, '\n' ∉ f.2) : '\n' ∉ showFields fields := by
  unfold showFields
  intro hmem
  rcases mem_intercalate hmem with hsep | ⟨p, hp, hmem⟩
  · exact absurd hsep (by decide)
  · obtain ⟨f, hf, rfl⟩ := List.mem_map.mp hp
    have hkey := newline_not_mem_quote f.1
    have hvalue := h f hf
    simp [showField, hkey, hvalue] at hmem

theorem newline_not_mem_showObject (h : ∀ f ∈ fields, '\n' ∉ f.2) : '\n' ∉ showObject fields := by
  have hfields := newline_not_mem_showFields h
  simp [showObject, hfields]

end Lib
end LiveStream
