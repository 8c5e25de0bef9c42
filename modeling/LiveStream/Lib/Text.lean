import Mathlib

/-!
# Numbers and lists as text

Printers and readers for decimal integers, bracketed lists and `name=value` queries. Each
reader takes what it reads off the front of a text and returns the rest, so that readers
compose; each round trip is stated for an arbitrary rest.

* `takeInt_showInt` and `readInt_showInt` for integers;
* `takeList_showList` for lists of anything that can be read back, so also for lists of lists;
* `readQuery_showQuery` for queries.
-/

namespace LiveStream
namespace Lib

variable {α : Type*}

/-! ## Integers -/

/-- The text of an integer. -/
def showInt : ℤ → List Char
  | .ofNat n => Nat.toDigits 10 n
  | .negSucc n => '-' :: Nat.toDigits 10 (n + 1)

def takeNat (text : List Char) : Option (ℕ × List Char) :=
  if text.takeWhile Char.isDigit = [] then none
  else some (Nat.ofDigitChars 10 (text.takeWhile Char.isDigit) 0, text.dropWhile Char.isDigit)

/-- An integer at the front of a text. -/
def takeInt : List Char → Option (ℤ × List Char)
  | '-' :: text => (takeNat text).map fun r => (-(r.1 : ℤ), r.2)
  | text => (takeNat text).map fun r => ((r.1 : ℤ), r.2)

/-- A text that is an integer. -/
def readInt (text : List Char) : Option ℤ :=
  match takeInt text with
  | some (n, []) => some n
  | _ => none

theorem isDigit_toDigits {n : ℕ} {c : Char} (h : c ∈ Nat.toDigits 10 n) : c.isDigit = true :=
  Nat.isDigit_of_mem_toDigits (by norm_num) (by norm_num) h

/-- Digits are read up to the first character that is none. -/
theorem takeNat_append {digits rest : List Char} (hne : digits ≠ [])
    (hdigits : ∀ c ∈ digits, c.isDigit = true) (hrest : ∀ c ∈ rest.head?, c.isDigit = false) :
    takeNat (digits ++ rest) = some (Nat.ofDigitChars 10 digits 0, rest) := by
  have htake : rest.takeWhile Char.isDigit = [] := by
    cases rest with
    | nil => rfl
    | cons c rest => simp [hrest c rfl]
  have hdrop : rest.dropWhile Char.isDigit = rest := by
    cases rest with
    | nil => rfl
    | cons c rest => simp [hrest c rfl]
  unfold takeNat
  rw [List.takeWhile_append_of_pos hdigits, List.dropWhile_append_of_pos hdigits, htake, hdrop,
    List.append_nil, if_neg hne]

theorem takeNat_toDigits (n : ℕ) {rest : List Char} (hrest : ∀ c ∈ rest.head?, c.isDigit = false) :
    takeNat (Nat.toDigits 10 n ++ rest) = some (n, rest) := by
  rw [takeNat_append Nat.toDigits_ne_nil (fun c hc => isDigit_toDigits hc) hrest,
    Nat.ofDigitChars_ten_toDigits]

theorem takeInt_showInt (n : ℤ) {rest : List Char} (hrest : ∀ c ∈ rest.head?, c.isDigit = false) :
    takeInt (showInt n ++ rest) = some (n, rest) := by
  cases n with
  | ofNat n =>
    unfold showInt
    -- the first character is a digit
    have hhead : ∀ text, Nat.toDigits 10 n ++ rest ≠ '-' :: text := by
      intro text h
      have hdigit : ∀ c ∈ (Nat.toDigits 10 n ++ rest).head?, c.isDigit = true := by
        intro c hc
        rw [List.head?_append_of_ne_nil _ Nat.toDigits_ne_nil] at hc
        exact isDigit_toDigits (List.mem_of_mem_head? hc)
      have := hdigit '-' (by rw [h]; rfl)
      exact absurd this (by decide)
    have htake : takeInt (Nat.toDigits 10 n ++ rest)
        = (takeNat (Nat.toDigits 10 n ++ rest)).map fun r => ((r.1 : ℤ), r.2) := by
      unfold takeInt
      split
      · next text h => exact absurd h (hhead text)
      · rfl
    rw [htake, takeNat_toDigits n hrest]
    rfl
  | negSucc n =>
    show (takeNat (Nat.toDigits 10 (n + 1) ++ rest)).map (fun r => (-(r.1 : ℤ), r.2)) = _
    rw [takeNat_toDigits (n + 1) hrest]
    rfl

theorem readInt_showInt (n : ℤ) : readInt (showInt n) = some n := by
  have h : takeInt (showInt n ++ []) = some (n, []) := takeInt_showInt n (by simp)
  rw [List.append_nil] at h
  rw [readInt, h]

/-- The characters of an integer. -/
theorem mem_showInt {n : ℤ} {c : Char} (h : c ∈ showInt n) : c.isDigit = true ∨ c = '-' := by
  cases n with
  | ofNat n => exact .inl (isDigit_toDigits h)
  | negSucc n =>
    rcases List.mem_cons.mp h with rfl | h
    · exact .inr rfl
    · exact .inl (isDigit_toDigits h)

theorem showInt_ne_nil (n : ℤ) : showInt n ≠ [] := by
  cases n with
  | ofNat n => exact Nat.toDigits_ne_nil
  | negSucc n => exact List.cons_ne_nil _ _

/-! ## Lists -/

/-- A bracketed list with a comma after every item. -/
def showList (print : α → List Char) (items : List α) : List Char :=
  '[' :: items.flatMap (fun a => print a ++ [',']) ++ [']']

/-- The characters of a list. -/
theorem mem_showList {print : α → List Char} {items : List α} {c : Char}
    (h : c ∈ showList print items) :
    c = '[' ∨ c = ',' ∨ c = ']' ∨ ∃ a ∈ items, c ∈ print a := by
  simp only [showList, List.cons_append, List.mem_cons, List.mem_append, List.mem_flatMap,
    List.not_mem_nil, or_false] at h
  rcases h with h | ⟨a, ha, h | h⟩ | h
  · exact .inl h
  · exact .inr (.inr (.inr ⟨a, ha, h⟩))
  · exact .inr (.inl h)
  · exact .inr (.inr (.inl h))

/-- The items up to the closing bracket, with or without a comma after the last. -/
def takeItems (item : List Char → Option (α × List Char)) : ℕ → List Char →
    Option (List α × List Char)
  | 0, _ => none
  | _ + 1, ']' :: rest => some ([], rest)
  | fuel + 1, text =>
    match item text with
    | some (a, ',' :: rest) => (takeItems item fuel rest).map fun r => (a :: r.1, r.2)
    | some (a, ']' :: rest) => some ([a], rest)
    | _ => none

/-- A list at the front of a text. -/
def takeList (item : List Char → Option (α × List Char)) : List Char → Option (List α × List Char)
  | '[' :: text => takeItems item (text.length + 1) text
  | _ => none

/-- A text that is a list. -/
def readList (item : List Char → Option (α × List Char)) (text : List Char) : Option (List α) :=
  match takeList item text with
  | some (items, []) => some items
  | _ => none

/-- What `takeList` needs to know about its items: they can be read back before a comma, and do
not look like the end of the list. -/
structure Readable (print : α → List Char) (item : List Char → Option (α × List Char)) : Prop where
  read : ∀ a rest, item (print a ++ ',' :: rest) = some (a, ',' :: rest)
  open_ne : ∀ a rest text, print a ++ ',' :: rest ≠ ']' :: text

theorem takeItems_print {print : α → List Char} {item : List Char → Option (α × List Char)}
    (h : Readable print item) (items : List α) (rest : List Char) {fuel : ℕ}
    (hfuel : items.length < fuel) :
    takeItems item fuel (items.flatMap (fun a => print a ++ [',']) ++ ']' :: rest)
      = some (items, rest) := by
  induction items generalizing fuel with
  | nil =>
    obtain ⟨fuel, rfl⟩ : ∃ k, fuel = k + 1 := ⟨fuel - 1, by simp at hfuel; omega⟩
    rfl
  | cons a items ih =>
    rw [List.length_cons] at hfuel
    obtain ⟨fuel, rfl⟩ : ∃ k, fuel = k + 1 := ⟨fuel - 1, by omega⟩
    generalize htail : items.flatMap (fun a => print a ++ [',']) ++ ']' :: rest = tail at ih
    have htext : (a :: items).flatMap (fun a => print a ++ [',']) ++ ']' :: rest
        = print a ++ ',' :: tail := by
      rw [← htail, List.flatMap_cons]
      simp only [List.append_assoc, List.cons_append, List.nil_append]
    rw [htext]
    have hstep : takeItems item (fuel + 1) (print a ++ ',' :: tail)
        = (takeItems item fuel tail).map fun r => (a :: r.1, r.2) := by
      rw [takeItems]
      · rw [h.read]
        rfl
      · exact fun text => h.open_ne a tail text
    rw [hstep, ih (by omega)]
    rfl

theorem takeList_showList {print : α → List Char} {item : List Char → Option (α × List Char)}
    (h : Readable print item) (items : List α) (rest : List Char) :
    takeList item (showList print items ++ rest) = some (items, rest) := by
  have hlength : items.length ≤ (items.flatMap fun a => print a ++ [',']).length := by
    rw [List.length_flatMap]
    simp
  have htext : showList print items ++ rest
      = '[' :: (items.flatMap (fun a => print a ++ [',']) ++ ']' :: rest) := by
    simp [showList]
  rw [htext]
  show takeItems item _ _ = _
  apply takeItems_print h
  rw [List.length_append]
  omega

theorem readList_showList {print : α → List Char} {item : List Char → Option (α × List Char)}
    (h : Readable print item) (items : List α) :
    readList item (showList print items) = some items := by
  have hread := takeList_showList h items []
  rw [List.append_nil] at hread
  rw [readList, hread]

theorem readable_int : Readable showInt takeInt where
  read := fun n rest => takeInt_showInt n (by intro c hc; obtain rfl := Option.some.inj hc; decide)
  open_ne := by
    intro n rest text h
    have hhead : (showInt n).head? = some ']' := by
      rw [← List.head?_append_of_ne_nil _ (showInt_ne_nil n), h]
      rfl
    rcases mem_showInt (List.mem_of_mem_head? hhead) with hdigit | hminus
    · exact absurd hdigit (by decide)
    · exact absurd hminus (by decide)

/-- Lists of readable items are readable. -/
theorem Readable.list {print : α → List Char} {item : List Char → Option (α × List Char)}
    (h : Readable print item) : Readable (showList print) (takeList item) where
  read := fun items rest => takeList_showList h items (',' :: rest)
  open_ne := by
    intro items rest text htext
    have hhead := (List.cons.inj htext).1
    exact absurd hhead (by decide)

/-! ## Queries -/

/-- `name=value` pairs joined by `&`. -/
def showQuery (fields : List (List Char × List Char)) : List Char :=
  List.intercalate ['&'] (fields.map fun f => f.1 ++ '=' :: f.2)

/-- The pairs of a query: each part is cut at its first `=`. -/
def readQuery (text : List Char) : List (List Char × List Char) :=
  (text.splitOn '&').map fun part => (part.takeWhile (· ≠ '='), (part.dropWhile (· ≠ '=')).tail)

/-- The value of the first pair with a name. -/
def queryValue (text : List Char) (name : List Char) : Option (List Char) :=
  ((readQuery text).find? fun f => f.1 = name).map Prod.snd

/-- Without `&` anywhere and `=` in the names, the pairs are found again. -/
theorem readQuery_showQuery {fields : List (List Char × List Char)} (hne : fields ≠ [])
    (hname : ∀ f ∈ fields, '&' ∉ f.1 ∧ '=' ∉ f.1) (hvalue : ∀ f ∈ fields, '&' ∉ f.2) :
    readQuery (showQuery fields) = fields := by
  unfold readQuery showQuery
  rw [List.splitOn_intercalate, List.map_map]
  · conv_rhs => rw [← List.map_id fields]
    apply List.map_congr_left
    intro f hf
    have hall : ∀ c ∈ f.1, decide (c ≠ '=') = true := by
      intro c hc
      rw [decide_eq_true_eq]
      rintro rfl
      exact (hname f hf).2 hc
    simp only [Function.comp, id]
    rw [List.takeWhile_append_of_pos hall, List.dropWhile_append_of_pos hall]
    simp
  · intro part hpart
    obtain ⟨f, hf, rfl⟩ := List.mem_map.mp hpart
    have h1 := (hname f hf).1
    have h2 := hvalue f hf
    simp [h1, h2]
  · simpa using hne

end Lib
end LiveStream
