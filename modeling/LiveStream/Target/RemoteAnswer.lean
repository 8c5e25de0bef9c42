import LiveStream.Lib.Text
import LiveStream.Target.GapAbr

/-!
# The answer of the remote server

`RemoteAbr::getTargetDecision` reads bytes until the socket is closed, cuts them into words and
looks at the last one. A regular expression decides whether the word is a number, and `stoi`
then reads it. The two do not agree on what a number is:

* the bracket `[(-|+)|]` holds a range, from `(` to `|`, so most characters may stand in front of
  the digits, and a digit has to follow the first character (`regexMatch_cons`);
* `stoi` takes a digit or a sign in front, and throws on the rest and on what is not an `int`;
* nothing is checked before `lines.back()`.

The answers the server does send, multiples of 200, are read as they were meant
(`readAnswer_response`).
-/

namespace LiveStream
namespace Target
namespace RemoteAbr

open Lib

/-! ## The words of the answer -/

/-- `isspace` of the classic locale. -/
def isSpace (c : Char) : Bool :=
  c ∈ [' ', '\t', '\n', '\x0b', '\x0c', '\r']

/-- The vector `lines`: what `>>` reads from the answer, one word after the other. -/
def lines (bytes : List Char) : List (List Char) :=
  (bytes.splitOnP isSpace).filter (· ≠ [])

/-- The word after the last space is the last one. -/
theorem getLast?_lines {word : List Char} (hne : word ≠ []) (hword : ∀ c ∈ word, isSpace c = false)
    (front : List Char) {c : Char} (hc : isSpace c = true) :
    (lines (front ++ c :: word)).getLast? = some word := by
  have hsplit : word.splitOnP isSpace = [word] := List.splitOnP_eq_singleton hword
  rw [lines, List.splitOnP_append_cons _ _ hc, hsplit, List.filter_append]
  simp [hne]

/-! ## The regular expression -/

/-- A term of a bracket expression. -/
inductive BracketTerm
  | single (c : Char)
  | range (first last : Char)
deriving DecidableEq

def BracketTerm.accepts : BracketTerm → Char → Bool
  | .single d, c => c = d
  | .range first last, c => first ≤ c && c ≤ last

/-- `[(-|+)|]`: the hyphen stands between `(` and `|`. -/
def signBracket : List BracketTerm := [.range '(' '|', .single '+', .single ')', .single '|']

/-- `[0-9]`. -/
def digitBracket : List BracketTerm := [.range '0' '9']

/-- `std::regex_match` with `[(-|+)|][0-9]+`. -/
def regexMatch : List Char → Bool
  | [] => false
  | c :: digits =>
    signBracket.any (·.accepts c) && digits ≠ [] && digits.all fun d =>
      digitBracket.any (·.accepts d)

/-- The first bracket is its range: the other three characters lie in it. -/
theorem signBracket_accepts (c : Char) :
    signBracket.any (·.accepts c) = true ↔ '(' ≤ c ∧ c ≤ '|' := by
  simp only [signBracket, List.any_cons, List.any_nil, BracketTerm.accepts, Bool.or_eq_true,
    Bool.and_eq_true, decide_eq_true_eq, Bool.false_eq_true, or_false]
  constructor
  · rintro (h | rfl | rfl | rfl)
    · exact h
    all_goals exact ⟨by decide, by decide⟩
  · exact Or.inl

theorem digitBracket_accepts (d : Char) : digitBracket.any (·.accepts d) = d.isDigit := by
  simp only [digitBracket, List.any_cons, List.any_nil, BracketTerm.accepts, Bool.or_false,
    Char.isDigit]
  rfl

/-- What the regular expression accepts. -/
theorem regexMatch_cons (c : Char) (digits : List Char) :
    regexMatch (c :: digits) = true ↔
      ('(' ≤ c ∧ c ≤ '|') ∧ digits ≠ [] ∧ digits.all Char.isDigit = true := by
  simp only [regexMatch, Bool.and_eq_true, signBracket_accepts, digitBracket_accepts,
    decide_eq_true_eq, and_assoc]

/-! ## Reading the number -/

/-- The values of an `int`. -/
def fitsInt (n : ℤ) : Bool := -2 ^ 31 ≤ n && n < 2 ^ 31

/-- `strtol` after the spaces: a sign is skipped, and what follows the digits is not looked
at. -/
def strtol : List Char → Option ℤ
  | '-' :: rest => (takeNat rest).map fun r : ℕ × List Char => -(r.1 : ℤ)
  | '+' :: rest => (takeNat rest).map fun r : ℕ × List Char => (r.1 : ℤ)
  | rest => (takeNat rest).map fun r : ℕ × List Char => (r.1 : ℤ)

/-- `std::stoi`, `none` where it throws. -/
def stoi (text : List Char) : Option ℤ :=
  (strtol (text.dropWhile isSpace)).filter fitsInt

/-- How the reading of an answer ends. -/
inductive Reading
  | returned (decision : ℤ)
  /-- `back()` of an empty vector. -/
  | emptyAccess
  /-- An exception leaves the function. -/
  | escaped
deriving DecidableEq

/-- `getTargetDecision` from the bytes read on. -/
def readAnswer (bytes : List Char) : Reading :=
  match (lines bytes).getLast? with
  | none => .emptyAccess
  | some word =>
    if regexMatch word then
      match stoi word with
      | some decision => .returned decision
      | none => .escaped
    else .returned 0

/-! ## What an answer denotes -/

/-- The value of one or more digits. -/
def natural (digits : List Char) : Option ℕ :=
  if digits ≠ [] ∧ digits.all Char.isDigit = true then some (Nat.ofDigitChars 10 digits 0) else none

/-- The value of a decimal numeral with or without a sign. -/
def numeral : List Char → Option ℤ
  | '-' :: digits => (natural digits).map fun n : ℕ => -(n : ℤ)
  | '+' :: digits => (natural digits).map fun n : ℕ => (n : ℤ)
  | digits => (natural digits).map fun n : ℕ => (n : ℤ)

/-- The number that the last word of an answer denotes, and 0 where it denotes none. -/
def denoted (bytes : List Char) : ℤ :=
  ((lines bytes).getLast?.bind fun word => (numeral word).filter fitsInt).getD 0

/-- On digits alone the reader reads what they denote. -/
theorem takeNat_of_digits {digits : List Char} (hne : digits ≠ [])
    (hdigits : digits.all Char.isDigit = true) :
    takeNat digits = some (Nat.ofDigitChars 10 digits 0, []) := by
  have htake := @takeNat_append digits [] hne (List.all_eq_true.mp hdigits) (by simp)
  rwa [List.append_nil] at htake

theorem natural_of_digits {digits : List Char} (hne : digits ≠ [])
    (hdigits : digits.all Char.isDigit = true) :
    natural digits = some (Nat.ofDigitChars 10 digits 0) := by
  rw [natural, if_pos ⟨hne, hdigits⟩]

theorem digits_of_natural {digits : List Char} {n : ℕ} (h : natural digits = some n) :
    digits ≠ [] ∧ digits.all Char.isDigit = true := by
  rw [natural] at h
  split at h
  · next hdigits => exact hdigits
  · exact absurd h (Option.some_ne_none n).symm

/-- Behind a sign both read digits, and put the sign to their value. -/
theorem numeral_of_sign {c : Char} (hc : c = '+' ∨ c = '-') (digits : List Char) :
    ∃ sign : ℕ → ℤ, numeral (c :: digits) = (natural digits).map sign ∧
      strtol (c :: digits) = (takeNat digits).map fun r => sign r.1 := by
  rcases hc with rfl | rfl
  · exact ⟨fun n => n, rfl, rfl⟩
  · exact ⟨fun n => -n, rfl, rfl⟩

theorem numeral_of_ne_sign {c : Char} (hc : ¬ (c = '+' ∨ c = '-')) (digits : List Char) :
    numeral (c :: digits) = (natural (c :: digits)).map fun n : ℕ => (n : ℤ) := by
  rw [numeral]
  · rintro rest ⟨⟩
    exact hc (Or.inr rfl)
  · rintro rest ⟨⟩
    exact hc (Or.inl rfl)

theorem strtol_of_ne_sign {c : Char} (hc : ¬ (c = '+' ∨ c = '-')) (rest : List Char) :
    strtol (c :: rest) = (takeNat (c :: rest)).map fun r : ℕ × List Char => (r.1 : ℤ) := by
  rw [strtol]
  · rintro rest ⟨⟩
    exact hc (Or.inr rfl)
  · rintro rest ⟨⟩
    exact hc (Or.inl rfl)

theorem isSpace_of_le {c : Char} (hc : '(' ≤ c) : isSpace c = false := by
  simp only [isSpace, List.mem_cons, List.not_mem_nil, or_false, decide_eq_false_iff_not]
  rintro (rfl | rfl | rfl | rfl | rfl | rfl)
  all_goals exact absurd hc (by decide)

/-- The digits are in the range of the first bracket. -/
theorem range_of_isDigit {d : Char} (hd : d.isDigit = true) : '(' ≤ d ∧ d ≤ '|' := by
  simp only [Char.isDigit, Bool.and_eq_true, decide_eq_true_eq] at hd
  exact ⟨le_trans (by decide) hd.1, le_trans hd.2 (by decide)⟩

theorem range_of_sign {c : Char} (hc : c = '+' ∨ c = '-') : '(' ≤ c ∧ c ≤ '|' := by
  rcases hc with rfl | rfl
  · decide
  · decide

/-- Before digits, the reader reads a character as what it denotes. -/
theorem takeNat_cons_digits {c : Char} {digits : List Char}
    (hdigits : digits.all Char.isDigit = true) :
    takeNat (c :: digits) = (natural (c :: digits)).map fun n => (n, []) := by
  by_cases hdigit : c.isDigit = true
  · have hall : (c :: digits).all Char.isDigit = true := by
      rw [List.all_cons, hdigit, hdigits]
      rfl
    rw [takeNat_of_digits (List.cons_ne_nil _ _) hall,
      natural_of_digits (List.cons_ne_nil _ _) hall]
    rfl
  · have hall : ¬ (c :: digits).all Char.isDigit = true := by
      simp [hdigit]
    rw [takeNat, List.takeWhile_cons_of_neg hdigit, if_pos rfl, natural, if_neg fun h => hall h.2]
    rfl

/-- On the words the regular expression accepts, `stoi` returns what the word denotes and throws
where it denotes nothing. -/
theorem stoi_of_regexMatch {word : List Char} (h : regexMatch word = true) :
    stoi word = (numeral word).filter fitsInt := by
  cases word with
  | nil => exact absurd h (by decide)
  | cons c digits =>
    obtain ⟨⟨hc, -⟩, hne, hdigits⟩ := (regexMatch_cons c digits).mp h
    have hdrop : (c :: digits).dropWhile isSpace = c :: digits := by
      rw [List.dropWhile_cons_of_neg (by simp [isSpace_of_le hc])]
    rw [stoi, hdrop]
    by_cases hsign : c = '+' ∨ c = '-'
    · obtain ⟨sign, hnumeral, hstrtol⟩ := numeral_of_sign hsign digits
      rw [hnumeral, hstrtol, takeNat_of_digits hne hdigits, natural_of_digits hne hdigits]
      rfl
    · rw [strtol_of_ne_sign hsign, numeral_of_ne_sign hsign, takeNat_cons_digits hdigits,
        Option.map_map]
      rfl

/-- A numeral that the regular expression does not accept is a single digit. -/
theorem eq_singleton_of_not_regexMatch {word : List Char} (h : ¬ regexMatch word = true) {n : ℤ}
    (hn : numeral word = some n) : ∃ d, word = [d] ∧ d.isDigit = true := by
  cases word with
  | nil => exact absurd hn (Option.some_ne_none n).symm
  | cons c digits =>
    rw [regexMatch_cons] at h
    by_cases hsign : c = '+' ∨ c = '-'
    · obtain ⟨sign, hnumeral, -⟩ := numeral_of_sign hsign digits
      rw [hnumeral] at hn
      obtain ⟨m, hm, -⟩ := Option.map_eq_some_iff.mp hn
      exact absurd ⟨range_of_sign hsign, digits_of_natural hm⟩ h
    · rw [numeral_of_ne_sign hsign] at hn
      obtain ⟨m, hm, -⟩ := Option.map_eq_some_iff.mp hn
      obtain ⟨-, hall⟩ := digits_of_natural hm
      rw [List.all_cons, Bool.and_eq_true] at hall
      obtain ⟨hc, hdigits⟩ := hall
      by_cases hne : digits = []
      · exact ⟨c, by rw [hne], hc⟩
      · exact absurd ⟨range_of_isDigit hc, hne, hdigits⟩ h

/-! ## The answers that are read well -/

/-- The words on which the regular expression and `stoi` do what they are there for. -/
structure WellRead (word : List Char) : Prop where
  /-- A single digit is not accepted, so it is read as 0. -/
  single : ∀ d, word = [d] → d.isDigit = true → d = '0'
  /-- What stands in front of digits is a digit or a sign, or is outside of the range. -/
  front : ∀ c digits, word = c :: digits → digits ≠ [] → digits.all Char.isDigit = true →
    '(' ≤ c → c ≤ '|' → c.isDigit = true ∨ c = '+' ∨ c = '-'
  fits : ∀ n, numeral word = some n → fitsInt n = true

/-- An accepted word denotes a number exactly if a digit or a sign stands in front. -/
theorem isSome_numeral_of_regexMatch {c : Char} {digits : List Char}
    (h : regexMatch (c :: digits) = true) :
    (numeral (c :: digits)).isSome = true ↔ c.isDigit = true ∨ c = '+' ∨ c = '-' := by
  obtain ⟨-, hne, hdigits⟩ := (regexMatch_cons c digits).mp h
  by_cases hsign : c = '+' ∨ c = '-'
  · obtain ⟨sign, hnumeral, -⟩ := numeral_of_sign hsign digits
    rw [hnumeral, natural_of_digits hne hdigits]
    exact iff_of_true rfl (Or.inr hsign)
  · rw [numeral_of_ne_sign hsign, Option.isSome_map, natural]
    simp [hsign, hdigits]

theorem wellRead_iff_of_regexMatch {word : List Char} (h : regexMatch word = true) :
    WellRead word ↔ ∃ n, (numeral word).filter fitsInt = some n := by
  cases word with
  | nil => exact absurd h (by decide)
  | cons c digits =>
    obtain ⟨⟨hfirst, hlast⟩, hne, hdigits⟩ := (regexMatch_cons c digits).mp h
    have hsome := isSome_numeral_of_regexMatch h
    constructor
    · intro hread
      have hfront := hread.front c digits rfl hne hdigits hfirst hlast
      obtain ⟨n, hn⟩ := Option.isSome_iff_exists.mp (hsome.mpr hfront)
      exact ⟨n, by rw [hn, Option.filter_some, if_pos (hread.fits n hn)]⟩
    · rintro ⟨n, hn⟩
      obtain ⟨hn, hfits⟩ := Option.filter_eq_some_iff.mp hn
      refine ⟨?_, ?_, ?_⟩
      · rintro d ⟨⟩ -
        exact absurd rfl hne
      · rintro c digits ⟨⟩ - - - -
        exact hsome.mp (by rw [hn]; rfl)
      · intro m hm
        rw [hn] at hm
        rwa [← Option.some.inj hm]

/-- Digits without a sign. -/
theorem numeral_of_digits {digits : List Char} (hne : digits ≠ [])
    (hdigits : digits.all Char.isDigit = true) :
    numeral digits = some ((Nat.ofDigitChars 10 digits 0 : ℕ) : ℤ) := by
  have hnatural := natural_of_digits hne hdigits
  cases digits with
  | nil => exact absurd rfl hne
  | cons c digits =>
    have hc : c.isDigit = true := List.all_eq_true.mp hdigits c List.mem_cons_self
    have hsign : ¬ (c = '+' ∨ c = '-') := by
      rintro (rfl | rfl)
      · exact absurd hc (by decide)
      · exact absurd hc (by decide)
    rw [numeral_of_ne_sign hsign, hnatural]
    rfl

/-- The value of a single digit. -/
theorem numeral_singleton {d : Char} (hd : d.isDigit = true) :
    ∃ n : ℕ, numeral [d] = some (n : ℤ) ∧ n ≤ 9 ∧ (n = 0 ↔ d = '0') := by
  have hfirst : '0'.toNat ≤ d.toNat := Char.isDigit_iff_toNat.mp hd |>.1
  have hlast : d.toNat ≤ '9'.toNat := Char.isDigit_iff_toNat.mp hd |>.2
  refine ⟨d.toNat - '0'.toNat, ?_, by exact Nat.sub_le_sub_right hlast _, ?_⟩
  · rw [numeral_of_digits (List.cons_ne_nil _ _) (by simp [hd]), Nat.ofDigitChars_cons]
    simp
  · rw [Nat.sub_eq_zero_iff_le]
    constructor
    · intro hle
      exact Char.toNat_inj.mp (le_antisymm hle hfirst)
    · rintro rfl
      exact le_rfl

theorem wellRead_iff_of_not_regexMatch {word : List Char} (h : ¬ regexMatch word = true) :
    WellRead word ↔ ((numeral word).filter fitsInt).getD 0 = 0 := by
  -- nothing accepted stands in front of the digits
  have hfront : ∀ c digits, word = c :: digits → digits ≠ [] → digits.all Char.isDigit = true →
      '(' ≤ c → c ≤ '|' → c.isDigit = true ∨ c = '+' ∨ c = '-' := by
    rintro c digits rfl hne hdigits hfirst hlast
    exact absurd ((regexMatch_cons c digits).mpr ⟨⟨hfirst, hlast⟩, hne, hdigits⟩) h
  cases hn : numeral word with
  | none =>
    refine iff_of_true ⟨?_, hfront, ?_⟩ rfl
    · rintro d rfl hd
      obtain ⟨n, hsome, -⟩ := numeral_singleton hd
      exact absurd (hn.symm.trans hsome) (Option.some_ne_none _).symm
    · intro n hsome
      exact absurd (hn.symm.trans hsome) (Option.some_ne_none _).symm
  | some n =>
    obtain ⟨d, rfl, hd⟩ := eq_singleton_of_not_regexMatch h hn
    obtain ⟨m, hm, hle, hzero⟩ := numeral_singleton hd
    obtain rfl : (m : ℤ) = n := Option.some.inj (hm.symm.trans hn)
    have hfits : fitsInt m = true := by
      simp only [fitsInt, Bool.and_eq_true, decide_eq_true_eq]
      omega
    rw [Option.filter_some, if_pos hfits, Option.getD_some, Int.natCast_eq_zero, hzero]
    constructor
    · intro hread
      exact hread.single d rfl hd
    · intro hd0
      refine ⟨?_, hfront, ?_⟩
      · intro c hc _
        rw [← (List.cons.inj hc).1, hd0]
      · intro k hk
        obtain rfl : (m : ℤ) = k := Option.some.inj (hm.symm.trans hk)
        exact hfits

theorem readAnswer_iff_of_getLast? {bytes word : List Char}
    (hlast : (lines bytes).getLast? = some word) :
    readAnswer bytes = .returned (denoted bytes) ↔ WellRead word := by
  rw [readAnswer, denoted, hlast, Option.bind_some]
  by_cases h : regexMatch word = true
  · simp only [h, ↓reduceIte]
    rw [stoi_of_regexMatch h, wellRead_iff_of_regexMatch h]
    cases (numeral word).filter fitsInt with
    | none => simp
    | some n => simp
  · simp only [h, Bool.false_eq_true, ↓reduceIte]
    rw [wellRead_iff_of_not_regexMatch h, Reading.returned.injEq, eq_comm]

/-- The answers that are read as what they denote: there is a last word, and it is well read. -/
theorem readAnswer_eq_returned_denoted_iff (bytes : List Char) :
    readAnswer bytes = .returned (denoted bytes) ↔
      ∃ word, (lines bytes).getLast? = some word ∧ WellRead word := by
  cases hlast : (lines bytes).getLast? with
  | none =>
    have hempty : readAnswer bytes = .emptyAccess := by rw [readAnswer, hlast]
    simp [hempty]
  | some word =>
    rw [readAnswer_iff_of_getLast? hlast]
    simp

/-- The four ways in which an answer is not read well: nothing came, a number of one digit, a
character of the range in front of the digits, a number beyond `int`. -/
theorem readAnswer_ill_read :
    readAnswer [] = .emptyAccess ∧
    readAnswer "200 OK 5".toList = .returned 0 ∧ denoted "200 OK 5".toList = 5 ∧
    readAnswer "a12".toList = .escaped ∧ denoted "a12".toList = 0 ∧
    readAnswer "99999999999".toList = .escaped ∧ denoted "99999999999".toList = 0 := by
  decide +kernel

/-! ## The server's answers -/

/-- The text that `get_target_bandwidth` returns: `(prediction + 1) * MAX_TARGET_BW //
OUTPUT_SPACE`. -/
def response (prediction : ℤ) : List Char := showInt ((prediction + 1) * 3000 / 15)

theorem regexMatch_of_digits {digits : List Char} (hlong : 1 < digits.length)
    (hdigits : digits.all Char.isDigit = true) : regexMatch digits = true := by
  cases digits with
  | nil => exact absurd hlong (by decide)
  | cons c digits =>
    rw [List.all_cons, Bool.and_eq_true] at hdigits
    have hne : digits ≠ [] := by
      rintro rfl
      exact absurd hlong (by simp)
    exact (regexMatch_cons c digits).mpr ⟨range_of_isDigit hdigits.1, hne, hdigits.2⟩

/-- Numbers of two digits and more are read as what they are, whatever stands before the space. -/
theorem readAnswer_showInt {n : ℕ} (hten : 10 ≤ n) (hfits : fitsInt n = true)
    (front : List Char) {c : Char} (hc : isSpace c = true) :
    readAnswer (front ++ c :: showInt n) = .returned n := by
  have hdigits : (showInt n).all Char.isDigit = true :=
    List.all_eq_true.mpr fun d hd => isDigit_toDigits hd
  have hspace : ∀ d ∈ showInt n, isSpace d = false := by
    intro d hd
    exact isSpace_of_le (range_of_isDigit (isDigit_toDigits hd)).1
  have hlong : 1 < (showInt n).length := by
    show 1 < (Nat.toDigits 10 n).length
    rw [← Nat.not_le, Nat.length_toDigits_le_iff (by norm_num) (by norm_num)]
    omega
  have hmatch := regexMatch_of_digits hlong hdigits
  have hvalue : numeral (showInt n) = some (n : ℤ) := by
    rw [numeral_of_digits (showInt_ne_nil n) hdigits]
    show some ((Nat.ofDigitChars 10 (Nat.toDigits 10 n) 0 : ℕ) : ℤ) = _
    rw [Nat.ofDigitChars_ten_toDigits]
  rw [readAnswer, getLast?_lines (showInt_ne_nil n) hspace front hc]
  simp only [hmatch, ↓reduceIte]
  rw [stoi_of_regexMatch hmatch, hvalue, Option.filter_some, if_pos hfits]

/-- Every action of the model reaches the planner. -/
theorem readAnswer_response {prediction : ℤ} (h0 : 0 ≤ prediction) (h15 : prediction < 15)
    (front : List Char) {c : Char} (hc : isSpace c = true) :
    readAnswer (front ++ c :: response prediction) = .returned ((prediction + 1) * 200) := by
  have hdiv : (prediction + 1) * 3000 / 15 = (prediction + 1) * 200 := by omega
  rw [response, hdiv]
  obtain ⟨n, hn⟩ := Int.eq_ofNat_of_zero_le (show 0 ≤ (prediction + 1) * 200 by omega)
  rw [hn]
  apply readAnswer_showInt
  · omega
  · simp only [fitsInt, Bool.and_eq_true, decide_eq_true_eq]
    omega
  · exact hc

/-! ## The decision -/

/-- `getTargetDecision` with the bytes that a server sends in reply. -/
def receiveDecision (reply : Request → List Char) (q : Request) : Reading :=
  if q.isSent then readAnswer (reply q) else .returned 0

/-- Where the replies are well read, the exchange yields the numbers they denote. -/
theorem receiveDecision_of_wellRead {reply : Request → List Char} {q : Request}
    (h : q.isSent = true → ∃ word, (lines (reply q)).getLast? = some word ∧ WellRead word) :
    receiveDecision reply q = .returned (getTargetDecision (fun q => denoted (reply q)) q) := by
  unfold receiveDecision getTargetDecision
  by_cases hsent : q.isSent = true
  · obtain ⟨word, hlast, hread⟩ := h hsent
    rw [if_pos hsent, if_pos hsent, (readAnswer_iff_of_getLast? hlast).mpr hread]
  · rw [if_neg hsent, if_neg hsent]

end RemoteAbr
end Target
end LiveStream
