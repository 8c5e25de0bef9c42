import LiveStream.Lib.Checked

/-!
# Exhaustive search

The words of a given length over an alphabet, in lexicographic order, and the loop that goes
through a list of candidates and keeps the first of the best ones.

* `mem_words` and `pairwise_lt_words`, the enumeration is complete and in order;
* `foldl_improve_eq`, the loop computes Mathlib's `List.argmax`;
* `foldl_improve_of_lt` and `foldl_improve_of_le`, the loop that starts from a score to beat, and
  `searchM_of_lt` and `searchM_of_le`, the same where the evaluation of a candidate can fail;
* `le_of_argmax`, on a list in order the candidate it keeps is the least of the best.
-/

namespace LiveStream
namespace Lib

variable {α β γ : Type*}

/-! ## Words -/

/-- The words of length `d` over the alphabet, in lexicographic order. -/
def words (alphabet : List α) : ℕ → List (List α)
  | 0 => [[]]
  | d + 1 => alphabet.flatMap fun a => (words alphabet d).map (a :: ·)

theorem mem_words {alphabet : List α} {d : ℕ} {w : List α} :
    w ∈ words alphabet d ↔ w.length = d ∧ ∀ a ∈ w, a ∈ alphabet := by
  induction d generalizing w with
  | zero =>
    rw [words, List.mem_singleton, List.length_eq_zero_iff]
    constructor
    · rintro rfl
      exact ⟨rfl, by simp⟩
    · exact fun h => h.1
  | succ d ih =>
    simp only [words, List.mem_flatMap, List.mem_map]
    constructor
    · rintro ⟨a, ha, w, hw, rfl⟩
      obtain ⟨hlen, hmem⟩ := ih.mp hw
      refine ⟨by rw [List.length_cons, hlen], ?_⟩
      rw [List.forall_mem_cons]
      exact ⟨ha, hmem⟩
    · rintro ⟨hlen, hmem⟩
      cases w with
      | nil => cases hlen
      | cons a w =>
        rw [List.forall_mem_cons] at hmem
        exact ⟨a, hmem.1, w, ih.mpr ⟨by simpa using hlen, hmem.2⟩, rfl⟩

theorem words_ne_nil {alphabet : List α} (h : alphabet ≠ []) (d : ℕ) : words alphabet d ≠ [] := by
  obtain ⟨a, ha⟩ := List.exists_mem_of_ne_nil _ h
  have hword : List.replicate d a ∈ words alphabet d := by
    refine mem_words.mpr ⟨List.length_replicate, ?_⟩
    intro b hb
    rw [List.eq_of_mem_replicate hb]
    exact ha
  exact List.ne_nil_of_mem hword

/-- The words come in lexicographic order if the letters come in order. -/
theorem pairwise_lt_words [LinearOrder α] {alphabet : List α} (h : alphabet.Pairwise (· < ·))
    (d : ℕ) : (words alphabet d).Pairwise (· < ·) := by
  induction d with
  | zero => exact List.pairwise_singleton ..
  | succ d ih =>
    rw [words, List.pairwise_flatMap]
    constructor
    · intro a _
      rw [List.pairwise_map]
      exact ih.imp fun hvw => List.cons_lt_cons_iff.mpr (Or.inr ⟨rfl, hvw⟩)
    · refine h.imp fun {a b} hab => ?_
      intro v hv w hw
      obtain ⟨v, -, rfl⟩ := List.mem_map.mp hv
      obtain ⟨w, -, rfl⟩ := List.mem_map.mp hw
      exact List.cons_lt_cons_iff.mpr (Or.inl hab)

/-- The letters `0` to `n - 1`. -/
def letters (n : ℕ) : List ℤ := (List.range n).map Int.ofNat

theorem mem_letters {n : ℕ} {a : ℤ} : a ∈ letters n ↔ 0 ≤ a ∧ a < n := by
  simp only [letters, List.mem_map, List.mem_range]
  constructor
  · rintro ⟨k, hk, rfl⟩
    exact ⟨Int.natCast_nonneg k, Int.ofNat_lt.mpr hk⟩
  · intro h
    exact ⟨a.toNat, by omega, Int.toNat_of_nonneg h.1⟩

theorem pairwise_lt_letters (n : ℕ) : (letters n).Pairwise (· < ·) := by
  rw [letters, List.pairwise_map]
  exact List.pairwise_lt_range.imp fun h => Int.ofNat_lt.mpr h

theorem mem_words_letters {n d : ℕ} {w : List ℤ} :
    w ∈ words (letters n) d ↔ w.length = d ∧ ∀ a ∈ w, 0 ≤ a ∧ a < n := by
  simp only [mem_words, mem_letters]

/-! ## The first of the best -/

variable [LinearOrder β]

/-- The loop that keeps a candidate only if it improves on all before, and with the score a
value computed from the candidate. -/
theorem foldl_improve_eq (f : α → β) (g : α → γ) (l : List α) (c : γ) :
    l.foldl (fun (best : WithBot β × γ) a =>
        if best.1 < f a then ((f a : WithBot β), g a) else best)
        (⊥, c) =
      ((l.argmax f).elim ⊥ fun a => ((f a : β) : WithBot β), (l.argmax f).elim c g) := by
  induction l using List.reverseRecOn with
  | nil => rfl
  | append_singleton l a ih =>
    rw [List.foldl_append, ih, List.argmax_concat, List.foldl_cons, List.foldl_nil]
    cases l.argmax f with
    | none => simp
    | some m =>
      simp only [Option.elim_some, WithBot.coe_lt_coe]
      split <;> rfl

/-- The step of that loop: the candidate replaces a worse one. -/
def improve (f : α → β) (g : α → γ) (best : β × γ) (a : α) : β × γ :=
  if best.1 < f a then (f a, g a) else best

theorem improve_of_lt {f : α → β} {g : α → γ} {best : β × γ} {a : α} (h : best.1 < f a) :
    improve f g best a = (f a, g a) := if_pos h

theorem improve_of_le {f : α → β} {g : α → γ} {best : β × γ} {a : α} (h : f a ≤ best.1) :
    improve f g best a = best := if_neg (not_lt.mpr h)

/-- A score that no candidate beats is kept. -/
theorem foldl_improve_of_le {f : α → β} (g : α → γ) {l : List α} {b : β} (c : γ)
    (h : ∀ a ∈ l, f a ≤ b) : l.foldl (improve f g) (b, c) = (b, c) := by
  induction l with
  | nil => rfl
  | cons a l ih =>
    rw [List.foldl_cons, improve_of_le (h a (List.mem_cons_self ..))]
    exact ih fun x hx => h x (List.mem_cons_of_mem _ hx)

/-- From a score to beat, the loop keeps the first of the best candidates if that beats it. -/
theorem foldl_improve_of_lt {f : α → β} (g : α → γ) {l : List α} {b : β} (c : γ) {m : α}
    (hm : l.argmax f = some m) (hb : b < f m) : l.foldl (improve f g) (b, c) = (f m, g m) := by
  induction l using List.reverseRecOn generalizing m with
  | nil => cases hm
  | append_singleton l a ih =>
    rw [List.argmax_concat] at hm
    rw [List.foldl_append, List.foldl_cons, List.foldl_nil]
    cases hl : l.argmax f with
    | none =>
      rw [hl, Option.some.injEq] at hm
      subst hm
      rw [List.argmax_eq_none.mp hl]
      exact improve_of_lt hb
    | some k =>
      rw [hl] at hm
      dsimp only at hm
      by_cases hlt : f k < f a
      · rw [if_pos hlt, Option.some.injEq] at hm
        subst hm
        -- the score so far is that of `k`, or still `b`
        by_cases hk : b < f k
        · rw [ih hl hk]
          exact improve_of_lt hlt
        · rw [foldl_improve_of_le g c fun x hx =>
            (List.le_of_mem_argmax hx hl).trans (not_lt.mp hk)]
          exact improve_of_lt hb
      · rw [if_neg hlt, Option.some.injEq] at hm
        subst hm
        rw [ih hl hb]
        exact improve_of_le (not_lt.mp hlt)

/-! ## Candidates that can fail -/

section Checked

variable {ω : Type*}

/-- The loop from a score to beat, over candidates whose evaluation `sim` can fail. -/
def searchM (sim : α → Option ω) (score : ω → β) (keep : α → ω → γ) (start : β × γ)
    (l : List α) : Option (β × γ) :=
  l.foldlM (fun best a => (sim a).map fun o =>
    if best.1 < score o then (score o, keep a o) else best) start

variable {sim : α → Option ω} {score : ω → β} (keep : α → ω → γ) {b : β} (c : γ) {l : List α}

theorem isSome_of_searchM {keep : α → ω → γ} {start best : β × γ}
    (h : searchM sim score keep start l = some best) :
    ∀ a ∈ l, (sim a).isSome := isSome_of_foldlM h

/-- If no evaluation fails, it is the plain loop. -/
theorem searchM_eq {out : α → ω} (h : ∀ a ∈ l, sim a = some (out a)) (start : β × γ) :
    searchM sim score keep start l =
      some (l.foldl (improve (fun a => score (out a)) fun a => keep a (out a)) start) := by
  refine (foldlM_eq_foldl (P := fun _ => True) (fun best _ a ha => ⟨?_, trivial⟩) trivial).1
  rw [h a ha]
  rfl

/-- It keeps the first of the best candidates, if that beats the score. -/
theorem searchM_of_lt {out : α → ω} (h : ∀ a ∈ l, sim a = some (out a))
    (hpos : ∃ a ∈ l, b < score (out a)) :
    ∃ m ∈ l, l.argmax (fun a => score (out a)) = some m ∧
      (∀ a ∈ l, score (out a) ≤ score (out m)) ∧ b < score (out m) ∧
      searchM sim score keep (b, c) l = some (score (out m), keep m (out m)) := by
  obtain ⟨a, ha, hlt⟩ := hpos
  obtain ⟨m, hm⟩ : ∃ m, l.argmax (fun a => score (out a)) = some m := by
    apply Option.ne_none_iff_exists'.mp
    rw [Ne, List.argmax_eq_none]
    exact List.ne_nil_of_mem ha
  have hbest : ∀ x ∈ l, score (out x) ≤ score (out m) := by
    intro x hx
    exact @List.le_of_mem_argmax _ _ _ (fun a => score (out a)) _ _ _ hx hm
  have hbeats : b < score (out m) := hlt.trans_le (hbest a ha)
  refine ⟨m, List.argmax_mem hm, hm, hbest, hbeats, ?_⟩
  rw [searchM_eq keep h, foldl_improve_of_lt _ _ hm hbeats]

/-- It keeps what it started from if no candidate beats the score. -/
theorem searchM_of_le {out : α → ω} (h : ∀ a ∈ l, sim a = some (out a))
    (hle : ∀ a ∈ l, score (out a) ≤ b) : searchM sim score keep (b, c) l = some (b, c) := by
  rw [searchM_eq keep h, foldl_improve_of_le _ _ hle]

end Checked

/-- On a list in order, the first of the best candidates is the least of them. -/
theorem le_of_argmax [LinearOrder α] {f : α → β} {l : List α} (h : l.Pairwise (· < ·)) {m a : α}
    (hm : l.argmax f = some m) (ha : a ∈ l) (hbest : f m ≤ f a) : m ≤ a := by
  obtain ⟨hmem, -, hfirst⟩ := List.argmax_eq_some_iff.mp hm
  have hidx := hfirst a ha hbest
  by_contra hlt
  rw [not_le] at hlt
  -- otherwise `a` would come before `m`
  have hia := List.idxOf_lt_length_iff.mpr ha
  have him := List.idxOf_lt_length_iff.mpr hmem
  rcases lt_or_eq_of_le hidx with hlt' | heq
  · have hma := List.pairwise_iff_getElem.mp h _ _ him hia hlt'
    rw [List.getElem_idxOf, List.getElem_idxOf] at hma
    exact lt_asymm hlt hma
  · have hsame : l[l.idxOf m] = l[l.idxOf a] := by simp only [heq]
    rw [List.getElem_idxOf, List.getElem_idxOf] at hsame
    exact hlt.ne' hsame

end Lib
end LiveStream
