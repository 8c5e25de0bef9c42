import Mathlib

/-!
# Playing from a buffer

A player downloads chunks one after the other while its buffer drains. A chunk that takes longer
than the buffer lasts makes the player wait for the rest of the download; afterwards the chunk's
duration is added to the buffer.

* `stallTime_mono`, faster downloads and a fuller buffer never wait longer;
* `stallTime_speedUp_eq_iff`, when they wait as long: where the slower player stalls, nothing has
  been faster yet.
-/

namespace LiveStream
namespace Lib

variable {K : Type*} [Field K] [LinearOrder K] [IsStrictOrderedRing K]

/-- The total waiting time of chunks given by download time and duration. -/
def stallTime (buffer : K) : List (K × K) → K
  | [] => 0
  | (time, duration) :: chunks =>
    if buffer < time then time - buffer + stallTime duration chunks
    else stallTime (buffer - time + duration) chunks

/-- The player waits for this chunk. -/
def StallsAt (buffer : K) (chunks : List (K × K)) (k : ℕ) : Prop :=
  stallTime buffer (chunks.take k) < stallTime buffer (chunks.take (k + 1))

/-- The same chunks with download times divided by `c`. -/
def speedUp (c : K) (chunks : List (K × K)) : List (K × K) :=
  chunks.map fun chunk => (chunk.1 / c, chunk.2)

variable {c buffer buffer' time duration : K} {chunks : List (K × K)}

theorem stallsAt_zero : StallsAt buffer ((time, duration) :: chunks) 0 ↔ buffer < time := by
  unfold StallsAt
  simp only [List.take_zero, List.take_succ_cons, stallTime]
  split
  · next h => simp [h]
  · next h => simp [h]

theorem stallsAt_succ (k : ℕ) :
    StallsAt buffer ((time, duration) :: chunks) (k + 1) ↔
      StallsAt (if buffer < time then duration else buffer - time + duration) chunks k := by
  unfold StallsAt
  simp only [List.take_succ_cons, stallTime]
  split
  · exact add_lt_add_iff_left _
  · rfl

theorem stallTime_mono (hc : 1 < c) (ht : ∀ chunk ∈ chunks, 0 ≤ chunk.1) (hb : buffer ≤ buffer') :
    stallTime buffer' (speedUp c chunks) ≤ stallTime buffer chunks := by
  induction chunks generalizing buffer buffer' with
  | nil => exact le_rfl
  | cons chunk chunks ih =>
    obtain ⟨time, duration⟩ := chunk
    have htail : ∀ chunk ∈ chunks, 0 ≤ chunk.1 := fun x hx => ht x (List.mem_cons_of_mem _ hx)
    have htime : 0 ≤ time := ht _ (List.mem_cons_self ..)
    have hfast : time / c ≤ time := div_le_self htime hc.le
    simp only [speedUp, List.map_cons, stallTime] at ih ⊢
    by_cases hstall : buffer < time
    · rw [if_pos hstall]
      by_cases hstall' : buffer' < time / c
      · rw [if_pos hstall']
        have := ih htail (le_refl duration)
        linarith
      · rw [if_neg hstall']
        have := ih htail (show duration ≤ buffer' - time / c + duration by linarith)
        linarith
    · rw [if_neg hstall, if_neg (by linarith)]
      exact ih htail (by linarith)

/-- Wherever the player waits, `P` holds and no chunk so far took any time. -/
def WaitsOnlyWhile (P : Prop) (buffer : K) (chunks : List (K × K)) : Prop :=
  ∀ k, StallsAt buffer chunks k → P ∧ ∀ chunk ∈ chunks.take (k + 1), chunk.1 = 0

theorem waitsOnlyWhile_cons {P : Prop} :
    WaitsOnlyWhile P buffer ((time, duration) :: chunks) ↔
      (buffer < time → P ∧ time = 0) ∧
        WaitsOnlyWhile (P ∧ time = 0)
          (if buffer < time then duration else buffer - time + duration) chunks := by
  constructor
  · intro h
    constructor
    · intro hstall
      obtain ⟨hP, hall⟩ := h 0 (stallsAt_zero.mpr hstall)
      exact ⟨hP, hall (time, duration) (by simp)⟩
    · intro k hk
      obtain ⟨hP, hall⟩ := h (k + 1) ((stallsAt_succ k).mpr hk)
      rw [List.take_succ_cons, List.forall_mem_cons] at hall
      exact ⟨⟨hP, hall.1⟩, hall.2⟩
  · rintro ⟨hfirst, hrest⟩ k hk
    cases k with
    | zero =>
      obtain ⟨hP, h0⟩ := hfirst (stallsAt_zero.mp hk)
      exact ⟨hP, by simpa using h0⟩
    | succ k =>
      obtain ⟨⟨hP, h0⟩, hall⟩ := hrest k ((stallsAt_succ k).mp hk)
      rw [List.take_succ_cons, List.forall_mem_cons]
      exact ⟨hP, h0, hall⟩

omit [IsStrictOrderedRing K] in
theorem waitsOnlyWhile_congr {P Q : Prop} (h : P ↔ Q) :
    WaitsOnlyWhile P buffer chunks ↔ WaitsOnlyWhile Q buffer chunks := by
  rw [propext h]

/-- A download that `c > 1` does not make faster takes no time. -/
theorem eq_zero_of_div_eq (hc : 1 < c) (h : time / c = time) : time = 0 := by
  rw [div_eq_iff (by linarith)] at h
  have hprod : time * (c - 1) = 0 := by linarith
  rcases mul_eq_zero.mp hprod with h0 | h0
  · exact h0
  · linarith

/-- The faster player waits as long exactly if, wherever the slower one waits, the two buffers
were the same at first and no chunk so far took any time. -/
theorem stallTime_speedUp_eq_iff (hc : 1 < c) (ht : ∀ chunk ∈ chunks, 0 ≤ chunk.1)
    (hb : buffer ≤ buffer') :
    stallTime buffer' (speedUp c chunks) = stallTime buffer chunks ↔
      WaitsOnlyWhile (buffer = buffer') buffer chunks := by
  induction chunks generalizing buffer buffer' with
  | nil =>
    refine ⟨fun _ k hk => ?_, fun _ => rfl⟩
    rw [StallsAt, List.take_nil, List.take_nil] at hk
    exact absurd hk (lt_irrefl _)
  | cons chunk chunks ih =>
    obtain ⟨time, duration⟩ := chunk
    have htail : ∀ chunk ∈ chunks, 0 ≤ chunk.1 := fun x hx => ht x (List.mem_cons_of_mem _ hx)
    have htime : 0 ≤ time := ht _ (List.mem_cons_self ..)
    have hfast : time / c ≤ time := div_le_self htime hc.le
    have hhead : speedUp c ((time, duration) :: chunks) =
        (time / c, duration) :: speedUp c chunks := rfl
    rw [hhead, waitsOnlyWhile_cons, stallTime, stallTime]
    by_cases hstall : buffer < time
    · simp only [hstall, ↓reduceIte, forall_const]
      by_cases hstall' : buffer' < time / c
      · rw [if_pos hstall']
        have hrest := ih htail (le_refl duration)
        have hle := stallTime_mono hc htail (le_refl duration)
        constructor
        · intro h
          -- both parts of the waiting time are equal
          have heq : time / c = time := by linarith
          have hsame : buffer = buffer' ∧ time = 0 := ⟨by linarith, eq_zero_of_div_eq hc heq⟩
          refine ⟨hsame, (waitsOnlyWhile_congr (iff_of_true hsame rfl)).mpr (hrest.mp ?_)⟩
          linarith
        · rintro ⟨hsame, h⟩
          have hrest' := hrest.mpr ((waitsOnlyWhile_congr (iff_of_true hsame rfl)).mp h)
          rw [hrest', hsame.1, hsame.2, zero_div]
      · rw [if_neg hstall']
        have hle := stallTime_mono hc htail
          (show duration ≤ buffer' - time / c + duration by linarith)
        constructor
        · intro h
          linarith
        · rintro ⟨⟨hsame, h0⟩, -⟩
          rw [h0, zero_div, ← hsame] at hstall'
          exact absurd (h0 ▸ hstall) hstall'
    · have hstall' : ¬buffer' < time / c := by linarith
      simp only [hstall, hstall', ↓reduceIte, false_implies, true_and]
      rw [ih htail (by linarith)]
      apply waitsOnlyWhile_congr
      constructor
      · intro h
        have heq : time / c = time := by linarith
        exact ⟨by linarith, eq_zero_of_div_eq hc heq⟩
      · rintro ⟨hsame, h0⟩
        rw [hsame, h0, zero_div]

end Lib
end LiveStream
