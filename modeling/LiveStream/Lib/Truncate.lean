import Mathlib

/-!
# Truncation toward zero

`truncate` is the conversion of a floating-point number to an integer type. It is monotone,
fixes the integers, and its comparisons with integers can be undone.
-/

namespace LiveStream
namespace Lib

/-- Truncation toward zero, the conversion of a floating-point number to an `int`. -/
def truncate (x : ℚ) : ℤ := if 0 ≤ x then ⌊x⌋ else ⌈x⌉

@[simp] theorem truncate_intCast (n : ℤ) : truncate n = n := by
  unfold truncate
  split <;> simp

theorem truncate_mono : Monotone truncate := by
  intro x y hxy
  unfold truncate
  by_cases hx : 0 ≤ x
  · rw [if_pos hx, if_pos (hx.trans hxy)]
    exact Int.floor_mono hxy
  · rw [if_neg hx]
    by_cases hy : 0 ≤ y
    · rw [if_pos hy]
      have hceil : ⌈x⌉ ≤ 0 := Int.ceil_le.mpr (by exact_mod_cast (not_le.mp hx).le)
      exact hceil.trans (Int.floor_nonneg.mpr hy)
    · rw [if_neg hy]
      exact Int.ceil_mono hxy

theorem truncate_le {x : ℚ} {n : ℤ} (h : x ≤ n) : truncate x ≤ n :=
  (truncate_mono h).trans (truncate_intCast n).le

theorem le_truncate {x : ℚ} {n : ℤ} (h : n ≤ x) : n ≤ truncate x :=
  (truncate_intCast n).ge.trans (truncate_mono h)

theorem truncate_nonneg {x : ℚ} (h : 0 ≤ x) : 0 ≤ truncate x := le_truncate (by exact_mod_cast h)

/-- What is above -1 is truncated to a natural number. -/
theorem zero_le_truncate_iff {x : ℚ} : 0 ≤ truncate x ↔ -1 < x := by
  unfold truncate
  split
  · next h =>
    have hfloor : 0 ≤ ⌊x⌋ := Int.floor_nonneg.mpr h
    constructor
    · intro _
      linarith
    · exact fun _ => hfloor
  · rw [← Int.sub_one_lt_iff, Int.lt_ceil]
    norm_num

theorem truncate_le_natCast_iff {x : ℚ} {n : ℕ} : truncate x ≤ n ↔ x < n + 1 := by
  unfold truncate
  split
  · rw [← Int.lt_add_one_iff, Int.floor_lt]
    push_cast
    rfl
  · next h =>
    have hn : (0 : ℚ) ≤ n := Nat.cast_nonneg n
    have hceil : ⌈x⌉ ≤ 0 := Int.ceil_le.mpr (by exact_mod_cast (not_le.mp h).le)
    constructor
    · intro _
      linarith
    · intro _
      omega

/-- The integer division of C truncates the exact quotient. -/
theorem truncate_div_natCast (x : ℤ) (n : ℕ) : truncate ((x : ℚ) / n) = x.tdiv n := by
  have hn : (0 : ℚ) ≤ n := Nat.cast_nonneg n
  unfold truncate
  rcases le_or_gt 0 x with hx | hx
  · rw [if_pos (div_nonneg (by exact_mod_cast hx) hn), Rat.floor_intCast_div_natCast,
      Int.tdiv_eq_ediv_of_nonneg hx]
  · obtain ⟨y, rfl⟩ : ∃ y : ℤ, x = -y := ⟨-x, by ring⟩
    have hy : 0 ≤ y := by omega
    rw [Int.neg_tdiv, Int.tdiv_eq_ediv_of_nonneg hy, Int.cast_neg, neg_div]
    split
    · next h =>
      -- a negative number over n is not negative only for n = 0
      rcases Nat.eq_zero_or_pos n with rfl | hpos
      · simp
      · have hypos : (0 : ℚ) < y := by exact_mod_cast (by omega : 0 < y)
        have := div_pos hypos (Nat.cast_pos.mpr hpos)
        linarith
    · rw [Int.ceil_neg, Rat.floor_intCast_div_natCast]

end Lib
end LiveStream
