import Mathlib

/-!
# Least squares of points on a line

The slope of a regression line through a list of points is the quotient of two sums of products
of deviations from the means. For points whose coordinates are both affine in one parameter the
sums are multiples of the spread of the parameter.

* `deviations_affine`, that multiple;
* `spread_pos`, the spread of two or more parameters.
-/

namespace LiveStream
namespace Lib

section Field

variable {ι K : Type*} [Field K]

def mean (l : List K) : K := l.sum / l.length

/-- The sum of the products of the deviations of two quantities from their means. -/
def deviations (f g : ι → K) (l : List ι) : K :=
  (l.map fun i => (f i - mean (l.map f)) * (g i - mean (l.map g))).sum

theorem mean_affine [CharZero K] {l : List ι} (hne : l ≠ []) (a b : K) (f : ι → K) :
    mean (l.map fun i => a + b * f i) = a + b * mean (l.map f) := by
  have hlen : (l.length : K) ≠ 0 := by
    have := List.length_pos_iff.mpr hne
    exact_mod_cast (by omega : l.length ≠ 0)
  have hconst : (l.map fun _ => a).sum = l.length * a := by
    rw [List.map_const', List.sum_replicate, nsmul_eq_mul]
  unfold mean
  rw [List.sum_map_add, List.sum_map_mul_left, hconst, List.length_map, List.length_map]
  field_simp

/-- Both quantities affine in a third one. -/
theorem deviations_affine [CharZero K] {l : List ι} (hne : l ≠ []) (a b c d : K) (f : ι → K) :
    deviations (fun i => a + b * f i) (fun i => c + d * f i) l = b * d * deviations f f l := by
  unfold deviations
  rw [mean_affine hne, mean_affine hne, ← List.sum_map_mul_left]
  congr 1
  apply List.map_congr_left
  intro i _
  ring

end Field

section Ordered

variable {ι K : Type*} [Field K] [LinearOrder K] [IsStrictOrderedRing K]

theorem spread_pos {f : ι → K} {l : List ι} {i j : ι} (hi : i ∈ l) (hj : j ∈ l)
    (hne : f i ≠ f j) : 0 < deviations f f l := by
  have hsquares : ∀ x ∈ l.map fun i => (f i - mean (l.map f)) * (f i - mean (l.map f)), 0 ≤ x := by
    intro x hx
    obtain ⟨k, -, rfl⟩ := List.mem_map.mp hx
    exact mul_self_nonneg _
  have hle : ∀ k ∈ l, (f k - mean (l.map f)) * (f k - mean (l.map f)) ≤ deviations f f l := by
    intro k hk
    exact List.single_le_sum hsquares _ (List.mem_map_of_mem hk)
  -- one of two different values is not the mean
  by_cases hmean : f i = mean (l.map f)
  · have hdev : f j - mean (l.map f) ≠ 0 := by
      rw [← hmean]
      exact sub_ne_zero.mpr hne.symm
    exact lt_of_lt_of_le (mul_self_pos.mpr hdev) (hle j hj)
  · exact lt_of_lt_of_le (mul_self_pos.mpr (sub_ne_zero.mpr hmean)) (hle i hi)

end Ordered

end Lib
end LiveStream
