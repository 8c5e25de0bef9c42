import Mathlib

/-!
# Sliding windows

The last `n` entries of a growing sequence, `List.rtake`: a new entry pushes out the oldest one
once there are `n`.

* `rtake_of_not_full` and `tail_rtake_of_full`, what is left when the oldest entry has gone.
-/

namespace LiveStream
namespace Lib

variable {α : Type*}

theorem length_rtake_le (xs : List α) (n : ℕ) : (xs.rtake n).length ≤ n := by
  rw [List.rtake, List.length_drop]
  omega

theorem length_rtake_pos {xs : List α} {n : ℕ} (hn : 1 ≤ n) (hne : xs ≠ []) :
    0 < (xs.rtake n).length := by
  have hlen := List.length_pos_iff.mpr hne
  rw [List.rtake, List.length_drop]
  omega

theorem rtake_of_not_full {xs : List α} {n : ℕ} (h : (xs.rtake (n + 1)).length ≠ n + 1) :
    xs.rtake (n + 1) = xs.rtake n := by
  rw [List.rtake, List.length_drop] at h
  rw [List.rtake, List.rtake]
  congr 1
  omega

theorem tail_rtake_of_full {xs : List α} {n : ℕ} (h : (xs.rtake (n + 1)).length = n + 1) :
    (xs.rtake (n + 1)).tail = xs.rtake n := by
  rw [List.rtake, List.length_drop] at h
  rw [List.rtake, List.rtake, List.tail_drop]
  congr 1
  omega

theorem mem_rtake_of_le {l : List α} {k m : ℕ} (h : k ≤ m) {a : α}
    (ha : a ∈ l.rtake k) : a ∈ l.rtake m := by
  rw [List.rtake] at ha ⊢
  exact (List.drop_sublist_drop_left l (by omega)).mem ha

end Lib
end LiveStream
