import Mathlib

/-!
# The search from the top

The loop `for i = n - 1 downto 0: found = i; if within i: break`. It ends at the greatest index
within, or at 0 if there is none; with nothing to look at it leaves `found` as it was.
-/

namespace LiveStream
namespace Lib

/-- The loop, with the entries below `n` left to look at. -/
def scanDown (within : ℕ → Bool) (found : ℕ) : ℕ → ℕ
  | 0 => found
  | i + 1 => if within i then i else scanDown within i i

variable {within within' : ℕ → Bool} {found n : ℕ}

/-- With anything to look at, the loop is Mathlib's `Nat.findGreatest`. -/
theorem scanDown_succ (within : ℕ → Bool) (found n : ℕ) :
    scanDown within found (n + 1) = Nat.findGreatest (fun i => within i = true) n := by
  induction n generalizing found with
  | zero =>
    rw [scanDown, Nat.findGreatest_zero]
    split <;> rfl
  | succ n ih =>
    rw [scanDown, Nat.findGreatest_succ]
    split
    · rfl
    · exact ih (n + 1)

theorem scanDown_of_pos (hn : 0 < n) :
    scanDown within found n = Nat.findGreatest (fun i => within i = true) (n - 1) := by
  obtain ⟨m, rfl⟩ := Nat.exists_eq_succ_of_ne_zero hn.ne'
  exact scanDown_succ within found m

theorem scanDown_lt (hn : 0 < n) : scanDown within found n < n := by
  have hle := Nat.findGreatest_le (P := fun i => within i = true) (n - 1)
  rw [scanDown_of_pos hn]
  omega

/-- If the lowest entry is within, the loop finds the greatest one that is. -/
theorem isGreatest_scanDown (hn : 0 < n) (hzero : within 0 = true) :
    IsGreatest {i | i < n ∧ within i = true} (scanDown within found n) := by
  refine ⟨⟨scanDown_lt hn, ?_⟩, ?_⟩
  · rw [scanDown_of_pos hn]
    exact Nat.findGreatest_spec (P := fun i => within i = true) (Nat.zero_le _) hzero
  · intro i hi
    have hle : i ≤ n - 1 := Nat.le_sub_one_of_lt hi.1
    rw [scanDown_of_pos hn]
    exact Nat.le_findGreatest hle hi.2

/-- More entries within, a higher result. -/
theorem scanDown_mono (h : ∀ i, within i = true → within' i = true) :
    scanDown within found n ≤ scanDown within' found n := by
  cases n with
  | zero => exact le_rfl
  | succ n =>
    rw [scanDown_succ, scanDown_succ]
    exact Nat.findGreatest_mono_left h n

end Lib
end LiveStream
