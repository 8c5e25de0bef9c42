import LiveStream.Target.Bandwidth

/-!
# The bandwidth target is the least admissible one

`TargetAbr2::decideQuality` looks for the lowest rate that still gives 95% of the QoE planned
for the upper end of its range. It goes down from there in steps of 100 kbps and stops at the
first rate that fails the test.

* `lowerTarget_spec`, what the loop has tried when it stops, for any function in place of the
  planned QoE;
* `lowerTarget_isLeast` and `lowerTarget_of_neg`, where it stops if that function grows;
* `target_isLeast`, the same for the planner in every reachable state.
-/

namespace LiveStream
namespace Target
namespace TargetAbr

open Lib TargetAbrConstants

/-! ## The loop -/

/-- The rates the loop can stop at: the upper end, and the rates below it in steps of 100 kbps
that are not below the lower end. -/
def grid (minBw maxBw : ℤ) : Set ℤ :=
  {g | g = maxBw ∨ ∃ k : ℕ, 1 ≤ k ∧ g = maxBw - 100 * k ∧ minBw ≤ g}

/-- The rate passes the test of the loop. -/
def Passes (f : ℚ → ℤ) (qoeMaxBw g : ℤ) : Prop := qoePercentile * qoeMaxBw ≤ f g

/-- The loop stops `k` steps down: the rates on the way pass the test, and the next one is
below the range or fails it. -/
theorem lowerTarget_spec (f : ℚ → ℤ) (minBw qoeMaxBw target : ℤ) :
    ∃ k : ℕ, lowerTarget f minBw qoeMaxBw target = target - 100 * k ∧
      (∀ j : ℕ, 1 ≤ j → j ≤ k →
        minBw ≤ target - 100 * j ∧ Passes f qoeMaxBw (target - 100 * j)) ∧
      ¬(minBw ≤ target - 100 * (k + 1) ∧ Passes f qoeMaxBw (target - 100 * (k + 1))) := by
  induction target using lowerTarget.induct f minBw qoeMaxBw with
  | case1 target htest ih =>
    obtain ⟨k, hstop, hpassed, hnext⟩ := ih
    have hstep : target - TargetAbrConstants.step = target - 100 := rfl
    rw [hstep] at htest hstop hpassed hnext
    refine ⟨k + 1, ?_, fun j h1 hj => ?_, ?_⟩
    · rw [lowerTarget, if_pos (by rw [hstep]; exact htest), hstep, hstop]
      push_cast
      ring
    · -- the first step down is the one just tested
      obtain rfl | hlater : j = 1 ∨ 1 ≤ j - 1 := by omega
      · exact ⟨by simpa using htest.1, by simpa [Passes] using htest.2⟩
      · have hj' := hpassed (j - 1) hlater (by omega)
        have hsame : target - 100 - 100 * ((j - 1 : ℕ) : ℤ) = target - 100 * j := by
          push_cast [Nat.cast_sub h1]
          ring
        rwa [hsame] at hj'
    · have hsame : target - 100 - 100 * ((k : ℤ) + 1) = target - 100 * (((k + 1 : ℕ) : ℤ) + 1) := by
        push_cast
        ring
      rwa [hsame] at hnext
  | case2 target htest =>
    refine ⟨0, ?_, fun j h1 hj => absurd hj (by omega), ?_⟩
    · rw [lowerTarget, if_neg htest]
      simp
    · simpa [Passes, TargetAbrConstants.step] using htest

section

variable {f : ℚ → ℤ} {minBw maxBw : ℤ}

/-- If more is never worse, the loop stops at the least rate that passes the test. -/
theorem lowerTarget_isLeast (hmono : ∀ g g' : ℤ, minBw ≤ g → g ≤ g' → g' ≤ maxBw → f g ≤ f g')
    (hmax : 0 ≤ f maxBw) :
    IsLeast {g | g ∈ grid minBw maxBw ∧ Passes f (f maxBw) g}
      (lowerTarget f minBw (f maxBw) maxBw) := by
  obtain ⟨k, hstop, hpassed, hnext⟩ := lowerTarget_spec f minBw (f maxBw) maxBw
  have htop : Passes f (f maxBw) maxBw := by
    have hnonneg : (0 : ℚ) ≤ f maxBw := by exact_mod_cast hmax
    unfold Passes qoePercentile
    linarith
  rw [hstop]
  constructor
  · cases k with
    | zero => exact ⟨Or.inl (by simp), by simpa using htop⟩
    | succ k =>
      obtain ⟨hmin, hpass⟩ := hpassed (k + 1) (by omega) le_rfl
      exact ⟨Or.inr ⟨k + 1, by omega, rfl, hmin⟩, hpass⟩
  · rintro g ⟨hg, hpass⟩
    rcases hg with rfl | ⟨j, hj, rfl, hmin⟩
    · omega
    · by_contra hlt
      -- a rate below the one where the loop stopped would let the next one pass
      have hjk : k + 1 ≤ j := by omega
      have hmin' : minBw ≤ maxBw - 100 * ((k : ℤ) + 1) := by omega
      have hle : f (maxBw - 100 * j : ℤ) ≤ f (maxBw - 100 * ((k : ℤ) + 1) : ℤ) :=
        hmono _ _ hmin (by omega) (by omega)
      have hcast : (f (maxBw - 100 * j : ℤ) : ℚ) ≤ f (maxBw - 100 * ((k : ℤ) + 1) : ℤ) := by
        exact_mod_cast hle
      exact hnext ⟨hmin', hpass.trans hcast⟩

/-- If the QoE at the upper end is negative, 95% of it is above it, and nothing passes. -/
theorem lowerTarget_of_neg (hmono : ∀ g g' : ℤ, minBw ≤ g → g ≤ g' → g' ≤ maxBw → f g ≤ f g')
    (hmax : f maxBw < 0) : lowerTarget f minBw (f maxBw) maxBw = maxBw := by
  rw [lowerTarget, if_neg]
  rintro ⟨hmin, hpass⟩
  have hstep : maxBw - TargetAbrConstants.step ≤ maxBw := by
    unfold TargetAbrConstants.step
    omega
  have hle := hmono _ _ hmin hstep le_rfl
  have hcast : (f ((maxBw - TargetAbrConstants.step : ℤ) : ℚ) : ℚ) ≤ f maxBw := by
    exact_mod_cast hle
  have hneg : (f maxBw : ℚ) < 0 := by exact_mod_cast hmax
  unfold qoePercentile at hpass
  linarith

end

/-! ## The search of `decideQuality` -/

/-- The estimate the range is computed from. -/
def usedEstimator (e : Estimates) : ℤ := if e.estimator < 0 then e.bandwidth else e.estimator

def minBw (e : Estimates) : ℤ := truncate (min (usedEstimator e) e.bandwidth * (1 - qoeDelta))

def maxBw (e : Estimates) : ℤ := truncate (usedEstimator e * (1 + qoeDelta))

theorem decideQuality_target (s : TargetAbr) (c : Scenario) (e : Estimates) {index : ℤ}
    (h2 : 2 ≤ index) (hle : index ≤ (c.video.track 0).length) :
    (s.decideQuality c e index).1 =
      lowerTarget (s.qoeFirst c e) (minBw e) (s.qoeFirst c e (maxBw e)) (maxBw e) := by
  rw [decideQuality, if_neg (by omega)]
  rfl

theorem minBw_le_maxBw {e : Estimates} (h : 0 < minBw e) : minBw e ≤ maxBw e := by
  have hpos : (0 : ℚ) < min (usedEstimator e) e.bandwidth * (1 - qoeDelta) := by
    by_contra hle
    have htrunc : minBw e ≤ 0 := truncate_le (by exact_mod_cast not_lt.mp hle)
    omega
  have hmin : ((min (usedEstimator e) e.bandwidth : ℤ) : ℚ) ≤ usedEstimator e := by
    exact_mod_cast min_le_left _ _
  apply truncate_mono
  unfold qoeDelta at hpos ⊢
  linarith

theorem pos_of_mem_grid {e : Estimates} (h : 0 < minBw e) {g : ℤ}
    (hg : g ∈ grid (minBw e) (maxBw e)) : 0 < g := by
  have hle := minBw_le_maxBw h
  rcases hg with rfl | ⟨k, -, -, hmin⟩ <;> omega

/-- What the search compares grows with the rate. -/
theorem qoeFirst_mono {c : Scenario} {s : TargetAbr} (hp : (s.planner c).WellPosed)
    (hlocal : c.localQoe = TargetAbr2.localQoe) (e : Estimates) {g g' : ℤ} (hg : 0 < g)
    (hle : g ≤ g') : s.qoeFirst c e g ≤ s.qoeFirst c e g' := by
  have hg : (0 : ℚ) < g := by exact_mod_cast hg
  have hle : (g : ℚ) ≤ g' := by exact_mod_cast hle
  obtain ⟨r, r', hr, hr', hrr'⟩ := Planner.qoeLe_of_le hp hlocal hg hle (e.order g) (e.order g')
  simp only [qoeFirst, hr, hr', Option.map_some, Option.getD_some]
  exact hrr'

/-- **The bandwidth target.** Every call of the planner in the search returns. If the QoE at the
upper end is not negative, the target is the least rate of the grid with 95% of it; otherwise
it is the upper end. -/
theorem target_isLeast (c : Setting) (hlocal : c.localQoe = TargetAbr2.localQoe)
    (bandwidthTarget : ℤ) (es : List Event)
    (hdecided : 2 ≤ (after c bandwidthTarget es).base.decisionIndex) (e : Estimates) (index : ℤ)
    (h2 : 2 ≤ index) (hle : index ≤ c.video.length) (hmin : 0 < minBw e) :
    let s := after c bandwidthTarget es
    let qoe : ℤ → ℤ := fun g => s.qoeFirst c e g
    (∀ g ∈ grid (minBw e) (maxBw e), ((s.planner c).qoe g (e.order g)).isSome) ∧
    (0 ≤ qoe (maxBw e) →
      IsLeast {g | g ∈ grid (minBw e) (maxBw e) ∧ 95 / 100 * (qoe (maxBw e) : ℚ) ≤ qoe g}
        (s.decideQuality c e index).1) ∧
    (qoe (maxBw e) < 0 → (s.decideQuality c e index).1 = maxBw e) := by
  intro s qoe
  have hp : (s.planner c).WellPosed :=
    ⟨(inv_after c bandwidthTarget es).placed hdecided, c.video.ordered⟩
  have hmono : ∀ g g' : ℤ, minBw e ≤ g → g ≤ g' → g' ≤ maxBw e →
      s.qoeFirst c e g ≤ s.qoeFirst c e g' :=
    fun g g' hg hgg' _ => qoeFirst_mono hp hlocal e (by omega) hgg'
  have htarget : (s.decideQuality c e index).1 =
      lowerTarget (s.qoeFirst c e) (minBw e) (s.qoeFirst c e (maxBw e)) (maxBw e) := by
    apply decideQuality_target s c e h2
    show index ≤ (c.video.track 0).length
    rw [Planner.length_track_zero]
    exact hle
  refine ⟨fun g hg => ?_, fun hnonneg => ?_, fun hneg => ?_⟩
  · have hpos : (0 : ℚ) < g := by exact_mod_cast pos_of_mem_grid hmin hg
    obtain ⟨r, -, hr, -⟩ :=
      Planner.qoeLe_of_le hp hlocal hpos le_rfl (e.order g) (e.order g)
    rw [hr]
    rfl
  · have hleast := lowerTarget_isLeast hmono hnonneg
    simp only [Passes, qoePercentile] at hleast
    rw [htarget]
    exact hleast
  · rw [htarget]
    exact lowerTarget_of_neg hmono hneg

/-- After one decision of `TargetAbr2` on the short video: the rates tried are those from 1150
kbps down to 850 kbps. -/
theorem target_isLeast_shortVideo :
    let c : Setting := ⟨Planner.shortVideo, TargetAbr2.localQoe⟩
    let e : Estimates := ⟨1000, 1000, fun _ => .insertion⟩
    let s := after c 1000 [.decide e]
    2 ≤ s.base.decisionIndex ∧ minBw e = 850 ∧ maxBw e = 1150 ∧
      (0 ≤ s.qoeFirst c e (maxBw e) →
        IsLeast {g : ℤ | g ∈ grid (minBw e) (maxBw e) ∧
          95 / 100 * (s.qoeFirst c e (maxBw e) : ℚ) ≤ s.qoeFirst c e g}
          (s.decideQuality c e 2).1) ∧
      (s.qoeFirst c e (maxBw e) < 0 → (s.decideQuality c e 2).1 = maxBw e) := by
  intro c e s
  have hdecided : 2 ≤ s.base.decisionIndex := le_refl 2
  have hmin : minBw e = 850 := by
    show truncate (min 1000 1000 * (1 - qoeDelta)) = 850
    norm_num [qoeDelta, truncate]
  have hmax : maxBw e = 1150 := by
    show truncate (1000 * (1 + qoeDelta)) = 1150
    norm_num [qoeDelta, truncate]
  have htarget := target_isLeast c rfl 1000 _ hdecided e 2 le_rfl (by decide) (by omega)
  exact ⟨hdecided, hmin, hmax, htarget.2⟩

end TargetAbr
end Target
end LiveStream
