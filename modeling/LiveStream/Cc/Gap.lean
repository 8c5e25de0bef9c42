import LiveStream.Lib.Truncate

/-!
# BbrGap's target window

`BbrGap::GetTargetCongestionWindow` of `cc/gap.cc`. Three signals meet there: the bandwidth
estimate `b`, the target rate `tb` of the ABR algorithm and the PID estimate `s`. The header
asks for the window of `max(t, tp)`, where `t` is the mean of `tb` and `b` and `tp` the mean
of all three. The code takes `tp` only where `tb` is above both other signals, and elsewhere
the mean `p` of `s` and `b`, which knows nothing of the target.

Rates in kbps are integers and signals are exact rationals.

* `window_mono`, a faster rate has no smaller window;
* `potential_le_targetAdjusted` and `targetAdjusted_le_potential`, how the means compare;
* `getTargetCongestionWindow_eq_specWindow_iff`, when the code follows its header.
-/

namespace LiveStream
namespace Cc

open Lib

/-! ## Bandwidths -/

/-- `QuicBandwidth::FromKBitsPerSecond`, in bits per second; the constructor clamps at zero. -/
def fromKBitsPerSecond (kbits : ℤ) : ℕ := (1000 * kbits).toNat

/-- `QuicBandwidth::ToKBitsPerSecond`. -/
def toKBitsPerSecond (bitsPerSecond : ℕ) : ℕ := bitsPerSecond / 1000

/-- `QuicBandwidth::ToBytesPerPeriod`, which is the product of a bandwidth and a time. -/
def toBytesPerPeriod (bitsPerSecond micros : ℕ) : ℕ := bitsPerSecond * micros / 8 / 1000000

theorem toBytesPerPeriod_mono (micros : ℕ) : Monotone (toBytesPerPeriod · micros) := by
  intro x y hxy
  exact Nat.div_le_div_right (Nat.div_le_div_right (Nat.mul_le_mul_right micros hxy))

theorem fromKBitsPerSecond_mono : Monotone fromKBitsPerSecond := by
  intro x y hxy
  unfold fromKBitsPerSecond
  omega

/-! ## The sender -/

inductive Mode where
  | STARTUP
  | DRAIN
  | PROBE_BW
  | PROBE_RTT
deriving DecidableEq

/-- What `GetTargetCongestionWindow` reads, and the flag it sets. -/
structure BbrGap where
  mode : Mode
  /-- `min_rtt_` in microseconds, zero before the first sample. -/
  minRtt : ℕ
  /-- `initial_rtt()` of the connection's `RttStats`. -/
  initialRtt : ℕ
  /-- `BandwidthEstimate()` in bits per second. -/
  bandwidthEstimate : ℕ
  /-- `getTargetRate()` of the interface, in kbps. -/
  targetRate : Option ℤ
  /-- The value of the PID estimator, in kbps. -/
  bandwidthEstimator : Option ℚ
  estimatorTrace : List ℚ
  initialCongestionWindow : ℕ
  minCongestionWindow : ℕ
  /-- `recovery_` of the interface. -/
  recovery : Bool

namespace BbrGap

def bandwidthEstimatorWindowSize : ℕ := 6

def scaleFactor : ℚ := 1 / 2

def getMinRtt (g : BbrGap) : ℕ := if g.minRtt ≠ 0 then g.minRtt else g.initialRtt

/-- The bandwidth estimate in kbps, the `b` of the header. -/
def estimate (g : BbrGap) : ℤ := toKBitsPerSecond g.bandwidthEstimate

/-- The bytes in flight over one round trip at a rate in kbps. -/
def window (g : BbrGap) (kbits : ℤ) : ℕ := toBytesPerPeriod (fromKBitsPerSecond kbits) g.getMinRtt

/-- The target adjusted bandwidth `t`, in integer arithmetic. -/
def targetAdjusted (g : BbrGap) (target : ℤ) : ℤ := (g.estimate + target).tdiv 2

/-- The potential `p`. -/
def potential (g : BbrGap) (estimator : ℚ) : ℤ := truncate ((g.estimate + estimator) / 2)

/-- The target adjusted potential `tp`. -/
def targetAdjustedPotential (g : BbrGap) (target : ℤ) (estimator : ℚ) : ℤ :=
  truncate ((g.estimate + target + estimator) / 3)

/-! ### The estimator trace -/

/-- The extremes of the trace, with the positions where they were first met. -/
structure Extremes where
  min : ℚ
  max : ℚ
  minIdx : ℕ
  maxIdx : ℕ

def Extremes.visit (e : Extremes) (entry : ℚ × ℕ) : Extremes :=
  let e := if entry.1 < e.min then { e with min := entry.1, minIdx := entry.2 } else e
  if entry.1 > e.max then { e with max := entry.1, maxIdx := entry.2 } else e

/-- The loop over the last entries of the trace. -/
def extremes (g : BbrGap) : Extremes :=
  (g.estimatorTrace.zipIdx.drop (g.estimatorTrace.length - 1 - bandwidthEstimatorWindowSize)).foldl
    Extremes.visit ⟨2 ^ 30, -2 ^ 30, 0, 0⟩

/-- The estimator rose by more than a factor of ten within the window. -/
def tenfoldIncrease (g : BbrGap) : Bool :=
  g.extremes.max > 10 * g.extremes.min && g.extremes.minIdx < g.extremes.maxIdx

/-! ### The target window -/

/-- The bandwidth-delay product, of the target adjusted bandwidth where there is a target. -/
def bdp (g : BbrGap) : ℕ :=
  match g.targetRate with
  | none => toBytesPerPeriod g.bandwidthEstimate g.getMinRtt
  | some target => g.window (g.targetAdjusted target)

/-- The window without the PID estimate, before any maximum is taken. -/
def currentWindow (g : BbrGap) (gain : ℚ) : ℕ :=
  let current := if g.mode = .STARTUP then (truncate (g.bdp * gain)).toNat else g.bdp
  if current = 0 then
    if g.mode = .STARTUP then (truncate (gain * g.initialCongestionWindow)).toNat
    else g.initialCongestionWindow
  else current

/-- The rate of `potential_`: weighted towards the target where that is the highest signal. -/
def potentialRate (g : BbrGap) (target : ℤ) (estimator : ℚ) : ℤ :=
  if target > g.estimate ∧ target > estimator then g.targetAdjustedPotential target estimator
  else g.potential estimator

/-- The window, and the sender with its recovery flag set. -/
def getTargetCongestionWindow (g : BbrGap) (gain : ℚ) : ℕ × BbrGap :=
  let current := g.currentWindow gain
  if g.mode = .STARTUP then (max current g.minCongestionWindow, g)
  else
    let estimator := g.bandwidthEstimator.getD 0
    match g.targetRate with
    | none => (max current g.minCongestionWindow, g)
    | some target =>
      if estimator = 0 then (max current g.minCongestionWindow, g)
      else
        let potentialWindow := g.window (g.potentialRate target estimator)
        let scale := if g.tenfoldIncrease then scaleFactor else 1
        -- the maximum is taken in floating point and converted on return
        ((truncate (max (scale * (max current potentialWindow : ℕ)) g.minCongestionWindow)).toNat,
          { g with recovery := g.tenfoldIncrease })

/-- The window the header specifies: `RTT * max(t, tp)`, and not below the minimum. -/
def specWindow (g : BbrGap) (target : ℤ) (estimator : ℚ) : ℕ :=
  max g.minCongestionWindow
    (g.window (max (g.targetAdjusted target) (g.targetAdjustedPotential target estimator)))

variable (g : BbrGap)

theorem window_mono : Monotone g.window :=
  fun _ _ h => toBytesPerPeriod_mono g.getMinRtt (fromKBitsPerSecond_mono h)

theorem targetAdjusted_eq_truncate (target : ℤ) :
    g.targetAdjusted target = truncate ((g.estimate + target) / 2) := by
  have h := truncate_div_natCast (g.estimate + target) 2
  push_cast at h
  exact h.symm

/-- Up to the target, the PID estimate pulls the potential below the target adjusted rate. -/
theorem potential_le_targetAdjusted {target : ℤ} {estimator : ℚ} (h : estimator ≤ target) :
    g.potential estimator ≤ g.targetAdjusted target := by
  rw [targetAdjusted_eq_truncate]
  exact truncate_mono (by linarith)

/-- From the target on, it pulls the potential above. -/
theorem targetAdjusted_le_potential {target : ℤ} {estimator : ℚ} (h : target ≤ estimator) :
    g.targetAdjusted target ≤ g.potential estimator := by
  rw [targetAdjusted_eq_truncate]
  exact truncate_mono (by linarith)

/-- Where the PID estimate is the lowest signal, the mean of all three adds nothing. -/
theorem targetAdjustedPotential_le {target : ℤ} {estimator : ℚ} (hestimator : estimator ≤ target)
    (htarget : target ≤ g.estimate) :
    g.targetAdjustedPotential target estimator ≤ g.targetAdjusted target := by
  have hb : (target : ℚ) ≤ g.estimate := by exact_mod_cast htarget
  rw [targetAdjusted_eq_truncate]
  exact truncate_mono (by linarith)

/-- The value the code returns once all signals are there. -/
theorem getTargetCongestionWindow_eq {gain : ℚ} {target : ℤ} {estimator : ℚ}
    (hmode : g.mode ≠ .STARTUP) (htarget : g.targetRate = some target)
    (hestimator : g.bandwidthEstimator = some estimator) (hne : estimator ≠ 0)
    (htrace : g.tenfoldIncrease = false) :
    (g.getTargetCongestionWindow gain).1
      = max (max (g.currentWindow gain) (g.window (g.potentialRate target estimator)))
          g.minCongestionWindow := by
  unfold getTargetCongestionWindow
  simp only [hmode, if_false, htarget, hestimator, Option.getD_some, hne, htrace,
    Bool.false_eq_true, one_mul]
  rw [← Nat.cast_max]
  exact congrArg Int.toNat (truncate_intCast (Nat.cast _))

theorem currentWindow_eq {gain : ℚ} {target : ℤ} (hmode : g.mode ≠ .STARTUP)
    (htarget : g.targetRate = some target) :
    g.currentWindow gain = if g.window (g.targetAdjusted target) = 0 then g.initialCongestionWindow
      else g.window (g.targetAdjusted target) := by
  unfold currentWindow bdp
  simp only [hmode, if_false, htarget]

/-- The initial window does not show, should the window of `t` round to zero. -/
def FallbackHidden (target : ℤ) (estimator : ℚ) : Prop :=
  g.window (g.targetAdjusted target) = 0 → g.initialCongestionWindow ≤ g.specWindow target estimator

/-- The mean `p` of `s` and `b` has the window of the specified rate, or both are below the
minimum. (Where the window of `t` rounds to zero, the initial window can stand in.) -/
def PotentialSuffices (target : ℤ) (estimator : ℚ) : Prop :=
  g.window (g.potential estimator) ≤ g.specWindow target estimator ∧
    (g.specWindow target estimator
        ≤ max g.minCongestionWindow (g.window (g.potential estimator))
      ∨ g.window (g.targetAdjusted target) = 0
        ∧ g.specWindow target estimator ≤ g.initialCongestionWindow)

/-- The code follows its header exactly where the target is strictly above both other signals,
or between the PID estimate and the bandwidth estimate, or the mean that ignores the target
has the same window all the same. -/
theorem getTargetCongestionWindow_eq_specWindow_iff (gain : ℚ) (target : ℤ) (estimator : ℚ)
    (hmode : g.mode ≠ .STARTUP) (htarget : g.targetRate = some target)
    (hestimator : g.bandwidthEstimator = some estimator) (hne : estimator ≠ 0)
    (htrace : g.tenfoldIncrease = false) :
    (g.getTargetCongestionWindow gain).1 = g.specWindow target estimator
      ↔ g.FallbackHidden target estimator ∧
        ((g.estimate < target ∧ estimator < target)
          ∨ (estimator ≤ target ∧ target ≤ g.estimate)
          ∨ g.PotentialSuffices target estimator) := by
  have hspec : g.specWindow target estimator = max g.minCongestionWindow
      (max (g.window (g.targetAdjusted target))
        (g.window (g.targetAdjustedPotential target estimator))) := by
    rw [specWindow, g.window_mono.map_max]
  rw [g.getTargetCongestionWindow_eq hmode htarget hestimator hne htrace,
    g.currentWindow_eq hmode htarget]
  unfold FallbackHidden PotentialSuffices potentialRate
  by_cases habove : g.estimate < target ∧ estimator < target
  · -- the target is the highest signal, and the code takes the mean of all three
    rw [if_pos habove, hspec]
    simp only [habove, and_self, true_or, and_true]
    split <;> omega
  · rw [if_neg habove]
    by_cases hbetween : estimator ≤ target ∧ target ≤ g.estimate
    · -- t is the highest of the three means
      have hp := g.window_mono (g.potential_le_targetAdjusted hbetween.1)
      have htp := g.window_mono (g.targetAdjustedPotential_le hbetween.1 hbetween.2)
      rw [hspec]
      simp only [hbetween, and_self, true_or, or_true, and_true]
      split <;> omega
    · -- neither: the PID estimate is not below the target
      have hle : (target : ℚ) ≤ estimator := by
        by_contra hlt
        rcases lt_or_ge g.estimate target with h | h
        · exact habove ⟨h, not_le.mp hlt⟩
        · exact hbetween ⟨(not_le.mp hlt).le, h⟩
      have hp := g.window_mono (g.targetAdjusted_le_potential hle)
      rw [hspec]
      simp only [habove, hbetween, false_or]
      split <;> omega

/-- A sender that cruises with an estimate of 1000 kbps over 80 ms. -/
def cruising (target : ℤ) (estimator : ℚ) : BbrGap where
  mode := .PROBE_BW
  minRtt := 80000
  initialRtt := 100000
  bandwidthEstimate := 1000000
  targetRate := some target
  bandwidthEstimator := some estimator
  estimatorTrace := [10000, 10000]
  initialCongestionWindow := 46720
  minCongestionWindow := 5840
  recovery := false

/-- With a target of 4000 kbps and a PID estimate of 1600 kbps the window is that of 2500 kbps. -/
theorem getTargetCongestionWindow_cruising :
    ((cruising 4000 1600).getTargetCongestionWindow 2).1 = (cruising 4000 1600).specWindow 4000 1600
      ∧ (cruising 4000 1600).specWindow 4000 1600 = 25000 :=
  ⟨((cruising 4000 1600).getTargetCongestionWindow_eq_specWindow_iff 2 4000 1600 (by decide) rfl rfl
    (by decide +kernel) (by decide +kernel)).mpr
      ⟨fun h => absurd h (by decide +kernel), .inl (by decide +kernel)⟩, by decide +kernel⟩

/-- With the target at the estimate and a PID estimate of 4000 kbps the code takes the window of
2500 kbps, and not that of 2000 kbps. With target and PID estimate equal it is the other way
round: the window of 2500 kbps, and not that of 3000 kbps. -/
theorem getTargetCongestionWindow_ignores_target :
    ((cruising 1000 4000).getTargetCongestionWindow 2).1 = 25000
      ∧ (cruising 1000 4000).specWindow 1000 4000 = 20000
      ∧ ((cruising 4000 4000).getTargetCongestionWindow 2).1 = 25000
      ∧ (cruising 4000 4000).specWindow 4000 4000 = 30000
      ∧ (cruising 1000 4000).tenfoldIncrease = false
      ∧ (cruising 1000 4000).targetAdjusted 1000 ≠ 0 := by
  decide +kernel

end BbrGap
end Cc
end LiveStream
