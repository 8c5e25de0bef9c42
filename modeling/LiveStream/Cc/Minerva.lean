import LiveStream.Lib.Truncate

/-!
# Minerva's reaction to a loss

`MinervaBytes` and `TcpMinervaSenderBytes` of `cc/minerva.cc`, with the weight that
`MinervaAbr::onWeightUpdate` hands them. A loss multiplies the window by a backoff factor,
which the weight `w` turns from `β` into `(w - θ) / (w + θ)` with `θ = (1 - β) / (1 + β)`.
That factor is between 0 and 1 only for `w ≥ θ`: below it is negative, and for `w < -θ` it
is above 1.

Floats are exact rationals, windows are unsigned 64-bit words.

* `toInt_mem_iff` and `ofInt_le_iff`, the two conversions the new window goes through;
* `weightAdjustedBeta_some`, the factor in terms of `θ`;
* `onPacketLost_within_limits_iff`, when a loss keeps the window within its limits.
-/

namespace LiveStream
namespace Cc

open Lib

/-! ## Conversions -/

/-- `static_cast<int>` of a floating-point number, where `none` is one that is not finite.
The standard leaves open what becomes of a number outside the range of `int`; here it is
the value x86 conversions return. -/
def toInt : Option ℚ → ℤ
  | none => -2 ^ 31
  | some x => if -2 ^ 31 ≤ truncate x ∧ truncate x < 2 ^ 31 then truncate x else -2 ^ 31

theorem toInt_mem_range (x : Option ℚ) : -2 ^ 31 ≤ toInt x ∧ toInt x < 2 ^ 31 := by
  unfold toInt
  split
  · norm_num
  · split
    · assumption
    · norm_num

theorem toInt_mem_iff {x : ℚ} {n : ℕ} (hn : n < 2 ^ 31) :
    (0 ≤ toInt (some x) ∧ toInt (some x) ≤ n) ↔ -1 < x ∧ x < n + 1 := by
  rw [← zero_le_truncate_iff, ← truncate_le_natCast_iff]
  unfold toInt
  dsimp only
  split <;> omega

/-- An `int` converted to a window is small exactly when it was not negative. -/
theorem ofInt_le_iff {k : ℤ} {n : ℕ} (hrange : -2 ^ 31 ≤ k ∧ k < 2 ^ 31) (hn : n < 2 ^ 31) :
    (UInt64.ofInt k).toNat ≤ n ↔ 0 ≤ k ∧ k ≤ n := by
  have hword : (UInt64.ofInt k).toNat = (k % 2 ^ 64).toNat := by
    unfold UInt64.ofInt
    rw [UInt64.toNat_ofNat']
    omega
  rw [hword]
  omega

/-! ## The backoff factor -/

def kDefaultTCPMSS : UInt64 := 1460

def kDefaultCubicBackoffFactor : ℚ := 7 / 10

def kBetaLastMax : ℚ := 85 / 100

structure MinervaBytes where
  numConnections : ℕ
  /-- `SetNumEmulatedConnections` takes the maximum with 1. -/
  numConnections_pos : 0 < numConnections
  lastMaxCongestionWindow : UInt64
  /-- The start of the current epoch in microseconds, 0 when there is none. -/
  epoch : ℕ

namespace MinervaBytes

/-- `WeightAdjustedBeta`. A quotient by zero is not finite. -/
def weightAdjustedBeta (linkWeight : Option ℚ) (beta : ℚ) : Option ℚ :=
  match linkWeight with
  | none => some beta
  | some weight =>
    if beta * (weight - 1) + weight + 1 = 0 then none
    else some ((beta * (weight + 1) + weight - 1) / (beta * (weight - 1) + weight + 1))

/-- The backoff of `numConnections` connections of which one sees the loss. -/
def ensembleBeta (m : MinervaBytes) (factor : ℚ) : ℚ :=
  (m.numConnections - 1 + factor) / m.numConnections

def beta (m : MinervaBytes) (linkWeight : Option ℚ) : Option ℚ :=
  weightAdjustedBeta linkWeight (m.ensembleBeta kDefaultCubicBackoffFactor)

def betaLastMax (m : MinervaBytes) (linkWeight : Option ℚ) : Option ℚ :=
  weightAdjustedBeta linkWeight (m.ensembleBeta kBetaLastMax)

def congestionWindowAfterPacketLoss (m : MinervaBytes) (linkWeight : Option ℚ)
    (currentCongestionWindow : UInt64) : MinervaBytes × UInt64 :=
  let lastMax :=
    if currentCongestionWindow + kDefaultTCPMSS < m.lastMaxCongestionWindow then
      UInt64.ofInt (toInt ((m.betaLastMax linkWeight).map (· * currentCongestionWindow.toNat)))
    else currentCongestionWindow
  ({ m with lastMaxCongestionWindow := lastMax, epoch := 0 },
    UInt64.ofInt (toInt ((m.beta linkWeight).map (· * currentCongestionWindow.toNat))))

/-- The weight at which a loss empties the window: `(1 - β) / (1 + β)`. -/
def lossShare (m : MinervaBytes) : ℚ := 3 / (20 * m.numConnections - 3)

variable (m : MinervaBytes)

theorem one_le_numConnections : (1 : ℚ) ≤ m.numConnections := by
  exact_mod_cast m.numConnections_pos

theorem lossShare_pos : 0 < m.lossShare := by
  have hn := m.one_le_numConnections
  unfold lossShare
  apply div_pos <;> linarith

theorem ensembleBeta_nonneg : 0 ≤ m.ensembleBeta kDefaultCubicBackoffFactor := by
  have hn := m.one_le_numConnections
  unfold ensembleBeta kDefaultCubicBackoffFactor
  apply div_nonneg <;> linarith

theorem ensembleBeta_le_one : m.ensembleBeta kDefaultCubicBackoffFactor ≤ 1 := by
  have hn := m.one_le_numConnections
  unfold ensembleBeta kDefaultCubicBackoffFactor
  rw [div_le_one (by linarith)]
  linarith

theorem lossShare_mul : m.lossShare * (1 + m.ensembleBeta kDefaultCubicBackoffFactor)
    = 1 - m.ensembleBeta kDefaultCubicBackoffFactor := by
  have hn := m.one_le_numConnections
  have hn0 : (m.numConnections : ℚ) ≠ 0 := by linarith
  have hd : 20 * (m.numConnections : ℚ) - 3 ≠ 0 := by linarith
  unfold lossShare ensembleBeta kDefaultCubicBackoffFactor
  field_simp
  ring

theorem weightAdjustedBeta_some {β θ : ℚ} (w : ℚ) (hβ : 0 ≤ β) (hθ : θ * (1 + β) = 1 - β) :
    weightAdjustedBeta (some w) β = if w + θ = 0 then none else some ((w - θ) / (w + θ)) := by
  have hpos : 1 + β ≠ 0 := by linarith
  have hnum : β * (w + 1) + w - 1 = (1 + β) * (w - θ) := by linear_combination hθ
  have hden : β * (w - 1) + w + 1 = (1 + β) * (w + θ) := by linear_combination -hθ
  unfold weightAdjustedBeta
  dsimp only
  rw [hnum, hden, mul_div_mul_left _ _ hpos]
  simp only [mul_eq_zero, hpos, false_or]

theorem beta_none : m.beta none = some (m.ensembleBeta kDefaultCubicBackoffFactor) := rfl

theorem beta_some (w : ℚ) : m.beta (some w)
    = if w + m.lossShare = 0 then none else some ((w - m.lossShare) / (w + m.lossShare)) :=
  weightAdjustedBeta_some w m.ensembleBeta_nonneg m.lossShare_mul

/-- When a window of `c` bytes, scaled by `(w - θ) / (w + θ)`, is truncated to a number from 0
to `c`. -/
theorem scaled_mem_iff {θ w : ℚ} (hθ : 0 < θ) (hw : w + θ ≠ 0) (c : ℕ) :
    (-1 < (w - θ) / (w + θ) * c ∧ (w - θ) / (w + θ) * c < c + 1)
      ↔ θ * (c - 1) < w * (c + 1) ∨ w < -((2 * c + 1) * θ) := by
  have hc : (0 : ℚ) ≤ c := Nat.cast_nonneg c
  have hcθ : 0 ≤ c * θ := mul_nonneg hc hθ.le
  rw [div_mul_eq_mul_div]
  rcases lt_or_gt_of_ne hw with hneg | hpos
  · rw [lt_div_iff_of_neg hneg, div_lt_iff_of_neg hneg]
    constructor
    · rintro ⟨-, h⟩
      right
      linarith
    · rintro (h | h)
      · -- a weight below -θ is not above the first bound
        have : (w + θ) * (c + 1) < 0 := mul_neg_of_neg_of_pos hneg (by linarith)
        linarith
      · have : 0 ≤ (c + 1) * (-((2 * c + 1) * θ) - w) := mul_nonneg (by linarith) (by linarith)
        have hcc : 0 ≤ c * (c * θ) := mul_nonneg hc hcθ
        constructor <;> nlinarith
  · rw [lt_div_iff₀ hpos, div_lt_iff₀ hpos]
    constructor
    · rintro ⟨h, -⟩
      left
      linarith
    · rintro (h | h)
      · constructor <;> linarith
      · linarith

end MinervaBytes

/-! ## The sender -/

/-- What `OnPacketLost` reads and writes, statistics and the rate reduction object apart. -/
structure TcpMinervaSenderBytes where
  cubic : MinervaBytes
  /-- `link_weight_` of `MinervaInterface`. -/
  linkWeight : Option ℚ
  congestionWindow : UInt64
  minCongestionWindow : UInt64
  slowstartThreshold : UInt64
  minSlowStartExitWindow : UInt64
  initialTcpCongestionWindow : UInt64
  largestSentPacketNumber : Option ℕ
  largestSentAtLastCutback : Option ℕ
  lastCutbackExitedSlowstart : Bool
  slowStartLargeReduction : Bool
  numAckedPackets : ℕ

namespace TcpMinervaSenderBytes

/-- The end of `MinervaAbr::onWeightUpdate`: the rate over the utility, unless that is 0. -/
def onWeightUpdate (s : TcpMinervaSenderBytes) (movingAverageRate utility : ℚ) :
    TcpMinervaSenderBytes :=
  if utility ≠ 0 then { s with linkWeight := some (movingAverageRate / utility) } else s

def inSlowStart (s : TcpMinervaSenderBytes) : Bool := s.congestionWindow < s.slowstartThreshold

/-- The packet was sent before the last cutback. -/
def precedesCutback (s : TcpMinervaSenderBytes) (packetNumber : ℕ) : Bool :=
  s.largestSentAtLastCutback.any (packetNumber ≤ ·)

/-- The entry of a loss that is not ignored: was the sender in slow start? -/
def noteSlowStart (s : TcpMinervaSenderBytes) : TcpMinervaSenderBytes :=
  { s with lastCutbackExitedSlowstart := s.inSlowStart }

/-- The window is cut, by one packet or by the backoff factor. -/
def cutWindow (s : TcpMinervaSenderBytes) : TcpMinervaSenderBytes :=
  if s.slowStartLargeReduction && s.inSlowStart then
    { s with
      minSlowStartExitWindow :=
        if s.congestionWindow ≥ 2 * s.initialTcpCongestionWindow then s.congestionWindow / 2
        else s.minSlowStartExitWindow
      congestionWindow := s.congestionWindow - kDefaultTCPMSS }
  else
    let (cubic, window) := s.cubic.congestionWindowAfterPacketLoss s.linkWeight s.congestionWindow
    { s with cubic := cubic, congestionWindow := window }

/-- The only clamp. -/
def clampWindow (s : TcpMinervaSenderBytes) : TcpMinervaSenderBytes :=
  { s with
    congestionWindow :=
      if s.congestionWindow < s.minCongestionWindow then s.minCongestionWindow
      else s.congestionWindow }

def onPacketLost (s : TcpMinervaSenderBytes) (packetNumber : ℕ) (lostBytes : UInt64) :
    TcpMinervaSenderBytes :=
  if s.precedesCutback packetNumber then
    if s.lastCutbackExitedSlowstart && s.slowStartLargeReduction then
      let window := max (s.congestionWindow - lostBytes) s.minSlowStartExitWindow
      { s with congestionWindow := window, slowstartThreshold := window }
    else s
  else
    let t := s.noteSlowStart.cutWindow.clampWindow
    { t with
      slowstartThreshold := t.congestionWindow
      largestSentAtLastCutback := t.largestSentPacketNumber
      numAckedPackets := 0 }

/-- The loss is handled by one of the two branches for large reductions in slow start. -/
def LargeReduction (s : TcpMinervaSenderBytes) (packetNumber : ℕ) : Prop :=
  s.slowStartLargeReduction = true ∧
    (if s.precedesCutback packetNumber then s.lastCutbackExitedSlowstart else s.inSlowStart) = true

/-- The weight, if there is one, is clear of the range in which the factor, applied to the
current window, leaves the interval from 0 to 1. -/
def BacksOff (s : TcpMinervaSenderBytes) : Prop :=
  ∀ w ∈ s.linkWeight,
    s.cubic.lossShare * (s.congestionWindow.toNat - 1) < w * (s.congestionWindow.toNat + 1)
      ∨ w < -((2 * s.congestionWindow.toNat + 1) * s.cubic.lossShare)

variable {s : TcpMinervaSenderBytes}

/-- The new window of the cubic branch does not exceed the old one exactly for those weights. -/
theorem afterPacketLoss_le_iff (hmax : s.congestionWindow.toNat < 2 ^ 31) :
    (s.cubic.congestionWindowAfterPacketLoss s.linkWeight s.congestionWindow).2
      ≤ s.congestionWindow ↔ s.BacksOff := by
  have hc : (0 : ℚ) ≤ s.congestionWindow.toNat := Nat.cast_nonneg _
  unfold MinervaBytes.congestionWindowAfterPacketLoss BacksOff
  dsimp only
  rw [UInt64.le_iff_toNat_le, ofInt_le_iff (toInt_mem_range _) hmax]
  cases s.linkWeight with
  | none =>
    rw [MinervaBytes.beta_none, Option.map_some, toInt_mem_iff hmax]
    have hlow := mul_nonneg s.cubic.ensembleBeta_nonneg hc
    have hhigh := mul_le_of_le_one_left hc s.cubic.ensembleBeta_le_one
    simp only [Option.mem_def, reduceCtorEq, false_implies, implies_true, iff_true]
    constructor <;> linarith
  | some w =>
    simp only [Option.mem_def, Option.some.injEq, forall_eq']
    rw [MinervaBytes.beta_some]
    have hθ := s.cubic.lossShare_pos
    split
    · next hzero =>
      -- the factor is infinite, and the bounds exclude its weight -θ
      have hw : w = -s.cubic.lossShare := by linarith
      have hcθ := mul_nonneg hc hθ.le
      rw [hw, Option.map_none]
      constructor
      · rintro ⟨h, -⟩
        exact absurd h (by decide)
      · rintro (h | h) <;> linarith
    · next hne =>
      rw [Option.map_some, toInt_mem_iff hmax]
      exact MinervaBytes.scaled_mem_iff hθ hne _

theorem onPacketLost_of_precedesCutback {packetNumber : ℕ} {lostBytes : UInt64}
    (hcut : s.precedesCutback packetNumber = true) (hlarge : ¬s.LargeReduction packetNumber) :
    s.onPacketLost packetNumber lostBytes = s := by
  unfold LargeReduction at hlarge
  unfold onPacketLost
  rw [if_pos hcut] at hlarge ⊢
  rw [if_neg]
  rw [Bool.and_eq_true]
  tauto

theorem cutWindow_of_not_inSlowStart
    (hlarge : ¬(s.slowStartLargeReduction = true ∧ s.inSlowStart = true)) :
    s.cutWindow.minCongestionWindow = s.minCongestionWindow ∧
      s.cutWindow.congestionWindow
        = (s.cubic.congestionWindowAfterPacketLoss s.linkWeight s.congestionWindow).2 := by
  rw [← Bool.and_eq_true] at hlarge
  unfold cutWindow
  rw [if_neg hlarge]
  exact ⟨rfl, rfl⟩

theorem clampWindow_congestionWindow (s : TcpMinervaSenderBytes) :
    s.clampWindow.congestionWindow.toNat
      = max s.minCongestionWindow.toNat s.congestionWindow.toNat := by
  unfold clampWindow
  dsimp only
  split
  · next h => exact (max_eq_left (UInt64.lt_iff_toNat_lt.mp h).le).symm
  · next h => exact (max_eq_right (UInt64.le_iff_toNat_le.mp (UInt64.not_lt.mp h))).symm

theorem onPacketLost_congestionWindow {packetNumber : ℕ} {lostBytes : UInt64}
    (hcut : ¬s.precedesCutback packetNumber = true) (hlarge : ¬s.LargeReduction packetNumber) :
    (s.onPacketLost packetNumber lostBytes).congestionWindow.toNat
      = max s.minCongestionWindow.toNat
          (s.cubic.congestionWindowAfterPacketLoss s.linkWeight s.congestionWindow).2.toNat := by
  unfold LargeReduction at hlarge
  rw [if_neg hcut] at hlarge
  obtain ⟨hmin, hwindow⟩ := cutWindow_of_not_inSlowStart (s := s.noteSlowStart) hlarge
  unfold onPacketLost
  rw [if_neg hcut]
  dsimp only
  rw [clampWindow_congestionWindow, hmin, hwindow]
  rfl

/-- A loss keeps the window within its limits exactly when it is ignored, as a loss from
before the last cutback, or the weight lets the window back off. -/
theorem onPacketLost_within_limits_iff (s : TcpMinervaSenderBytes) (packetNumber : ℕ)
    (lostBytes : UInt64) (hmin : s.minCongestionWindow ≤ s.congestionWindow)
    (hmax : s.congestionWindow.toNat ≤ 2 ^ 31 - 1) (hlarge : ¬s.LargeReduction packetNumber) :
    (s.minCongestionWindow ≤ (s.onPacketLost packetNumber lostBytes).congestionWindow
        ∧ (s.onPacketLost packetNumber lostBytes).congestionWindow ≤ s.congestionWindow)
      ↔ s.precedesCutback packetNumber = true ∨ s.BacksOff := by
  by_cases hcut : s.precedesCutback packetNumber = true
  · rw [onPacketLost_of_precedesCutback hcut hlarge]
    simp only [hmin, UInt64.le_refl, and_self, hcut, true_or]
  · rw [← afterPacketLoss_le_iff (by omega : s.congestionWindow.toNat < 2 ^ 31)]
    simp only [UInt64.le_iff_toNat_le, onPacketLost_congestionWindow hcut hlarge] at hmin ⊢
    simp only [le_max_left, max_le_iff, hmin, true_and, hcut, Bool.false_eq_true, false_or]

/-- A sender in congestion avoidance, with a window of twenty packets. -/
def avoiding : TcpMinervaSenderBytes where
  cubic := ⟨2, by decide, 29200, 0⟩
  linkWeight := none
  congestionWindow := 29200
  minCongestionWindow := 2920
  slowstartThreshold := 14600
  minSlowStartExitWindow := 2920
  initialTcpCongestionWindow := 14600
  largestSentPacketNumber := some 100
  largestSentAtLastCutback := some 50
  lastCutbackExitedSlowstart := false
  slowStartLargeReduction := false
  numAckedPackets := 0

/-- Weight 20, from a rate of 1000 kbps and a utility of 50: the window backs off. -/
theorem onPacketLost_within_limits_avoiding :
    (avoiding.onWeightUpdate 1000 50).minCongestionWindow
        ≤ ((avoiding.onWeightUpdate 1000 50).onPacketLost 90 1460).congestionWindow
      ∧ ((avoiding.onWeightUpdate 1000 50).onPacketLost 90 1460).congestionWindow
        ≤ (avoiding.onWeightUpdate 1000 50).congestionWindow :=
  (onPacketLost_within_limits_iff (avoiding.onWeightUpdate 1000 50) 90 1460 (by decide +kernel)
    (by decide +kernel) (fun h => absurd h.1 (by decide +kernel))).mpr
    (.inr (by
      intro w hw
      obtain rfl : (1000 / 50 : ℚ) = w := Option.some.inj hw
      exact .inl (by decide +kernel)))

/-- After stalls the utility is negative, and the loss makes the window grow. A weight just
above zero makes the factor negative, and the window wraps around. -/
theorem onPacketLost_leaves_limits :
    ((avoiding.onWeightUpdate 1000 (-50)).onPacketLost 90 1460).congestionWindow = 29437
      ∧ ((avoiding.onWeightUpdate 1 100).onPacketLost 90 1460).congestionWindow
        = 18446744073709528828
      ∧ avoiding.congestionWindow = 29200 ∧ avoiding.minCongestionWindow = 2920
      ∧ avoiding.slowStartLargeReduction = false := by
  decide +kernel

end TcpMinervaSenderBytes
end Cc
end LiveStream
