import LiveStream.Cc.MinervaSender

/-!
# The growth of Minerva's window

Between losses the window follows a cubic curve, at most half the acknowledged bytes at a time, and
at least as fast as a TCP connection would grow. The curve is computed in words of 64 bits, whose
cubes overflow about 30 seconds away from its origin. Up to there it is monotone.

* `curve_le_curve`, the curve does not go down;
* `alpha_spec` and `le_estimate`, with a weight that lets the window back off, the estimate of the
  TCP window does not go down;
* `Started`, what the start of an epoch establishes;
* `congestionWindowAfterAck_spec`, what an acknowledgement does.
-/

namespace LiveStream
namespace Cc

open Lib

namespace CubicGrowth

/-! ## The curve -/

/-- The longest time, in 1024ths of a second, whose cube does not overflow. -/
def longestTime : ℕ := 31000

theorem deltaCongestionWindow_mono {a b : ℕ} (hab : a ≤ b) (hb : b ≤ longestTime) :
    deltaCongestionWindow a ≤ deltaCongestionWindow b := by
  have hpow : a ^ 3 ≤ b ^ 3 := Nat.pow_le_pow_left hab 3
  have htop : b ^ 3 ≤ longestTime ^ 3 := Nat.pow_le_pow_left hb 3
  unfold deltaCongestionWindow kCubeCongestionWindowScale
  unfold longestTime at htop
  apply Nat.div_le_div_right
  rw [Nat.mod_eq_of_lt (by omega), Nat.mod_eq_of_lt (by omega)]
  omega

/-- A little later the cube overflows, and the curve falls back. -/
example : deltaCongestionWindow 31360 < deltaCongestionWindow longestTime := by decide +kernel

/-- Within the time the root gives, the curve is at most as far away as the root was taken of. -/
theorem deltaCongestionWindow_le {offset distance : ℕ}
    (h : offset ^ 3 ≤ kCubeFactor * distance) : deltaCongestionWindow offset ≤ distance := by
  have hfactor : kCubeFactor = 1836805 := by decide +kernel
  rw [hfactor] at h
  unfold deltaCongestionWindow kCubeCongestionWindowScale
  have hmod := Nat.mod_le (410 * offset ^ 3 * 1460) (2 ^ 64)
  omega

theorem deltaCongestionWindow_lt {offset : ℕ} (h : offset ≤ longestTime) :
    deltaCongestionWindow offset < 2 ^ 24 :=
  lt_of_le_of_lt (deltaCongestionWindow_mono h le_rfl) (by decide +kernel)

/-- What the start of an epoch establishes, at a window `start`: before its origin the curve does
not go below that window. -/
structure Started (g : CubicGrowth) (start : ℕ) : Prop where
  le_origin : start ≤ g.originPointCongestionWindow
  origin_lt : g.originPointCongestionWindow < 2 ^ 32
  time_le : g.timeToOriginPoint ≤ longestTime
  delta_le : ∀ offset ≤ g.timeToOriginPoint,
    deltaCongestionWindow offset ≤ g.originPointCongestionWindow - start

variable {g : CubicGrowth} {start : ℕ}

/-- The acknowledged bytes and the estimate have no part in it. -/
theorem Started.of_eq {g' : CubicGrowth} (h : g.Started start)
    (horigin : g'.originPointCongestionWindow = g.originPointCongestionWindow)
    (htime : g'.timeToOriginPoint = g.timeToOriginPoint) : g'.Started start := by
  obtain ⟨hle, hlt, htime', hdelta⟩ := h
  rw [← horigin] at hle hlt
  rw [← htime] at htime'
  rw [← htime, ← horigin] at hdelta
  exact ⟨hle, hlt, htime', hdelta⟩

theorem curve_of_le (h : g.Started start) {elapsed : ℕ} (hle : elapsed ≤ g.timeToOriginPoint) :
    g.curve elapsed
      = g.originPointCongestionWindow - deltaCongestionWindow (g.timeToOriginPoint - elapsed) := by
  have hoffset : ((g.timeToOriginPoint : ℤ) - elapsed).natAbs = g.timeToOriginPoint - elapsed := by
    omega
  have hdelta := h.delta_le (g.timeToOriginPoint - elapsed) (Nat.sub_le _ _)
  have hlt := h.origin_lt
  have hstart := h.le_origin
  unfold curve
  rw [hoffset, if_neg (by omega)]
  omega

theorem curve_of_lt (h : g.Started start) {elapsed : ℕ} (hlt : g.timeToOriginPoint < elapsed)
    (htime : elapsed ≤ longestTime) :
    g.curve elapsed
      = g.originPointCongestionWindow + deltaCongestionWindow (elapsed - g.timeToOriginPoint) := by
  have hoffset : ((g.timeToOriginPoint : ℤ) - elapsed).natAbs = elapsed - g.timeToOriginPoint := by
    omega
  have hdelta : deltaCongestionWindow (elapsed - g.timeToOriginPoint) < 2 ^ 24 :=
    deltaCongestionWindow_lt (by omega)
  have horigin := h.origin_lt
  unfold curve
  rw [hoffset, if_pos (by omega)]
  exact Nat.mod_eq_of_lt (by omega)

/-- The curve does not go down, as long as the cubes do not overflow. -/
theorem curve_le_curve (h : g.Started start) {a b : ℕ} (hab : a ≤ b) (hb : b ≤ longestTime) :
    g.curve a ≤ g.curve b := by
  have htime := h.time_le
  -- both times before the origin, on both sides of it, or both after it
  by_cases ha : a ≤ g.timeToOriginPoint
  · rw [curve_of_le h ha]
    by_cases hb' : b ≤ g.timeToOriginPoint
    · rw [curve_of_le h hb']
      have hdelta : deltaCongestionWindow (g.timeToOriginPoint - b)
          ≤ deltaCongestionWindow (g.timeToOriginPoint - a) :=
        deltaCongestionWindow_mono (by omega) (by omega)
      omega
    · rw [curve_of_lt h (by omega) hb]
      omega
  · rw [curve_of_lt h (by omega) (by omega), curve_of_lt h (by omega) hb]
    have hdelta : deltaCongestionWindow (a - g.timeToOriginPoint)
        ≤ deltaCongestionWindow (b - g.timeToOriginPoint) :=
      deltaCongestionWindow_mono (by omega) (by omega)
    omega

theorem curve_lt (g : CubicGrowth) (elapsed : ℤ) : g.curve elapsed < 2 ^ 64 := by
  unfold curve
  simp only
  split
  · exact Nat.mod_lt _ (by decide)
  · exact Nat.mod_lt _ (by decide)

end CubicGrowth

/-! ## The estimate of the TCP window -/

theorem toWord_lt (x : Option ℚ) : toWord x < 2 ^ 64 := by
  unfold toWord
  split
  · decide
  · split
    · omega
    · decide

theorem toWord_of_mem {x : ℚ} (hnonneg : 0 ≤ x) (hlt : x < 2 ^ 64) :
    (toWord (some x) : ℤ) = truncate x := by
  have hlow : 0 ≤ truncate x := truncate_nonneg hnonneg
  have hhigh : truncate x < 2 ^ 64 := by
    have hle : truncate x ≤ (2 ^ 64 - 1 : ℕ) := truncate_le_natCast_iff.mpr (by
      push_cast
      linarith)
    omega
  unfold toWord
  simp only
  rw [if_pos ⟨by omega, hhigh⟩]
  omega

namespace MinervaBytes

variable (m : MinervaBytes)

/-- That the weight, if there is one, lets the window back off, whatever the window is. -/
def Weighs (linkWeight : Option ℚ) : Prop := ∀ w ∈ linkWeight, m.lossShare ≤ w

variable {m}

/-- The factor of a loss is between zero and one. -/
theorem weightAdjustedBeta_mem (β θ : ℚ) (hβ : 0 ≤ β) (hone : β ≤ 1) (hθ : θ * (1 + β) = 1 - β)
    {linkWeight : Option ℚ} (hpos : 0 < θ) (h : ∀ w ∈ linkWeight, θ ≤ w) :
    ∃ b, weightAdjustedBeta linkWeight β = some b ∧ 0 ≤ b ∧ b ≤ 1 := by
  cases linkWeight with
  | none => exact ⟨β, rfl, hβ, hone⟩
  | some w =>
    have hw : θ ≤ w := h w rfl
    have hsum : 0 < w + θ := by linarith
    refine ⟨(w - θ) / (w + θ), ?_, div_nonneg (by linarith) hsum.le, ?_⟩
    · rw [weightAdjustedBeta_some w hβ hθ, if_neg hsum.ne']
    · rw [div_le_one hsum]
      linarith

/-- The growth of as many TCP connections, divided by the weight. -/
theorem alpha_spec {linkWeight : Option ℚ} (h : m.Weighs linkWeight) :
    ∃ alpha, m.alpha linkWeight = some alpha ∧ 0 ≤ alpha ∧
      alpha ≤ 3 * m.numConnections * m.numConnections := by
  obtain ⟨beta, hbeta, hlow, hhigh⟩ := weightAdjustedBeta_mem _ _ m.ensembleBeta_nonneg
    m.ensembleBeta_le_one m.lossShare_mul m.lossShare_pos h
  change m.beta linkWeight = some beta at hbeta
  have hscale : (0 : ℚ) ≤ 3 * m.numConnections * m.numConnections := by positivity
  refine ⟨3 * m.numConnections * m.numConnections * (1 - beta) / (1 + beta), ?_, ?_, ?_⟩
  · unfold alpha
    rw [hbeta]
    simp only
    rw [if_neg (by linarith)]
  · exact div_nonneg (mul_nonneg hscale (by linarith)) (by linarith)
  · rw [div_le_iff₀ (by linarith)]
    exact mul_le_mul_of_nonneg_left (by linarith) hscale

/-- The estimate does not go down, and grows by a multiple of the acknowledged bytes at most. -/
theorem estimate_spec {linkWeight : Option ℚ} (h : m.Weighs linkWeight) (hn : m.numConnections = 2)
    {g : CubicGrowth} (hpos : 0 < g.estimatedTcpCongestionWindow)
    (hlt : g.estimatedTcpCongestionWindow < 2 ^ 32) (hacked : g.ackedBytesCount < 2 ^ 32) :
    g.estimatedTcpCongestionWindow ≤ m.estimate linkWeight g ∧
      m.estimate linkWeight g ≤ g.estimatedTcpCongestionWindow + 17520 * g.ackedBytesCount := by
  obtain ⟨alpha, halpha, hnonneg, hle⟩ := alpha_spec h
  have hest : (1 : ℚ) ≤ g.estimatedTcpCongestionWindow := by exact_mod_cast hpos
  have hest' : (g.estimatedTcpCongestionWindow : ℚ) < 2 ^ 32 := by exact_mod_cast hlt
  have hcount : (g.ackedBytesCount : ℚ) < 2 ^ 32 := by exact_mod_cast hacked
  have hcount0 : (0 : ℚ) ≤ g.ackedBytesCount := Nat.cast_nonneg _
  rw [hn] at hle
  push_cast at hle
  have hgrowth0 : 0 ≤ g.ackedBytesCount * (alpha * 1460) / g.estimatedTcpCongestionWindow := by
    positivity
  have hgrowth : g.ackedBytesCount * (alpha * 1460) / g.estimatedTcpCongestionWindow
      ≤ 17520 * (g.ackedBytesCount : ℚ) := by
    rw [div_le_iff₀ (by linarith)]
    have hone : (g.ackedBytesCount : ℚ) * (alpha * 1460) ≤ g.ackedBytesCount * 17520 :=
      mul_le_mul_of_nonneg_left (by linarith) hcount0
    have htwo : (g.ackedBytesCount : ℚ) * 17520
        ≤ g.ackedBytesCount * 17520 * g.estimatedTcpCongestionWindow :=
      le_mul_of_one_le_right (by linarith) hest
    linarith
  have hword : (m.estimate linkWeight g : ℤ) = truncate (g.estimatedTcpCongestionWindow
      + g.ackedBytesCount * (alpha * 1460) / g.estimatedTcpCongestionWindow) := by
    unfold estimate
    rw [halpha]
    simp only
    rw [if_neg hpos.ne']
    exact toWord_of_mem (by linarith) (by linarith)
  constructor
  · have hlow : ((g.estimatedTcpCongestionWindow : ℤ) : ℚ) ≤ g.estimatedTcpCongestionWindow
        + g.ackedBytesCount * (alpha * 1460) / g.estimatedTcpCongestionWindow := by
      push_cast
      linarith
    have := le_truncate hlow
    omega
  · have hhigh : g.estimatedTcpCongestionWindow
        + g.ackedBytesCount * (alpha * 1460) / g.estimatedTcpCongestionWindow
        ≤ ((g.estimatedTcpCongestionWindow + 17520 * g.ackedBytesCount : ℤ) : ℚ) := by
      push_cast
      linarith
    have := truncate_le hhigh
    omega

/-! ## The start of an epoch -/

/-- The curve through a window, towards the window before the last loss. -/
theorem started_startEpoch {g : CubicGrowth} {ackedBytes window eventTime : ℕ}
    (hepoch : m.epoch = 0) (hmax : m.lastMaxCongestionWindow.toNat ≤ 16000000)
    (hwindow : window < 2 ^ 32) :
    (m.startEpoch g ackedBytes window eventTime).2.Started window := by
  unfold startEpoch
  rw [if_pos hepoch]
  simp only
  split
  · refine ⟨le_rfl, hwindow, Nat.zero_le _, fun offset hoffset => ?_⟩
    rw [Nat.le_zero.mp hoffset]
    exact (by decide +kernel : CubicGrowth.deltaCongestionWindow 0 = 0).le.trans (Nat.zero_le _)
  · next hlt =>
    generalize m.lastMaxCongestionWindow.toNat = lastMax at hmax hlt ⊢
    have hfactor : kCubeFactor = 1836805 := by decide +kernel
    have hmod : kCubeFactor * (lastMax - window) % 2 ^ 64 = kCubeFactor * (lastMax - window) :=
      Nat.mod_eq_of_lt (by rw [hfactor]; omega)
    rw [hmod]
    have hroot : Nat.nthRoot 3 (kCubeFactor * (lastMax - window)) ^ 3
        ≤ kCubeFactor * (lastMax - window) := Nat.pow_nthRoot_le_iff.mpr (Or.inl (by decide))
    refine ⟨(not_le.mp hlt).le, hmax.trans_lt (by decide), ?_, fun offset hoffset => ?_⟩
    · show Nat.nthRoot 3 _ ≤ CubicGrowth.longestTime
      rw [← Nat.lt_succ_iff, Nat.nthRoot_lt_iff (by decide), hfactor]
      show 1836805 * (lastMax - window) < 31001 ^ 3
      omega
    · exact CubicGrowth.deltaCongestionWindow_le
        ((Nat.pow_le_pow_left hoffset 3).trans hroot)

/-! ## An acknowledgement -/

/-- The estimate within an epoch, for a window. -/
structure Estimated (g : CubicGrowth) (window : ℕ) : Prop where
  count : g.ackedBytesCount = 0
  two_packets_le : 2920 ≤ g.estimatedTcpCongestionWindow
  le_window : g.estimatedTcpCongestionWindow ≤ window

variable {g : CubicGrowth} {linkWeight : Option ℚ} {ackedBytes window delayMin eventTime : ℕ}

theorem numConnections_startEpoch :
    (m.startEpoch g ackedBytes window eventTime).1.numConnections = m.numConnections := by
  unfold startEpoch
  split
  · rfl
  · rfl

theorem lastMax_startEpoch :
    (m.startEpoch g ackedBytes window eventTime).1.lastMaxCongestionWindow
      = m.lastMaxCongestionWindow := by
  unfold startEpoch
  split
  · rfl
  · rfl

theorem epoch_startEpoch : (m.startEpoch g ackedBytes window eventTime).1.epoch
    = if m.epoch = 0 then eventTime else m.epoch := by
  unfold startEpoch
  split
  · rfl
  · rfl

theorem lossShare_startEpoch :
    (m.startEpoch g ackedBytes window eventTime).1.lossShare = m.lossShare := by
  unfold lossShare
  rw [numConnections_startEpoch]

theorem startEpoch_of_ne (h : m.epoch ≠ 0) : m.startEpoch g ackedBytes window eventTime
    = (m, { g with ackedBytesCount := (g.ackedBytesCount + ackedBytes) % 2 ^ 64 }) := if_neg h

theorem estimated_startEpoch_of_eq (h : m.epoch = 0) :
    (m.startEpoch g ackedBytes window eventTime).2.estimatedTcpCongestionWindow = window ∧
      (m.startEpoch g ackedBytes window eventTime).2.ackedBytesCount = ackedBytes := by
  unfold startEpoch
  rw [if_pos h]
  simp only
  split
  · exact ⟨rfl, rfl⟩
  · exact ⟨rfl, rfl⟩

theorem estimated_startEpoch (eventTime : ℕ) (h : m.epoch ≠ 0 → Estimated g window)
    (hwindow : 2920 ≤ window) (hacked : ackedBytes < 2 ^ 32) :
    let g' := (m.startEpoch g ackedBytes window eventTime).2
    g'.ackedBytesCount = ackedBytes ∧ 2920 ≤ g'.estimatedTcpCongestionWindow ∧
      g'.estimatedTcpCongestionWindow ≤ window := by
  intro g'
  by_cases hepoch : m.epoch = 0
  · obtain ⟨hest, hcount⟩ := estimated_startEpoch_of_eq (m := m) (g := g) hepoch
    exact ⟨hcount, hest.symm ▸ hwindow, hest.le⟩
  · obtain ⟨hcount, hlow, hhigh⟩ := h hepoch
    have hg : g' = { g with ackedBytesCount := (g.ackedBytesCount + ackedBytes) % 2 ^ 64 } :=
      congrArg Prod.snd (startEpoch_of_ne hepoch)
    rw [hg]
    refine ⟨?_, hlow, hhigh⟩
    show (g.ackedBytesCount + ackedBytes) % 2 ^ 64 = ackedBytes
    omega

/-- The new window is the higher of the two. -/
theorem afterAck_window :
    (m.congestionWindowAfterAck g linkWeight ackedBytes window delayMin eventTime).2.2
      = let r := m.startEpoch g ackedBytes window eventTime
        max (min (r.2.curve (r.1.elapsedTime delayMin eventTime))
          ((window + r.2.ackedBytesCount / 2) % 2 ^ 64)) (r.1.estimate linkWeight r.2) := by
  unfold congestionWindowAfterAck
  generalize m.startEpoch g ackedBytes window eventTime = r
  simp only
  split
  · next h => exact (max_eq_right h.le).symm
  · next h => exact (max_eq_left (not_lt.mp h)).symm

theorem afterAck_window_lt :
    (m.congestionWindowAfterAck g linkWeight ackedBytes window delayMin eventTime).2.2
      < 2 ^ 64 := by
  rw [afterAck_window]
  exact max_lt ((min_le_left _ _).trans_lt (CubicGrowth.curve_lt _ _)) (toWord_lt _)

/-- What an acknowledgement makes of the estimate: it does not go down, and the window is not below
it. -/
theorem estimated_afterAck (delayMin eventTime : ℕ) (hweight : m.Weighs linkWeight)
    (hn : m.numConnections = 2) (h : m.epoch ≠ 0 → Estimated g window) (hwindow : 2920 ≤ window)
    (hlt : window < 2 ^ 32) (hacked : ackedBytes < 2 ^ 32) :
    let r := m.congestionWindowAfterAck g linkWeight ackedBytes window delayMin eventTime
    Estimated r.2.1 r.2.2 ∧
      (m.startEpoch g ackedBytes window eventTime).2.estimatedTcpCongestionWindow
        ≤ r.2.1.estimatedTcpCongestionWindow := by
  intro r
  obtain ⟨hcount, hlow, hhigh⟩ := estimated_startEpoch eventTime h hwindow hacked
  have hweight' : (m.startEpoch g ackedBytes window eventTime).1.Weighs linkWeight := by
    unfold Weighs
    rw [lossShare_startEpoch]
    exact hweight
  have hest := (estimate_spec (g := (m.startEpoch g ackedBytes window eventTime).2) hweight'
    (numConnections_startEpoch.trans hn) (by omega) (by omega) (by omega)).1
  refine ⟨⟨rfl, hlow.trans hest, ?_⟩, hest⟩
  show _ ≤ (m.congestionWindowAfterAck g linkWeight ackedBytes window delayMin eventTime).2.2
  rw [afterAck_window]
  exact le_max_right _ _

/-- The time since the start of the epoch, for times in order. -/
def ticks (epoch clock : ℕ) : ℕ := (clock - epoch) * 2 ^ 10 / 1000000

theorem elapsedTime_eq (h : m.epoch ≤ eventTime + delayMin) :
    m.elapsedTime delayMin eventTime = ticks m.epoch (eventTime + delayMin) := by
  unfold elapsedTime ticks
  have hnonneg : 0 ≤ ((eventTime : ℤ) + delayMin - m.epoch) * 2 ^ 10 := by omega
  rw [Int.tdiv_eq_ediv_of_nonneg hnonneg]
  push_cast [Nat.cast_sub h]
  rfl

/-- Within an epoch, at the time of the last acknowledgement: the window has not left the curve, or
is not above the estimate. -/
structure OnCurve (m : MinervaBytes) (g : CubicGrowth) (clock window : ℕ) : Prop where
  epoch_le : m.epoch ≤ clock
  started : ∃ start, 0 < start ∧ g.Started start
  below : window ≤ max (g.curve (ticks m.epoch clock)) g.estimatedTcpCongestionWindow

theorem OnCurve.mono {clock window' : ℕ} (h : OnCurve m g clock window) (hle : window' ≤ window) :
    OnCurve m g clock window' :=
  ⟨h.epoch_le, h.started, hle.trans h.below⟩

/-- The times are in order, and the epoch is not longer than the cubes allow. -/
def InTime (m : MinervaBytes) (clock delayMin eventTime : ℕ) : Prop :=
  clock ≤ eventTime + delayMin ∧
    ticks (if m.epoch = 0 then eventTime else m.epoch) (eventTime + delayMin)
      ≤ CubicGrowth.longestTime

theorem ticks_mono (epoch : ℕ) : Monotone (ticks epoch) := by
  intro a b hab
  unfold ticks
  omega

/-- The first acknowledgement of an epoch puts the window on the curve, the others find it there. -/
theorem onCurve_startEpoch (ackedBytes : ℕ) (hmax : m.lastMaxCongestionWindow.toNat ≤ 16000000)
    (hwindow : 0 < window) (hlt : window < 2 ^ 32) {clock : ℕ}
    (h : m.epoch ≠ 0 → OnCurve m g clock window) (htime : InTime m clock delayMin eventTime) :
    let r := m.startEpoch g ackedBytes window eventTime
    OnCurve r.1 r.2 (eventTime + delayMin) window ∧
      ticks r.1.epoch (eventTime + delayMin) ≤ CubicGrowth.longestTime := by
  intro r
  obtain ⟨hclock, hlong⟩ := htime
  by_cases hepoch : m.epoch = 0
  · have hstart : r.1.epoch = eventTime := epoch_startEpoch.trans (if_pos hepoch)
    rw [if_pos hepoch] at hlong
    refine ⟨⟨by omega, ⟨window, hwindow, started_startEpoch hepoch hmax hlt⟩, ?_⟩, ?_⟩
    · exact le_max_of_le_right (estimated_startEpoch_of_eq hepoch).1.ge
    · rw [hstart]
      exact hlong
  · obtain ⟨hle, ⟨start, hpos, hstarted⟩, hbelow⟩ := h hepoch
    have hr : r = _ := startEpoch_of_ne hepoch
    rw [if_neg hepoch] at hlong
    rw [hr]
    refine ⟨⟨hle.trans hclock, ⟨start, hpos, hstarted.of_eq rfl rfl⟩, ?_⟩, hlong⟩
    have hcurve := CubicGrowth.curve_le_curve hstarted (ticks_mono m.epoch hclock) hlong
    exact hbelow.trans (max_le_max_right _ hcurve)

/-- An acknowledgement does not make the window smaller. -/
theorem onCurve_afterAck (hweight : m.Weighs linkWeight) (hn : m.numConnections = 2)
    (hmax : m.lastMaxCongestionWindow.toNat ≤ 16000000) (h : m.epoch ≠ 0 → Estimated g window)
    (hwindow : 2920 ≤ window) (hlt : window < 2 ^ 32) (hacked : ackedBytes < 2 ^ 32) {clock : ℕ}
    (hcurve : m.epoch ≠ 0 → OnCurve m g clock window) (htime : InTime m clock delayMin eventTime) :
    let r := m.congestionWindowAfterAck g linkWeight ackedBytes window delayMin eventTime
    window ≤ r.2.2 ∧ OnCurve r.1 r.2.1 (eventTime + delayMin) r.2.2 := by
  intro r
  have hest := (estimated_afterAck delayMin eventTime hweight hn h hwindow hlt hacked).2
  obtain ⟨hcount, -, -⟩ := estimated_startEpoch eventTime h hwindow hacked
  obtain ⟨⟨hle, ⟨start, hpos, hstarted⟩, hbelow⟩, -⟩ :=
    onCurve_startEpoch ackedBytes hmax (by omega) hlt hcurve htime
  have hr : r.2.2 = _ := afterAck_window
  simp only [elapsedTime_eq hle, hcount] at hr
  have hest' : r.2.1.estimatedTcpCongestionWindow
      = (m.startEpoch g ackedBytes window eventTime).1.estimate linkWeight
        (m.startEpoch g ackedBytes window eventTime).2 := rfl
  rw [← hest'] at hr
  constructor
  · rw [hr]
    obtain hcase | hcase := le_max_iff.mp hbelow
    · -- on the curve, where half the acknowledged bytes do not take anything away
      have hhalf : window ≤ (window + ackedBytes / 2) % 2 ^ 64 := by omega
      exact le_max_of_le_left (le_min hcase hhalf)
    · exact le_max_of_le_right (hcase.trans hest)
  · refine ⟨hle, ⟨start, hpos, hstarted.of_eq rfl rfl⟩, ?_⟩
    rw [hr]
    exact max_le_max_right _ (min_le_left _ _)

end MinervaBytes

end Cc
end LiveStream
