import LiveStream.Cc.MinervaGrowth
import LiveStream.Lib.Run

/-!
# Minerva's window over whole runs

A loss may throw the window anywhere when the weight is below the share a loss takes. With weights
that are not, the window stays within its limits through slow start, losses, timeouts and migrations
(`window_limits`). Between losses it does not shrink, as long as the times of the events plus the
minimum round trip times are in order and no epoch lasts longer than 30 seconds, after which the
cubes overflow (`acks_never_shrink`).

* `onPacketLost_eq`, what a loss does that is not ignored;
* `Sized.step`, what every call keeps of the window's size;
* `Timed.Inv.step`, what it keeps of the place on the cubic curve.
-/

namespace LiveStream
namespace Cc

open Lib

namespace MinervaBytes

variable {m : MinervaBytes}

/-- A window scaled by a factor between zero and one, and converted twice, is not larger. -/
theorem scaled_le {factor : Option ℚ} {b : ℚ} (hfactor : factor = some b) (hb : 0 ≤ b)
    (hone : b ≤ 1) {window : UInt64} (hlt : window.toNat < 2 ^ 31) :
    (UInt64.ofInt (toInt (factor.map (· * (window.toNat : ℚ))))).toNat ≤ window.toNat := by
  have hc : (0 : ℚ) ≤ window.toNat := Nat.cast_nonneg _
  rw [hfactor, Option.map_some, ofInt_le_iff (toInt_mem_range _) hlt, toInt_mem_iff hlt]
  have hlow := mul_nonneg hb hc
  have hhigh := mul_le_of_le_one_left hc hone
  constructor
  · linarith
  · linarith

/-- A loss backs off, and remembers a window that was reached. -/
theorem afterPacketLoss_spec (hn : m.numConnections = 2) {linkWeight : Option ℚ}
    (h : m.Weighs linkWeight) {window : UInt64} (hlt : window.toNat < 2 ^ 31) :
    let r := m.congestionWindowAfterPacketLoss linkWeight window
    r.2.toNat ≤ window.toNat ∧ r.1.lastMaxCongestionWindow.toNat ≤ window.toNat ∧
      r.1.numConnections = m.numConnections ∧ r.1.epoch = 0 := by
  intro r
  have hshare : m.lossShare = 3 / 37 := by
    unfold lossShare
    rw [hn]
    norm_num
  have hbeta : m.ensembleBeta kDefaultCubicBackoffFactor = 17 / 20 := by
    unfold ensembleBeta kDefaultCubicBackoffFactor
    rw [hn]
    norm_num
  have hlast : m.ensembleBeta kBetaLastMax = 37 / 40 := by
    unfold ensembleBeta kBetaLastMax
    rw [hn]
    norm_num
  have hweight : ∀ w ∈ linkWeight, 3 / 37 ≤ w := fun w hw => hshare ▸ h w hw
  obtain ⟨b, hb, hb0, hb1⟩ := weightAdjustedBeta_mem (17 / 20) (3 / 37) (by norm_num)
    (by norm_num) (by norm_num) (by norm_num) hweight
  obtain ⟨c, hc, hc0, hc1⟩ := weightAdjustedBeta_mem (37 / 40) (3 / 77) (by norm_num)
    (by norm_num) (by norm_num) (by norm_num) fun w hw => le_trans (by norm_num) (hweight w hw)
  refine ⟨?_, ?_, rfl, rfl⟩
  · refine scaled_le (b := b) ?_ hb0 hb1 hlt
    unfold beta
    rw [hbeta, hb]
  · show (if window + kDefaultTCPMSS < m.lastMaxCongestionWindow then _ else window).toNat ≤ _
    split
    · refine scaled_le (b := c) ?_ hc0 hc1 hlt
      unfold betaLastMax
      rw [hlast, hc]
    · exact le_rfl

end MinervaBytes

/-! ## A loss -/

namespace TcpMinervaSenderBytes

variable {s : TcpMinervaSenderBytes} {packetNumber : ℕ} (lostBytes : UInt64)

theorem onPacketLost_of_precedes (hlarge : s.slowStartLargeReduction = false)
    (hcut : s.precedesCutback packetNumber = true) : s.onPacketLost packetNumber lostBytes = s := by
  apply onPacketLost_of_precedesCutback hcut
  intro h
  rw [LargeReduction, hlarge] at h
  exact Bool.false_ne_true h.1

/-- The window after a cut. -/
def cutTo (s : TcpMinervaSenderBytes) : UInt64 :=
  let window := (s.cubic.congestionWindowAfterPacketLoss s.linkWeight s.congestionWindow).2
  if window < s.minCongestionWindow then s.minCongestionWindow else window

/-- What a loss does that is not ignored. -/
theorem onPacketLost_eq (hlarge : s.slowStartLargeReduction = false)
    (hcut : ¬s.precedesCutback packetNumber = true) :
    s.onPacketLost packetNumber lostBytes =
      { s with
        cubic := (s.cubic.congestionWindowAfterPacketLoss s.linkWeight s.congestionWindow).1
        congestionWindow := s.cutTo
        slowstartThreshold := s.cutTo
        largestSentAtLastCutback := s.largestSentPacketNumber
        lastCutbackExitedSlowstart := s.inSlowStart
        numAckedPackets := 0 } := by
  have hnote : s.noteSlowStart.cutWindow =
      { s with
        cubic := (s.cubic.congestionWindowAfterPacketLoss s.linkWeight s.congestionWindow).1
        congestionWindow :=
          (s.cubic.congestionWindowAfterPacketLoss s.linkWeight s.congestionWindow).2
        lastCutbackExitedSlowstart := s.inSlowStart } := by
    have hfalse :
        ¬(s.noteSlowStart.slowStartLargeReduction && s.noteSlowStart.inSlowStart) = true := by
      show ¬(s.slowStartLargeReduction && _) = true
      rw [hlarge]
      exact Bool.false_ne_true
    unfold cutWindow
    rw [if_neg hfalse]
    rfl
  unfold onPacketLost
  rw [if_neg hcut, hnote]
  rfl

theorem cutTo_toNat (s : TcpMinervaSenderBytes) : s.cutTo.toNat = max s.minCongestionWindow.toNat
    (s.cubic.congestionWindowAfterPacketLoss s.linkWeight s.congestionWindow).2.toNat := by
  unfold cutTo
  simp only
  split
  · next h => exact (max_eq_left (UInt64.lt_iff_toNat_lt.mp h).le).symm
  · next h => exact (max_eq_right (UInt64.le_iff_toNat_le.mp (UInt64.not_lt.mp h))).symm

end TcpMinervaSenderBytes

namespace MinervaSender

/-! ## The size of the window -/

/-- What no call changes. -/
def fixed (s : MinervaSender) : Bool × ℕ × UInt64 × UInt64 × UInt64 :=
  (s.slowStartLargeReduction, s.cubic.numConnections, s.minCongestionWindow,
    s.initialMaxTcpCongestionWindow, s.initialTcpCongestionWindow)

/-- What the size of the window depends on. -/
def bulk (s : MinervaSender) :
    (Bool × ℕ × UInt64 × UInt64 × UInt64) × UInt64 × UInt64 × MinervaBytes × CubicGrowth :=
  (s.fixed, s.maxCongestionWindow, s.congestionWindow, s.cubic, s.growth)

/-- The window is within its limits, and so are the windows it can be set to. -/
structure Sized (limit : ℕ) (s : MinervaSender) : Prop where
  noLargeReduction : s.slowStartLargeReduction = false
  connections : s.cubic.numConnections = 2
  minimum : s.minCongestionWindow.toNat = 2920
  maximum : s.maxCongestionWindow = s.initialMaxTcpCongestionWindow
  maximum_eq : s.maxCongestionWindow.toNat = limit
  limit_le : limit ≤ 14600000
  initial : 2920 ≤ s.initialTcpCongestionWindow.toNat
  initial_le : s.initialTcpCongestionWindow.toNat ≤ limit
  low : 2920 ≤ s.congestionWindow.toNat
  high : s.congestionWindow.toNat < s.maxCongestionWindow.toNat + 1460
  lastMax : s.cubic.lastMaxCongestionWindow.toNat ≤ 16000000
  /-- A window at the maximum does not grow any more, so its estimate does not matter. -/
  estimated : s.cubic.epoch ≠ 0 → s.congestionWindow.toNat < s.maxCongestionWindow.toNat →
    MinervaBytes.Estimated s.growth s.congestionWindow.toNat

variable {limit : ℕ} {s t : MinervaSender}

theorem Sized.of_bulk (h : Sized limit s) (hst : Same bulk s t) : Sized limit t := by
  have hfixed : t.fixed = s.fixed := congrArg Prod.fst hst
  have hmax : t.maxCongestionWindow = s.maxCongestionWindow := congrArg (fun b => b.2.1) hst
  have hwindow : t.congestionWindow = s.congestionWindow := congrArg (fun b => b.2.2.1) hst
  have hcubic : t.cubic = s.cubic := congrArg (fun b => b.2.2.2.1) hst
  have hgrowth : t.growth = s.growth := congrArg (fun b => b.2.2.2.2) hst
  have hlarge : t.slowStartLargeReduction = s.slowStartLargeReduction := congrArg Prod.fst hfixed
  have hmin : t.minCongestionWindow = s.minCongestionWindow := congrArg (fun f => f.2.2.1) hfixed
  have hinitialMax : t.initialMaxTcpCongestionWindow = s.initialMaxTcpCongestionWindow :=
    congrArg (fun f => f.2.2.2.1) hfixed
  have hinitial : t.initialTcpCongestionWindow = s.initialTcpCongestionWindow :=
    congrArg (fun f => f.2.2.2.2) hfixed
  refine ⟨hlarge.trans h.noLargeReduction, ?_, ?_, ?_, ?_, h.limit_le, ?_, ?_, ?_, ?_, ?_, ?_⟩
  · exact hcubic ▸ h.connections
  · exact hmin ▸ h.minimum
  · rw [hmax, hinitialMax]
    exact h.maximum
  · exact hmax ▸ h.maximum_eq
  · exact hinitial ▸ h.initial
  · exact hinitial ▸ h.initial_le
  · exact hwindow ▸ h.low
  · rw [hwindow, hmax]
    exact h.high
  · exact hcubic ▸ h.lastMax
  · rw [hcubic, hwindow, hmax, hgrowth]
    exact h.estimated

/-- Another window within the limits. -/
theorem Sized.set (h : Sized limit s) {window : UInt64} {cubic : MinervaBytes}
    {growth : CubicGrowth} (hlow : 2920 ≤ window.toNat)
    (hhigh : window.toNat < s.maxCongestionWindow.toNat + 1460)
    (hn : cubic.numConnections = 2) (hlast : cubic.lastMaxCongestionWindow.toNat ≤ 16000000)
    (hestimated : cubic.epoch ≠ 0 → window.toNat < s.maxCongestionWindow.toNat →
      MinervaBytes.Estimated growth window.toNat) :
    Sized limit { s with congestionWindow := window, cubic := cubic, growth := growth } where
  noLargeReduction := h.noLargeReduction
  connections := hn
  minimum := h.minimum
  maximum := h.maximum
  maximum_eq := h.maximum_eq
  limit_le := h.limit_le
  initial := h.initial
  initial_le := h.initial_le
  low := hlow
  high := hhigh
  lastMax := hlast
  estimated := hestimated

/-! ### Weights and sizes that occur -/

/-- A weight that is not below the share that a loss takes from two connections. -/
def Weighty (linkWeight : Option ℚ) : Prop := ∀ w ∈ linkWeight, 3 / 37 ≤ w

instance : (linkWeight : Option ℚ) → Decidable (Weighty linkWeight)
  | none => isTrue fun w h => absurd h (Option.not_mem_none w)
  | some w => decidable_of_iff (3 / 37 ≤ w)
    ⟨fun h _ hw => Option.some.inj hw ▸ h, fun h => h w rfl⟩

theorem Sized.weighs (h : Sized limit s) {linkWeight : Option ℚ} (hw : Weighty linkWeight) :
    s.cubic.Weighs linkWeight := by
  have hshare : s.cubic.lossShare = 3 / 37 := by
    unfold MinervaBytes.lossShare
    rw [h.connections]
    norm_num
  unfold MinervaBytes.Weighs
  rw [hshare]
  exact hw

/-! ### One call -/

theorem bulk_maybeExitSlowstart (s : MinervaSender) (e : CongestionEvent) :
    Same bulk s (s.maybeExitSlowstart e) := by
  unfold maybeExitSlowstart
  exact Same.ite (Same.ite rfl rfl) rfl

theorem Sized.maximum_le (h : Sized limit s) : s.maxCongestionWindow.toNat ≤ 14600000 :=
  h.maximum_eq.le.trans h.limit_le

theorem Sized.lt (h : Sized limit s) : s.congestionWindow.toNat < 2 ^ 31 := by
  have hhigh := h.high
  have hmax := h.maximum_le
  omega

theorem Sized.onPacketLost (h : Sized limit s) (hw : Weighty s.linkWeight) (priorInFlight : ℕ)
    (packet : LostPacket) : Sized limit (s.onPacketLost priorInFlight packet) := by
  by_cases hcut : s.precedesCutback packet.packetNumber = true
  · refine h.of_bulk ?_
    unfold MinervaSender.onPacketLost
    rw [TcpMinervaSenderBytes.onPacketLost_of_precedes packet.bytesLost h.noLargeReduction hcut]
    rfl
  · obtain ⟨hle, hlast, hn, hepoch⟩ :=
      MinervaBytes.afterPacketLoss_spec h.connections (h.weighs hw) h.lt
    have hwindow := s.cutTo_toNat
    have hmin := h.minimum
    have hlow := h.low
    have hhigh := h.high
    have hmax := h.maximum_le
    have hset :
        Sized limit { s with congestionWindow := s.cutTo, cubic := _, growth := s.growth } :=
      h.set (by omega) (by omega) (hn.trans h.connections) (by omega) fun hne => absurd hepoch hne
    refine hset.of_bulk ?_
    unfold MinervaSender.onPacketLost
    rw [TcpMinervaSenderBytes.onPacketLost_eq packet.bytesLost h.noLargeReduction hcut]
    rfl

theorem toNat_min (a b : UInt64) : (min a b).toNat = min a.toNat b.toNat := by
  show (if a ≤ b then a else b).toNat = _
  split
  · next h => exact (min_eq_left (UInt64.le_iff_toNat_le.mp h)).symm
  · next h => exact (min_eq_right (UInt64.lt_iff_toNat_lt.mp (UInt64.not_le.mp h)).le).symm

theorem toNat_max (a b : UInt64) : (max a b).toNat = max a.toNat b.toNat := by
  show (if a ≤ b then b else a).toNat = _
  split
  · next h => exact (max_eq_right (UInt64.le_iff_toNat_le.mp h)).symm
  · next h => exact (max_eq_left (UInt64.lt_iff_toNat_lt.mp (UInt64.not_le.mp h)).le).symm

/-- The window of slow start, one packet larger. -/
theorem Sized.toNat_add (h : Sized limit s) :
    (s.congestionWindow + kDefaultTCPMSS).toNat = s.congestionWindow.toNat + 1460 := by
  have hlt := h.lt
  rw [UInt64.toNat_add]
  show (s.congestionWindow.toNat + 1460) % 2 ^ 64 = _
  omega

/-- An acknowledgement in congestion avoidance, below the maximum. -/
def avoid (s : MinervaSender) (ackedBytes minRtt eventTime : ℕ) : MinervaBytes × CubicGrowth × ℕ :=
  s.cubic.congestionWindowAfterAck s.growth s.linkWeight ackedBytes s.congestionWindow.toNat minRtt
    eventTime

theorem avoid_frame (s : MinervaSender) (ackedBytes minRtt eventTime : ℕ) :
    (s.avoid ackedBytes minRtt eventTime).1.numConnections = s.cubic.numConnections ∧
      (s.avoid ackedBytes minRtt eventTime).1.lastMaxCongestionWindow
        = s.cubic.lastMaxCongestionWindow :=
  ⟨MinervaBytes.numConnections_startEpoch, MinervaBytes.lastMax_startEpoch⟩

theorem toNat_avoid (s : MinervaSender) (ackedBytes minRtt eventTime : ℕ) :
    (min s.maxCongestionWindow (UInt64.ofNat (s.avoid ackedBytes minRtt eventTime).2.2)).toNat
      = min s.maxCongestionWindow.toNat (s.avoid ackedBytes minRtt eventTime).2.2 := by
  have hlt : (s.avoid ackedBytes minRtt eventTime).2.2 < 2 ^ 64 := MinervaBytes.afterAck_window_lt
  rw [toNat_min, UInt64.toNat_ofNat', Nat.mod_eq_of_lt hlt]

/-- What an acknowledgement outside of recovery can do: nothing at the maximum, add a packet in slow
start, or follow the curve. -/
theorem maybeIncreaseCwnd_cases (s : MinervaSender) (ackedBytes minRtt eventTime : ℕ) :
    s.maybeIncreaseCwnd ackedBytes minRtt eventTime = s ∨
      (s.congestionWindow.toNat < s.maxCongestionWindow.toNat ∧
        s.congestionWindow.toNat < s.slowstartThreshold.toNat ∧
        s.maybeIncreaseCwnd ackedBytes minRtt eventTime
          = { s with congestionWindow := s.congestionWindow + kDefaultTCPMSS }) ∨
      (s.congestionWindow.toNat < s.maxCongestionWindow.toNat ∧
        s.slowstartThreshold.toNat ≤ s.congestionWindow.toNat ∧
        s.maybeIncreaseCwnd ackedBytes minRtt eventTime
          = { s with
              cubic := (s.avoid ackedBytes minRtt eventTime).1
              growth := (s.avoid ackedBytes minRtt eventTime).2.1
              congestionWindow := min s.maxCongestionWindow
                (UInt64.ofNat (s.avoid ackedBytes minRtt eventTime).2.2) }) := by
  unfold maybeIncreaseCwnd
  split
  · exact Or.inl rfl
  · next hbelow =>
    rw [UInt64.not_le, UInt64.lt_iff_toNat_lt] at hbelow
    right
    split
    · next hslow =>
      exact Or.inl ⟨hbelow, UInt64.lt_iff_toNat_lt.mp (of_decide_eq_true hslow), rfl⟩
    · next hslow =>
      have hle : ¬s.congestionWindow < s.slowstartThreshold := fun h => hslow (decide_eq_true h)
      exact Or.inr ⟨hbelow, UInt64.le_iff_toNat_le.mp (UInt64.not_lt.mp hle), rfl⟩

theorem Sized.maybeIncreaseCwnd (h : Sized limit s) (hw : Weighty s.linkWeight) {ackedBytes : ℕ}
    (hacked : ackedBytes < 2 ^ 32) (minRtt eventTime : ℕ) :
    Sized limit (s.maybeIncreaseCwnd ackedBytes minRtt eventTime) := by
  have hlow := h.low
  have hlt := h.lt
  obtain heq | ⟨hbelow, -, heq⟩ | ⟨hbelow, -, heq⟩ :=
    s.maybeIncreaseCwnd_cases ackedBytes minRtt eventTime
  · exact heq.symm ▸ h
  · have hadd := h.toNat_add
    rw [heq]
    refine h.set (by omega) (by omega) h.connections h.lastMax fun hepoch _ => ?_
    obtain ⟨hcount, htwo, hle⟩ := h.estimated hepoch hbelow
    exact ⟨hcount, htwo, by omega⟩
  · obtain ⟨⟨hcount, htwo, hle⟩, -⟩ := MinervaBytes.estimated_afterAck minRtt eventTime
      (h.weighs hw) h.connections (fun hepoch => h.estimated hepoch hbelow) hlow (by omega) hacked
    obtain ⟨hn, hlast⟩ := s.avoid_frame ackedBytes minRtt eventTime
    have hwindow := s.toNat_avoid ackedBytes minRtt eventTime
    change _ ≤ (s.avoid ackedBytes minRtt eventTime).2.2 at hle
    have htwo' := htwo.trans hle
    rw [heq]
    refine h.set (by omega) (by omega) (hn.trans h.connections)
      ((congrArg UInt64.toNat hlast).le.trans h.lastMax) fun _ hfree => ⟨hcount, htwo, ?_⟩
    -- below the maximum the window is the one of the curve
    rw [hwindow] at hfree ⊢
    exact hle.trans (by omega)

/-! ### Events -/

theorem linkWeight_onPacketLost (h : Sized limit s) (priorInFlight : ℕ) (packet : LostPacket) :
    (s.onPacketLost priorInFlight packet).linkWeight = s.linkWeight := by
  unfold MinervaSender.onPacketLost
  by_cases hcut : s.precedesCutback packet.packetNumber = true
  · rw [TcpMinervaSenderBytes.onPacketLost_of_precedes packet.bytesLost h.noLargeReduction hcut]
  · rw [TcpMinervaSenderBytes.onPacketLost_eq packet.bytesLost h.noLargeReduction hcut]

theorem linkWeight_maybeIncreaseCwnd (s : MinervaSender) (ackedBytes minRtt eventTime : ℕ) :
    (s.maybeIncreaseCwnd ackedBytes minRtt eventTime).linkWeight = s.linkWeight :=
  Same.ite (g := fun t : MinervaSender => t.linkWeight) rfl (Same.ite rfl rfl)

/-- What an acknowledgement does: it is counted for the rate reduction, or the window may grow. -/
theorem onPacketAcked_cases (s : MinervaSender) (minRtt eventTime : ℕ) (packet : AckedPacket) :
    ((s.updateLargestAcked packet.packetNumber).inRecovery = true ∧
        s.onPacketAcked minRtt eventTime packet
          = { s.updateLargestAcked packet.packetNumber with
              prr := s.prr.onPacketAcked packet.bytesAcked }) ∨
      ((s.updateLargestAcked packet.packetNumber).inRecovery = false ∧
        ∃ hybrid, s.onPacketAcked minRtt eventTime packet
          = { (s.updateLargestAcked packet.packetNumber).maybeIncreaseCwnd packet.bytesAcked minRtt
                eventTime with hybridSlowStart := hybrid }) := by
  unfold MinervaSender.onPacketAcked
  simp only
  split
  · next h => exact Or.inl ⟨h, rfl⟩
  · next h =>
    refine Or.inr ⟨Bool.not_eq_true _ ▸ h, ?_⟩
    split
    · exact ⟨_, rfl⟩
    · exact ⟨_, rfl⟩

/-- The window within its limits, while a weight is used that keeps it there. -/
def Ready (limit : ℕ) (s : MinervaSender) : Prop := Sized limit s ∧ Weighty s.linkWeight

theorem Ready.onPacketLost (h : Ready limit s) (priorInFlight : ℕ) (packet : LostPacket) :
    Ready limit (s.onPacketLost priorInFlight packet) :=
  ⟨h.1.onPacketLost h.2 priorInFlight packet,
    (linkWeight_onPacketLost h.1 priorInFlight packet).symm ▸ h.2⟩

theorem Ready.onPacketAcked (h : Ready limit s) (minRtt eventTime : ℕ) {packet : AckedPacket}
    (hpacket : packet.bytesAcked < 2 ^ 32) :
    Ready limit (s.onPacketAcked minRtt eventTime packet) := by
  have hlargest : Sized limit (s.updateLargestAcked packet.packetNumber) := h.1.of_bulk rfl
  obtain ⟨-, heq⟩ | ⟨-, hybrid, heq⟩ := onPacketAcked_cases s minRtt eventTime packet
  · rw [heq]
    exact ⟨hlargest.of_bulk rfl, h.2⟩
  · have hgrown := hlargest.maybeIncreaseCwnd h.2 hpacket minRtt eventTime
    have hweight := linkWeight_maybeIncreaseCwnd (s.updateLargestAcked packet.packetNumber)
      packet.bytesAcked minRtt eventTime
    rw [heq]
    refine ⟨hgrown.of_bulk rfl, ?_⟩
    show Weighty ((s.updateLargestAcked packet.packetNumber).maybeIncreaseCwnd _ _ _).linkWeight
    rw [hweight]
    exact h.2

theorem Ready.onCongestionEvent (h : Ready limit s) {e : CongestionEvent}
    (he : ∀ packet ∈ e.ackedPackets, packet.bytesAcked < 2 ^ 32) :
    Ready limit (s.onCongestionEvent e) := by
  have hexit : Ready limit (s.maybeExitSlowstart e) := by
    have hweight : (s.maybeExitSlowstart e).linkWeight = s.linkWeight :=
      Same.ite (g := fun t : MinervaSender => t.linkWeight) (Same.ite rfl rfl) rfl
    exact ⟨h.1.of_bulk (bulk_maybeExitSlowstart s e), hweight.symm ▸ h.2⟩
  have hlost : Ready limit (run (fun s packet => s.onPacketLost e.priorInFlight packet)
      (s.maybeExitSlowstart e) e.lostPackets) :=
    run_invariant hexit fun t ht packet _ => ht.onPacketLost e.priorInFlight packet
  exact run_invariant (P := Ready limit) hlost
    fun t ht packet hmem => ht.onPacketAcked e.minRtt e.eventTime (he packet hmem)

/-! ### Runs -/

/-- Packets have a size that can be, and the window is set from outside only before an epoch, and
within the limits. -/
def Action.Fits (s : MinervaSender) : Action → Prop
  | .congestionEvent e => ∀ packet ∈ e.ackedPackets, packet.bytesAcked < 2 ^ 32
  | .setInitialCongestionWindowInPackets congestionWindow =>
    s.cubic.epoch = 0 ∧ 2 ≤ congestionWindow.toNat ∧
      congestionWindow.toNat * 1460 ≤ s.maxCongestionWindow.toNat
  | .adjustNetworkParameters _ _ => s.cubic.epoch = 0 ∧ 292000 ≤ s.maxCongestionWindow.toNat
  | _ => True

instance (s : MinervaSender) : (a : Action) → Decidable (a.Fits s)
  | .congestionEvent e =>
    inferInstanceAs (Decidable (∀ packet ∈ e.ackedPackets, packet.bytesAcked < 2 ^ 32))
  | .setInitialCongestionWindowInPackets congestionWindow =>
    inferInstanceAs (Decidable (s.cubic.epoch = 0 ∧ 2 ≤ congestionWindow.toNat ∧
      congestionWindow.toNat * 1460 ≤ s.maxCongestionWindow.toNat))
  | .adjustNetworkParameters _ _ =>
    inferInstanceAs (Decidable (s.cubic.epoch = 0 ∧ 292000 ≤ s.maxCongestionWindow.toNat))
  | .packetSent .. | .canSend _ | .retransmissionTimeout _ | .connectionMigration => isTrue trivial

/-- What is asked of a call, and of the weight it is made with. -/
def Allowed (s : MinervaSender) (x : Option ℚ × Action) : Prop := Weighty x.1 ∧ x.2.Fits s

instance (s : MinervaSender) (x : Option ℚ × Action) : Decidable (Allowed s x) := instDecidableAnd

theorem toNat_mul_kDefaultTCPMSS (window : UInt64) (h : window.toNat * 1460 < 2 ^ 64) :
    (window * kDefaultTCPMSS).toNat = window.toNat * 1460 := by
  rw [UInt64.toNat_mul]
  exact Nat.mod_eq_of_lt h

theorem bulk_onPacketSent (s : MinervaSender) (packetNumber bytes : ℕ) (isRetransmittable : Bool) :
    Same bulk s (s.onPacketSent packetNumber bytes isRetransmittable) := Same.ite rfl rfl

theorem Sized.onRetransmissionTimeout (h : Sized limit s) (packetsRetransmitted : Bool) :
    Sized limit (s.onRetransmissionTimeout packetsRetransmitted) := by
  have hmin := h.minimum
  have hmax := h.initial.trans h.initial_le
  rw [← h.maximum_eq] at hmax
  have hset : Sized limit { s with
      congestionWindow := s.minCongestionWindow, cubic := s.cubic.resetCubicState,
      growth := .reset } :=
    h.set (by omega) (by omega) h.connections (Nat.zero_le _) fun hne => absurd rfl hne
  unfold MinervaSender.onRetransmissionTimeout
  simp only
  split
  · exact h.of_bulk rfl
  · exact hset.of_bulk rfl

theorem Sized.onConnectionMigration (h : Sized limit s) : Sized limit s.onConnectionMigration := by
  have hinitial := h.initial
  have hle := h.initial_le
  rw [← h.maximum_eq] at hle
  have hset : Sized limit { s with
      congestionWindow := s.initialTcpCongestionWindow, cubic := s.cubic.resetCubicState,
      growth := .reset } :=
    h.set hinitial (by omega) h.connections (Nat.zero_le _) fun hne => absurd rfl hne
  refine hset.of_bulk ?_
  show (_, s.initialMaxTcpCongestionWindow, _) = (_, s.maxCongestionWindow, _)
  rw [h.maximum]
  rfl

theorem Sized.setInitialCongestionWindowInPackets (h : Sized limit s) (hepoch : s.cubic.epoch = 0)
    {window : UInt64} (htwo : 2 ≤ window.toNat)
    (hle : window.toNat * 1460 ≤ s.maxCongestionWindow.toNat) :
    Sized limit (s.setInitialCongestionWindowInPackets window) := by
  have hmax := h.maximum_le
  have hwindow := toNat_mul_kDefaultTCPMSS window (by omega)
  exact h.set (by omega) (by omega) h.connections h.lastMax fun hne => absurd hepoch hne

theorem Sized.adjustNetworkParameters (h : Sized limit s) (hepoch : s.cubic.epoch = 0)
    (hmax : 292000 ≤ s.maxCongestionWindow.toNat) (bandwidth rtt : ℕ) :
    Sized limit (s.adjustNetworkParameters bandwidth rtt) := by
  have hmin := h.minimum
  unfold MinervaSender.adjustNetworkParameters
  split
  · exact h
  · have hlimit : (kMaxResumptionCongestionWindow * kDefaultTCPMSS).toNat = 292000 := by decide
    have hwindow := toNat_max s.minCongestionWindow
      (min (UInt64.ofNat (toBytesPerPeriod bandwidth rtt))
        (kMaxResumptionCongestionWindow * kDefaultTCPMSS))
    rw [toNat_min, hlimit] at hwindow
    exact h.set (by omega) (by omega) h.connections h.lastMax fun hne => absurd hepoch hne

/-- Every allowed call leaves the window within its limits. -/
theorem Sized.step (h : Sized limit s) {x : Option ℚ × Action} (hx : Allowed s x) :
    Sized limit (s.step x) := by
  obtain ⟨linkWeight, a⟩ := x
  obtain ⟨hweight, ha⟩ := hx
  have hs : Sized limit { s with linkWeight := linkWeight } := h.of_bulk rfl
  cases a with
  | congestionEvent e => exact (Ready.onCongestionEvent ⟨hs, hweight⟩ ha).1
  | packetSent bytesInFlight packetNumber bytes isRetransmittable =>
    exact hs.of_bulk (bulk_onPacketSent _ packetNumber bytes isRetransmittable)
  | canSend bytesInFlight => exact hs
  | retransmissionTimeout packetsRetransmitted =>
    exact hs.onRetransmissionTimeout packetsRetransmitted
  | connectionMigration => exact hs.onConnectionMigration
  | setInitialCongestionWindowInPackets congestionWindow =>
    exact hs.setInitialCongestionWindowInPackets ha.1 ha.2.1 ha.2.2
  | adjustNetworkParameters bandwidth rtt =>
    exact hs.adjustNetworkParameters ha.1 ha.2 bandwidth rtt

/-- A window of at least two packets, and a maximum of at most ten thousand. -/
structure Arguments.Sane (a : Arguments) : Prop where
  two_le : 2 ≤ a.initialTcpCongestionWindow.toNat
  le_max : a.initialTcpCongestionWindow.toNat ≤ a.maxCongestionWindow.toNat
  max_le : a.maxCongestionWindow.toNat ≤ 10000

theorem sized_new (name : ℕ) {a : Arguments} (ha : a.Sane) :
    Sized (a.maxCongestionWindow.toNat * 1460) (new name a) := by
  obtain ⟨htwo, hle, hmax⟩ := ha
  have hinitial := toNat_mul_kDefaultTCPMSS a.initialTcpCongestionWindow (by omega)
  have hmaximum := toNat_mul_kDefaultTCPMSS a.maxCongestionWindow (by omega)
  refine ⟨rfl, rfl, rfl, rfl, hmaximum, by omega, ?_, ?_, ?_, ?_, Nat.zero_le _,
    fun hne => absurd rfl hne⟩
  · show 2920 ≤ (a.initialTcpCongestionWindow * kDefaultTCPMSS).toNat
    omega
  · show (a.initialTcpCongestionWindow * kDefaultTCPMSS).toNat ≤ _
    omega
  · show 2920 ≤ (a.initialTcpCongestionWindow * kDefaultTCPMSS).toNat
    omega
  · show (a.initialTcpCongestionWindow * kDefaultTCPMSS).toNat
      < (a.maxCongestionWindow * kDefaultTCPMSS).toNat + 1460
    omega

/-- An event at a time in milliseconds, with a round trip time of 50 ms. -/
def event (millis : ℕ) (acked : List AckedPacket) (lost : List LostPacket) : Action :=
  .congestionEvent ⟨true, 50000, 50000, 4380, millis * 1000, acked, lost⟩

/-- Of the first three packets one is lost. Then two more are acknowledged, with a weight. -/
def oneLoss : List (Option ℚ × Action) :=
  [(none, .packetSent 0 1 1460 true), (none, .packetSent 1460 2 1460 true),
    (none, .packetSent 2920 3 1460 true), (none, event 100 [⟨1, 1460⟩, ⟨3, 1460⟩] [⟨2, 1460⟩]),
    (some 2, .packetSent 0 4 1460 true), (some 2, event 200 [⟨4, 1460⟩] []),
    (some 2, .packetSent 0 5 1460 true), (some 2, event 300 [⟨5, 1460⟩] [])]

/-- Within an epoch, the sender is in congestion avoidance and the window has not left the curve. -/
structure Growing (limit clock : ℕ) (s : MinervaSender) : Prop extends Sized limit s where
  threshold : s.cubic.epoch ≠ 0 → s.slowstartThreshold.toNat ≤ s.congestionWindow.toNat
  curve : s.cubic.epoch ≠ 0 → s.congestionWindow.toNat < s.maxCongestionWindow.toNat →
    MinervaBytes.OnCurve s.cubic s.growth clock s.congestionWindow.toNat

variable {clock : ℕ}

/-- Between epochs there is nothing to say. -/
theorem Sized.growing (h : Sized limit s) (hepoch : s.cubic.epoch = 0) (clock : ℕ) :
    Growing limit clock s :=
  ⟨h, fun hne => absurd hepoch hne, fun hne => absurd hepoch hne⟩

theorem Growing.of_bulk (h : Growing limit clock s) (hst : Same bulk s t)
    (hthreshold : t.slowstartThreshold = s.slowstartThreshold ∨
      t.slowstartThreshold = t.congestionWindow) : Growing limit clock t := by
  have hmax : t.maxCongestionWindow = s.maxCongestionWindow := congrArg (fun b => b.2.1) hst
  have hwindow : t.congestionWindow = s.congestionWindow := congrArg (fun b => b.2.2.1) hst
  have hcubic : t.cubic = s.cubic := congrArg (fun b => b.2.2.2.1) hst
  have hgrowth : t.growth = s.growth := congrArg (fun b => b.2.2.2.2) hst
  refine ⟨h.toSized.of_bulk hst, fun hepoch => ?_, ?_⟩
  · obtain hsame | hset := hthreshold
    · rw [hsame, hwindow]
      exact h.threshold (hcubic ▸ hepoch)
    · rw [hset]
  · rw [hcubic, hgrowth, hwindow, hmax]
    exact h.curve

/-- The sender at the time `now` of an event: since its last acknowledgement times are in order, and
the epoch has not lasted longer than 30 seconds. -/
structure Timely (limit now : ℕ) (s : MinervaSender) : Prop where
  growing : ∃ clock ≤ now, Growing limit clock s
  weighty : Weighty s.linkWeight
  due : s.cubic.epoch ≠ 0 → now ≤ s.cubic.epoch + 30000000

variable {now : ℕ}

theorem Timely.sized (h : Timely limit now s) : Sized limit s := by
  obtain ⟨clock, -, hgrowing⟩ := h.growing
  exact hgrowing.toSized

theorem Timely.of_bulk (h : Timely limit now s) (hst : Same bulk s t)
    (hthreshold : t.slowstartThreshold = s.slowstartThreshold ∨
      t.slowstartThreshold = t.congestionWindow) (hweight : t.linkWeight = s.linkWeight) :
    Timely limit now t := by
  obtain ⟨clock, hclock, hgrowing⟩ := h.growing
  have hcubic : t.cubic = s.cubic := congrArg (fun b => b.2.2.2.1) hst
  refine ⟨⟨clock, hclock, hgrowing.of_bulk hst hthreshold⟩, hweight ▸ h.weighty, ?_⟩
  rw [hcubic]
  exact h.due

theorem ticks_le {epoch now : ℕ} (h : now ≤ epoch + 30000000) :
    MinervaBytes.ticks epoch now ≤ CubicGrowth.longestTime := by
  unfold MinervaBytes.ticks CubicGrowth.longestTime
  omega

/-- An acknowledgement outside of recovery does not make the window smaller. -/
theorem Timely.maybeIncreaseCwnd {ackedBytes minRtt eventTime : ℕ}
    (h : Timely limit (eventTime + minRtt) s) (hrtt : minRtt ≤ 30000000)
    (hacked : ackedBytes < 2 ^ 32) :
    Timely limit (eventTime + minRtt) (s.maybeIncreaseCwnd ackedBytes minRtt eventTime) ∧
      s.congestionWindow.toNat
        ≤ (s.maybeIncreaseCwnd ackedBytes minRtt eventTime).congestionWindow.toNat := by
  have hsized := h.sized.maybeIncreaseCwnd h.weighty hacked minRtt eventTime
  obtain ⟨clock, hclock, hgrowing⟩ := h.growing
  obtain heq | ⟨hbelow, hslow, heq⟩ | ⟨hbelow, havoid, heq⟩ :=
    s.maybeIncreaseCwnd_cases ackedBytes minRtt eventTime
  · rw [heq]
    exact ⟨h, le_rfl⟩
  · rw [heq] at hsized ⊢
    -- in slow start there is no epoch
    have hepoch : s.cubic.epoch = 0 := by
      by_contra hne
      exact absurd (hgrowing.threshold hne) (not_le.mpr hslow)
    have hadd := h.sized.toNat_add
    refine ⟨⟨⟨clock, hclock, hsized.growing hepoch clock⟩, h.weighty, h.due⟩, ?_⟩
    show _ ≤ (s.congestionWindow + kDefaultTCPMSS).toNat
    omega
  · have hlong : MinervaBytes.InTime s.cubic clock minRtt eventTime := by
      refine ⟨hclock, ?_⟩
      split
      · exact ticks_le (by omega)
      · next hne => exact ticks_le (h.due hne)
    have hlt := h.sized.lt
    obtain ⟨hle, hcurve⟩ := MinervaBytes.onCurve_afterAck (h.sized.weighs h.weighty)
      h.sized.connections h.sized.lastMax (fun hepoch => h.sized.estimated hepoch hbelow)
      h.sized.low (by omega) hacked (fun hepoch => hgrowing.curve hepoch hbelow) hlong
    have hwindow := s.toNat_avoid ackedBytes minRtt eventTime
    have hgrown : s.congestionWindow.toNat
        ≤ min s.maxCongestionWindow.toNat (s.avoid ackedBytes minRtt eventTime).2.2 :=
      le_min hbelow.le hle
    rw [← hwindow] at hgrown
    rw [heq] at hsized ⊢
    refine
      ⟨⟨⟨_, le_rfl, hsized, fun _ => havoid.trans hgrown, fun _ _ => ?_⟩, h.weighty, ?_⟩, hgrown⟩
    · exact hcurve.mono (hwindow.le.trans (min_le_right _ _))
    · intro hne
      change (s.cubic.startEpoch s.growth ackedBytes _ eventTime).1.epoch ≠ 0 at hne
      show _ ≤ (s.cubic.startEpoch s.growth ackedBytes _ eventTime).1.epoch + 30000000
      rw [MinervaBytes.epoch_startEpoch]
      split
      · omega
      · next hepoch => exact h.due hepoch

theorem Timely.onPacketLost (h : Timely limit now s) (priorInFlight : ℕ) (packet : LostPacket) :
    Timely limit now (s.onPacketLost priorInFlight packet) := by
  have hready := Ready.onPacketLost ⟨h.sized, h.weighty⟩ priorInFlight packet
  by_cases hcut : s.precedesCutback packet.packetNumber = true
  · refine h.of_bulk ?_ (Or.inl ?_) (linkWeight_onPacketLost h.sized priorInFlight packet)
    · unfold MinervaSender.onPacketLost
      rw [TcpMinervaSenderBytes.onPacketLost_of_precedes packet.bytesLost
        h.sized.noLargeReduction hcut]
      rfl
    · unfold MinervaSender.onPacketLost
      rw [TcpMinervaSenderBytes.onPacketLost_of_precedes packet.bytesLost
        h.sized.noLargeReduction hcut]
  · have hepoch : (s.onPacketLost priorInFlight packet).cubic.epoch = 0 := by
      unfold MinervaSender.onPacketLost
      rw [TcpMinervaSenderBytes.onPacketLost_eq packet.bytesLost h.sized.noLargeReduction hcut]
      rfl
    exact ⟨⟨now, le_rfl, hready.1.growing hepoch now⟩, hready.2, fun hne => absurd hepoch hne⟩

theorem Timely.onPacketAcked {minRtt eventTime : ℕ} (h : Timely limit (eventTime + minRtt) s)
    (hrtt : minRtt ≤ 30000000) {packet : AckedPacket} (hpacket : packet.bytesAcked < 2 ^ 32) :
    Timely limit (eventTime + minRtt) (s.onPacketAcked minRtt eventTime packet) ∧
      s.congestionWindow.toNat
        ≤ (s.onPacketAcked minRtt eventTime packet).congestionWindow.toNat := by
  have hlargest : Timely limit (eventTime + minRtt) (s.updateLargestAcked packet.packetNumber) :=
    h.of_bulk rfl (Or.inl rfl) rfl
  obtain ⟨-, heq⟩ | ⟨-, hybrid, heq⟩ := onPacketAcked_cases s minRtt eventTime packet
  · rw [heq]
    exact ⟨hlargest.of_bulk rfl (Or.inl rfl) rfl, le_rfl⟩
  · obtain ⟨hgrown, hle⟩ := hlargest.maybeIncreaseCwnd hrtt hpacket
    rw [heq]
    exact ⟨hgrown.of_bulk rfl (Or.inl rfl) rfl, hle⟩

theorem Timely.maybeExitSlowstart (h : Timely limit now s) (e : CongestionEvent) :
    Timely limit now (s.maybeExitSlowstart e) ∧
      (s.maybeExitSlowstart e).congestionWindow = s.congestionWindow := by
  have hbulk := bulk_maybeExitSlowstart s e
  refine ⟨h.of_bulk hbulk ?_ ?_, congrArg (fun b => b.2.2.1) hbulk⟩
  · unfold MinervaSender.maybeExitSlowstart
    split
    · simp only
      split
      · exact Or.inr rfl
      · exact Or.inl rfl
    · exact Or.inl rfl
  · exact Same.ite (g := fun t : MinervaSender => t.linkWeight) (Same.ite rfl rfl) rfl

/-- An event keeps the place on the curve; without losses it does not make the window smaller. -/
theorem Timely.onCongestionEvent {e : CongestionEvent} (h : Timely limit (e.eventTime + e.minRtt) s)
    (hrtt : e.minRtt ≤ 30000000)
    (he : ∀ packet ∈ e.ackedPackets, packet.bytesAcked < 2 ^ 32) :
    Timely limit (e.eventTime + e.minRtt) (s.onCongestionEvent e) ∧
      (e.lostPackets = [] →
        s.congestionWindow.toNat ≤ (s.onCongestionEvent e).congestionWindow.toNat) := by
  obtain ⟨hexit, hwindow⟩ := h.maybeExitSlowstart e
  have hlost : Timely limit (e.eventTime + e.minRtt)
      (run (fun s packet => s.onPacketLost e.priorInFlight packet) (s.maybeExitSlowstart e)
        e.lostPackets) :=
    run_invariant hexit fun t ht packet _ => ht.onPacketLost e.priorInFlight packet
  -- the acknowledgements keep both
  have hacked : ∀ t : MinervaSender, Timely limit (e.eventTime + e.minRtt) t →
      Timely limit (e.eventTime + e.minRtt) (run (fun s packet =>
          s.onPacketAcked e.minRtt e.eventTime packet) t e.ackedPackets) ∧
        t.congestionWindow.toNat ≤ (run (fun s packet => s.onPacketAcked e.minRtt e.eventTime
          packet) t e.ackedPackets).congestionWindow.toNat := by
    intro t ht
    refine run_invariant (P := fun u : MinervaSender => Timely limit (e.eventTime + e.minRtt) u ∧
      t.congestionWindow.toNat ≤ u.congestionWindow.toNat) ⟨ht, le_rfl⟩ fun u hu packet hmem => ?_
    obtain ⟨hu', hle⟩ := hu.1.onPacketAcked hrtt (he packet hmem)
    exact ⟨hu', hu.2.trans hle⟩
  refine ⟨(hacked _ hlost).1, fun hnone => ?_⟩
  have hle := (hacked _ hexit).2
  rw [hwindow] at hle
  unfold MinervaSender.onCongestionEvent
  rw [hnone]
  exact hle

/-! ## Times -/

/-- A sender with the time of its last event, a round trip later. -/
structure Timed where
  sender : MinervaSender
  clock : ℕ

/-- The time of a call; the others than events have none. -/
def Action.time (old : ℕ) : Action → ℕ
  | .congestionEvent e => e.eventTime + e.minRtt
  | _ => old

def Timed.step (t : Timed) (x : Option ℚ × Action) : Timed :=
  ⟨t.sender.step x, x.2.time t.clock⟩

/-- The time of an event, together with the minimum round trip time, does not go back; the round
trip time is at most 30 seconds, and so is an epoch. -/
def Action.Punctual (t : Timed) : Action → Prop
  | .congestionEvent e =>
    t.clock ≤ e.eventTime + e.minRtt ∧ e.minRtt ≤ 30000000 ∧
      (t.sender.cubic.epoch ≠ 0 → e.eventTime + e.minRtt ≤ t.sender.cubic.epoch + 30000000)
  | _ => True

instance (t : Timed) : (a : Action) → Decidable (a.Punctual t)
  | .congestionEvent e =>
    inferInstanceAs (Decidable (t.clock ≤ e.eventTime + e.minRtt ∧ e.minRtt ≤ 30000000 ∧
      (t.sender.cubic.epoch ≠ 0 → e.eventTime + e.minRtt ≤ t.sender.cubic.epoch + 30000000)))
  | .packetSent .. | .canSend _ | .retransmissionTimeout _ | .connectionMigration
  | .setInitialCongestionWindowInPackets _ | .adjustNetworkParameters .. => isTrue trivial

/-- What the run keeps. -/
def Timed.Inv (limit : ℕ) (t : Timed) : Prop := ∃ clock ≤ t.clock, Growing limit clock t.sender

theorem Timed.timely {t : Timed} (h : t.Inv limit) {linkWeight : Option ℚ} {e : CongestionEvent}
    (hx : Allowed t.sender (linkWeight, .congestionEvent e))
    (htime : Action.Punctual t (.congestionEvent e)) :
    Timely limit (e.eventTime + e.minRtt) { t.sender with linkWeight := linkWeight } := by
  obtain ⟨clock, hclock, hgrowing⟩ := h
  exact ⟨⟨clock, hclock.trans htime.1, hgrowing.of_bulk rfl (Or.inl rfl)⟩, hx.1, htime.2.2⟩

/-- A punctual call leaves the window on the curve of its epoch, or outside of an epoch. -/
theorem Timed.Inv.step {t : Timed} (h : t.Inv limit) {x : Option ℚ × Action}
    (hx : Allowed t.sender x) (htime : x.2.Punctual t) : (t.step x).Inv limit := by
  obtain ⟨linkWeight, a⟩ := x
  obtain ⟨clock, hclock, hgrowing⟩ := h
  have hsized := hgrowing.toSized.step hx
  have hs : Growing limit clock { t.sender with linkWeight := linkWeight } :=
    hgrowing.of_bulk rfl (Or.inl rfl)
  cases a with
  | congestionEvent e =>
    exact (Timely.onCongestionEvent (Timed.timely ⟨clock, hclock, hgrowing⟩ hx htime) htime.2.1
      hx.2).1.growing
  | packetSent bytesInFlight packetNumber bytes isRetransmittable =>
    refine ⟨clock, hclock, hs.of_bulk (bulk_onPacketSent _ _ _ _) (Or.inl ?_)⟩
    exact Same.ite (g := fun t : MinervaSender => t.slowstartThreshold) rfl rfl
  | canSend bytesInFlight => exact ⟨clock, hclock, hs⟩
  | retransmissionTimeout packetsRetransmitted =>
    cases packetsRetransmitted with
    | false => exact ⟨clock, hclock, hs.of_bulk rfl (Or.inl rfl)⟩
    | true => exact ⟨clock, hclock, hsized.growing rfl clock⟩
  | connectionMigration => exact ⟨clock, hclock, hsized.growing rfl clock⟩
  | setInitialCongestionWindowInPackets congestionWindow =>
    exact ⟨clock, hclock, hsized.growing hx.2.1 clock⟩
  | adjustNetworkParameters bandwidth rtt =>
    refine ⟨clock, hclock, hsized.growing ?_ clock⟩
    have hcubic : Same (fun t : MinervaSender => t.cubic) { t.sender with linkWeight := linkWeight }
        ({ t.sender with linkWeight := linkWeight }.adjustNetworkParameters bandwidth rtt) :=
      Same.ite rfl rfl
    exact (congrArg MinervaBytes.epoch hcubic).trans hx.2.1

/-- In every run whose events are in order, each with its minimum round trip time, and whose epochs
last at most 30 seconds: an event without losses does not make the window smaller. Within an epoch
the curve before its origin is above zero, as the source asserts. -/
theorem acks_never_shrink (name : ℕ) {a : Arguments} (ha : a.Sane) (xs : List (Option ℚ × Action))
    (hxs : EveryStep Timed.step (fun t x => Allowed t.sender x ∧ x.2.Punctual t)
      ⟨new name a, 0⟩ xs) :
    EveryStep Timed.step (fun t x =>
      (∀ e, x.2 = .congestionEvent e → e.lostPackets = [] →
        t.sender.congestionWindow ≤ (t.sender.step x).congestionWindow) ∧
      (t.sender.cubic.epoch ≠ 0 → t.sender.congestionWindow < t.sender.maxCongestionWindow →
        ∀ offset ≤ t.sender.growth.timeToOriginPoint,
          CubicGrowth.deltaCongestionWindow offset < t.sender.growth.originPointCongestionWindow))
      ⟨new name a, 0⟩ xs := by
  have hinit : Timed.Inv (a.maxCongestionWindow.toNat * 1460) ⟨new name a, 0⟩ :=
    ⟨0, le_rfl, (sized_new name ha).growing rfl 0⟩
  refine hxs.consequence hinit (fun t x ht hx => ht.step hx.1 hx.2) fun t x ht hx => ⟨?_, ?_⟩
  · obtain ⟨linkWeight, action⟩ := x
    intro e he hnone
    change action = .congestionEvent e at he
    subst he
    rw [UInt64.le_iff_toNat_le]
    exact (Timely.onCongestionEvent (Timed.timely ht hx.1 hx.2) hx.2.2.1 hx.1.2).2 hnone
  · obtain ⟨clock, -, hgrowing⟩ := ht
    intro hepoch hbelow offset hoffset
    obtain ⟨-, ⟨start, hpos, hstarted⟩, -⟩ :=
      hgrowing.curve hepoch (UInt64.lt_iff_toNat_lt.mp hbelow)
    have hdelta := hstarted.delta_le offset hoffset
    have hstart := hstarted.le_origin
    omega

theorem acks_never_shrink_oneLoss :
    (run step (new 0 ⟨32, 2000⟩) (oneLoss.take 5)).congestionWindow
        ≤ (run step (new 0 ⟨32, 2000⟩) (oneLoss.take 6)).congestionWindow ∧
      (run step (new 0 ⟨32, 2000⟩) (oneLoss.take 5)).cubic.lastMaxCongestionWindow = 46720 := by
  have hsteps := acks_never_shrink 0 (a := ⟨32, 2000⟩) ⟨by decide, by decide, by decide⟩
    (oneLoss.take 6) (by decide +kernel)
  refine ⟨?_, by decide +kernel⟩
  exact hsteps.2.2.2.2.2.1.1 _ rfl rfl

end MinervaSender

end Cc
end LiveStream
