import LiveStream.Cc.GapModes
import LiveStream.Cc.PacingProposals
import LiveStream.Lib.Group

/-!
# The senders `BbrAdapter` and `BbrTarget`

`cc/bbr_adapter.cc` and `cc/target.cc` are one sender with two interfaces to the ABR algorithm.
The adapter's interface collects proposals for the pacing gain cycle and can forbid the probing of
the round trip time. The target's interface has a target rate that is averaged into the bandwidth,
and hands out the delivery rates. The sender is modelled once, over what it asks of its interface;
`BbrAdapter.hooks` and `BbrTarget.hooks` are the two.

The interface is a singleton: all connections of the server share it, and the thread of the ABR
algorithm calls it between their events. `BbrAdapter.methods` and `BbrTarget.methods` are these two
systems, as groups of senders.

What the bandwidth sampler, the map of unacknowledged packets, the round trip statistics and the
random numbers say is an input of an event. Floats are exact rationals, times are in microseconds
and bandwidths in bits per second. The filter of bandwidths, the recovery states and the shape of
an acknowledgement are those of `BbrGap`.
-/

namespace LiveStream
namespace Cc
namespace Bbr

open Lib
open BbrGap (MaxBandwidthFilter RecoveryState)
open BbrGap.Sender (AckedPacket isAfter kMinRttExpiry kProbeRttTime kMaxOutgoingPacketSize)

/-! ## Constants and arithmetic -/

def kDefaultTCPMSS : ℕ := 1460

def kMaxSegmentSize : ℕ := kDefaultTCPMSS

def kDefaultMinimumCongestionWindow : ℕ := 4 * kMaxSegmentSize

def kMinInitialCongestionWindow : ℕ := 10

def kMaxInitialCongestionWindow : ℕ := 200

def kDefaultHighGain : ℚ := 2885 / 1000

def kDerivedHighGain : ℚ := 2773 / 1000

def kDerivedHighCWNDGain : ℚ := 2

def kStartupAfterLossGain : ℚ := 3 / 2

def kStartupGrowthTarget : ℚ := 5 / 4

def kModerateProbeRttMultiplier : ℚ := 3 / 4

def kRoundTripsWithoutGrowthBeforeExitingStartup : ℕ := 3

/-- A number converted to `QuicByteCount`. -/
def toByteCount (x : ℚ) : ℕ := (truncate x).toNat

/-- The product of a float and a `QuicBandwidth`, which is rounded; the constructor clamps at
zero. -/
def scaleBandwidth (gain : ℚ) (bandwidth : ℕ) : ℕ := ⌊gain * bandwidth + 1 / 2⌋.toNat

/-- `QuicBandwidth::FromBytesAndTimeDelta`. -/
def fromBytesAndTimeDelta (bytes micros : ℕ) : ℕ := bytes * 1000000 / micros * 8

/-! ## The sender -/

/-- The reloadable flags, fixed for the process. -/
structure Flags where
  startupRateReduction : Bool
  lessProbeRtt : Bool
  flexibleAppLimited : Bool
  donotInjectBandwidth : Bool
  conservativeCwndAndPacingGains : Bool
  noBytesAckedInStartupRecovery : Bool
  oneMssConservation : Bool

/-- The values of `quic_flags_list.h`. -/
def Flags.default : Flags := ⟨false, false, false, false, false, false, false⟩

structure Sender where
  mode : Mode
  /-- `total_bytes_acked()` of the sampler. -/
  totalBytesAcked : ℕ
  /-- `initial_rtt()` of the connection's `RttStats`. -/
  initialRtt : ℕ
  roundTripCount : ℕ
  lastSentPacket : Option ℕ
  currentRoundTripEnd : Option ℕ
  maxBandwidth : MaxBandwidthFilter
  minRtt : ℕ
  minRttTimestamp : ℕ
  congestionWindow : ℕ
  initialCongestionWindow : ℕ
  maxCongestionWindow : ℕ
  minCongestionWindow : ℕ
  highGain : ℚ
  highCwndGain : ℚ
  drainGain : ℚ
  pacingRate : ℕ
  pacingGain : ℚ
  congestionWindowGain : ℚ
  congestionWindowGainConstant : ℚ
  numStartupRtts : ℕ
  exitStartupOnLoss : Bool
  cycleCurrentOffset : ℕ
  lastCycleStart : ℕ
  isAtFullBandwidth : Bool
  roundsWithoutBandwidthGain : ℕ
  bandwidthAtLastRound : ℕ
  exitingQuiescence : Bool
  /-- Zero while it is not known. -/
  exitProbeRttAt : ℕ
  probeRttRoundPassed : Bool
  lastSampleIsAppLimited : Bool
  hasNonAppLimitedSample : Bool
  flexibleAppLimited : Bool
  recoveryState : RecoveryState
  endRecoveryAt : Option ℕ
  recoveryWindow : ℕ
  slowerStartup : Bool
  rateBasedStartup : Bool
  startupRateReductionMultiplier : ℕ
  startupBytesLost : ℕ
  enableAckAggregationDuringStartup : Bool
  drainToTarget : Bool
  probeRttBasedOnBdp : Bool
  probeRttSkippedIfSimilarRtt : Bool
  probeRttDisabledIfAppLimited : Bool
  appLimitedSinceLastProbeRtt : Bool
  minRttSinceLastProbeRtt : WithTop ℕ
  /-- The gain cycle was read past its end, or its length minus one was a divisor of zero. The
  source has no such flag: what it does then is undefined. -/
  undefinedRead : Bool

/-- The arguments of the constructor, with what it reads elsewhere. -/
structure Arguments where
  initialTcpCongestionWindow : ℕ
  maxTcpCongestionWindow : ℕ
  initialRtt : ℕ
  /-- The flag `quic_bbr_cwnd_gain`. -/
  cwndGain : ℚ

/-- A window of 32 packets, at most 2000, and 100 ms. -/
def Arguments.default : Arguments := ⟨32, 2000, 100000, 2⟩

namespace Sender

/-- The constructor, for an interface whose gain cycle has the given length. -/
def new (a : Arguments) (gainCycleLength : ℕ) : Sender where
  mode := .STARTUP
  totalBytesAcked := 0
  initialRtt := a.initialRtt
  roundTripCount := 0
  lastSentPacket := none
  currentRoundTripEnd := none
  maxBandwidth := .new (gainCycleLength + 2)
  minRtt := 0
  minRttTimestamp := 0
  congestionWindow := a.initialTcpCongestionWindow * kDefaultTCPMSS
  initialCongestionWindow := a.initialTcpCongestionWindow * kDefaultTCPMSS
  maxCongestionWindow := a.maxTcpCongestionWindow * kDefaultTCPMSS
  minCongestionWindow := kDefaultMinimumCongestionWindow
  highGain := kDefaultHighGain
  highCwndGain := kDefaultHighGain
  drainGain := 1 / kDefaultHighGain
  pacingRate := 0
  pacingGain := kDefaultHighGain
  congestionWindowGain := kDefaultHighGain
  congestionWindowGainConstant := a.cwndGain
  numStartupRtts := kRoundTripsWithoutGrowthBeforeExitingStartup
  exitStartupOnLoss := false
  cycleCurrentOffset := 0
  lastCycleStart := 0
  isAtFullBandwidth := false
  roundsWithoutBandwidthGain := 0
  bandwidthAtLastRound := 0
  exitingQuiescence := false
  exitProbeRttAt := 0
  probeRttRoundPassed := false
  lastSampleIsAppLimited := false
  hasNonAppLimitedSample := false
  flexibleAppLimited := false
  recoveryState := .NOT_IN_RECOVERY
  endRecoveryAt := none
  recoveryWindow := a.maxTcpCongestionWindow * kDefaultTCPMSS
  slowerStartup := false
  rateBasedStartup := false
  startupRateReductionMultiplier := 0
  startupBytesLost := 0
  enableAckAggregationDuringStartup := false
  drainToTarget := false
  probeRttBasedOnBdp := false
  probeRttSkippedIfSimilarRtt := false
  probeRttDisabledIfAppLimited := false
  appLimitedSinceLastProbeRtt := false
  minRttSinceLastProbeRtt := ⊤
  undefinedRead := false

def bandwidthEstimate (s : Sender) : ℕ := s.maxBandwidth.best.sample

def inRecovery (s : Sender) : Bool := s.recoveryState ≠ .NOT_IN_RECOVERY

def getMinRtt (s : Sender) : ℕ := if s.minRtt ≠ 0 then s.minRtt else s.initialRtt

/-- The bandwidth estimate, or its mean with the target rate of the interface. -/
def targetBandwidth (s : Sender) (targetRate : Option ℤ) : ℕ :=
  match targetRate with
  | none => s.bandwidthEstimate
  | some rate => fromKBitsPerSecond (((toKBitsPerSecond s.bandwidthEstimate : ℤ) + rate).tdiv 2)

def getTargetCongestionWindow (s : Sender) (targetRate : Option ℤ) (gain : ℚ) : ℕ :=
  let bdp := toBytesPerPeriod (s.targetBandwidth targetRate) s.getMinRtt
  let congestionWindow := toByteCount (gain * bdp)
  let congestionWindow :=
    if congestionWindow = 0 then toByteCount (gain * s.initialCongestionWindow)
    else congestionWindow
  max congestionWindow s.minCongestionWindow

def probeRttCongestionWindow (s : Sender) (targetRate : Option ℤ) : ℕ :=
  if s.probeRttBasedOnBdp then s.getTargetCongestionWindow targetRate kModerateProbeRttMultiplier
  else s.minCongestionWindow

def getCongestionWindow (s : Sender) (targetRate : Option ℤ) : ℕ :=
  if s.mode = .PROBE_RTT then s.probeRttCongestionWindow targetRate
  else if s.inRecovery ∧ ¬(s.rateBasedStartup ∧ s.mode = .STARTUP) then
    min s.congestionWindow s.recoveryWindow
  else s.congestionWindow

def canSend (s : Sender) (targetRate : Option ℤ) (bytesInFlight : ℕ) : Bool :=
  bytesInFlight < s.getCongestionWindow targetRate

def isPipeSufficientlyFull (s : Sender) (targetRate : Option ℤ) (bytesInFlight : ℕ) : Bool :=
  if s.mode = .STARTUP then s.getTargetCongestionWindow targetRate (3 / 2) ≤ bytesInFlight
  else if 1 < s.pacingGain then
    s.getTargetCongestionWindow targetRate s.pacingGain ≤ bytesInFlight
  else s.getTargetCongestionWindow targetRate (11 / 10) ≤ bytesInFlight

/-! ## The interface -/

end Sender

/-- What a sender asks of its interface, whose state is of type `ι`. -/
structure Hooks (ι : Type) where
  getPacingGainCycle : ι → List ℚ
  /-- What is done when a gain cycle is finished. -/
  updatePacingGainCycle : ι → ι
  allowRttProbing : ι → Bool
  getTargetRate : ι → Option ℤ
  /-- What is done with the bandwidth of a sample. -/
  registerDeliveryRate : ι → ℕ → ι
  /-- The sender that answers for all of them, by its name. -/
  parent : ι → Option ℕ
  setParent : ι → Option ℕ → ι

/-! ## Events -/

/-- The arguments of `OnCongestionEvent`, and what is read while it runs. -/
structure CongestionEvent where
  priorInFlight : ℕ
  eventTime : ℕ
  ackedPackets : List AckedPacket
  /-- The sizes of the lost packets. -/
  lostPackets : List ℕ
  /-- `bytes_in_flight()` of the unacknowledged packets. -/
  bytesInFlight : ℕ
  /-- By how much `total_bytes_acked()` of the sampler grows. -/
  bytesAcked : ℕ
  /-- What `OnAckEventEnd` of the sampler returns. -/
  excessAcked : ℕ
  /-- `max_ack_height()` of the sampler. -/
  maxAckHeight : ℕ
  /-- `min_rtt()` of the connection's `RttStats`. -/
  rttStatsMinRtt : ℕ
  /-- `RandUint64()`, should `PROBE_BW` be entered. -/
  random : ℕ

def CongestionEvent.hasLosses (e : CongestionEvent) : Bool := e.lostPackets ≠ []

def CongestionEvent.bytesLost (e : CongestionEvent) : ℕ := e.lostPackets.sum

namespace Sender

variable {ι : Type}

/-! ## Losses and acknowledgements -/

def discardLostPackets (s : Sender) (e : CongestionEvent) : Sender :=
  if s.mode = .STARTUP ∧ s.startupRateReductionMultiplier ≠ 0 then
    { s with startupBytesLost := s.startupBytesLost + e.bytesLost }
  else s

/-- The sender, and whether a round trip has ended. -/
def updateRoundTripCounter (s : Sender) (lastAckedPacket : ℕ) : Sender × Bool :=
  if s.currentRoundTripEnd = none ∨ isAfter lastAckedPacket s.currentRoundTripEnd then
    ({ s with
        roundTripCount := s.roundTripCount + 1
        currentRoundTripEnd := s.lastSentPacket }, true)
  else (s, false)

/-- One round of the loop over the acknowledged packets, with `sample_min_rtt`. -/
def acknowledge (r : Sender × WithTop ℕ) (packet : AckedPacket) : Sender × WithTop ℕ :=
  match packet.sample with
  | none => r
  | some b =>
    let s :=
      { r.1 with
        lastSampleIsAppLimited := b.isAppLimited
        hasNonAppLimitedSample := r.1.hasNonAppLimitedSample || !b.isAppLimited }
    let sampleMinRtt := if b.rtt ≠ 0 then min r.2 b.rtt else r.2
    if !b.isAppLimited || s.bandwidthEstimate < b.bandwidth then
      ({ s with maxBandwidth := s.maxBandwidth.update b.bandwidth s.roundTripCount }, sampleMinRtt)
    else (s, sampleMinRtt)

/-- `kSimilarMinRttThreshold` is 1.125, and the product is rounded. -/
def shouldExtendMinRttExpiry (s : Sender) : Bool :=
  if s.probeRttDisabledIfAppLimited && s.appLimitedSinceLastProbeRtt then true
  else
    let minRttIncreased := ((s.minRtt * 9 + 4) / 8 : ℕ) < s.minRttSinceLastProbeRtt
    s.probeRttSkippedIfSimilarRtt && s.appLimitedSinceLastProbeRtt && !decide minRttIncreased

/-- The end of `UpdateBandwidthAndMinRtt`: the sender, and whether the round trip time is too
old. -/
def updateMinRtt (s : Sender) (now : ℕ) (sampleMinRtt : WithTop ℕ) : Sender × Bool :=
  match sampleMinRtt with
  | none => (s, false)
  | some rtt =>
    let s := { s with minRttSinceLastProbeRtt := min s.minRttSinceLastProbeRtt rtt }
    let minRttExpired := s.minRtt ≠ 0 ∧ s.minRttTimestamp + kMinRttExpiry < now
    if minRttExpired ∨ rtt < s.minRtt ∨ s.minRtt = 0 then
      let extend := minRttExpired ∧ s.shouldExtendMinRttExpiry
      ({ s with
          minRtt := if extend then s.minRtt else rtt
          minRttTimestamp := now
          minRttSinceLastProbeRtt := ⊤
          appLimitedSinceLastProbeRtt := false },
        decide minRttExpired && !decide extend)
    else (s, decide minRttExpired)

def updateBandwidthAndMinRtt (s : Sender) (now : ℕ) (acked : List AckedPacket) : Sender × Bool :=
  let r := acked.foldl acknowledge (s, ⊤)
  updateMinRtt r.1 now r.2

/-- The last case of the switch in `UpdateRecoveryState`. -/
def exitRecovery (s : Sender) (lastAckedPacket : ℕ) (hasLosses : Bool) : Sender :=
  if !hasLosses && isAfter lastAckedPacket s.endRecoveryAt then
    { s with recoveryState := .NOT_IN_RECOVERY }
  else s

def updateRecoveryState (s : Sender) (lastAckedPacket : ℕ) (hasLosses isRoundStart : Bool) :
    Sender :=
  let s := if hasLosses then { s with endRecoveryAt := s.lastSentPacket } else s
  match s.recoveryState with
  | .NOT_IN_RECOVERY =>
    if hasLosses then
      { s with
        recoveryState := .CONSERVATION
        recoveryWindow := 0
        currentRoundTripEnd := s.lastSentPacket }
    else s
  | .CONSERVATION =>
    -- falls through to the last case
    let s := if isRoundStart then { s with recoveryState := .GROWTH } else s
    s.exitRecovery lastAckedPacket hasLosses
  | .GROWTH => s.exitRecovery lastAckedPacket hasLosses

/-- The sender after the losses and the acknowledgements, whether a round trip has ended, and
whether the round trip time is too old. -/
def processAcks (s : Sender) (e : CongestionEvent) : Sender × Bool × Bool :=
  let s := s.discardLostPackets e
  match e.ackedPackets.getLast? with
  | none => (s, false, false)
  | some last =>
    let round := s.updateRoundTripCounter last.packetNumber
    let rtt := round.1.updateBandwidthAndMinRtt e.eventTime e.ackedPackets
    (rtt.1.updateRecoveryState last.packetNumber e.hasLosses round.2, round.2, rtt.2)

/-- What `UpdateBandwidthAndMinRtt` tells the interface. -/
def registerDeliveryRates (I : Hooks ι) (i : ι) (e : CongestionEvent) : ι :=
  (e.ackedPackets.filterMap fun packet => packet.sample).foldl
    (fun i b => I.registerDeliveryRate i b.bandwidth) i

/-! ## The modes -/

def enterStartupMode (s : Sender) : Sender :=
  { s with
    mode := .STARTUP
    pacingGain := s.highGain
    congestionWindowGain := s.highCwndGain }

def enterProbeBandwidthMode (s : Sender) (cycle : List ℚ) (now random : ℕ) : Sender :=
  let offset := random % (cycle.length - 1)
  let offset := if 1 ≤ offset then offset + 1 else offset
  { s with
    mode := .PROBE_BW
    congestionWindowGain := s.congestionWindowGainConstant
    cycleCurrentOffset := offset
    lastCycleStart := now
    pacingGain := cycle.getD offset 1
    undefinedRead := s.undefinedRead || cycle.length ≤ 1 || cycle.length ≤ offset }

/-- `should_advance_gain_cycling` of `UpdateGainCyclePhase`. -/
def shouldAdvanceGainCycling (s : Sender) (targetRate : Option ℤ) (e : CongestionEvent) : Bool :=
  let advance := decide ((s.getMinRtt : ℤ) < (e.eventTime : ℤ) - s.lastCycleStart)
  let advance :=
    if 1 < s.pacingGain ∧ !e.hasLosses ∧
        e.priorInFlight < s.getTargetCongestionWindow targetRate s.pacingGain then false
    else advance
  if s.pacingGain < 1 ∧ e.bytesInFlight ≤ s.getTargetCongestionWindow targetRate 1 then true
  else advance

/-- The sender at the next offset of the cycle. -/
def advanceOffset (s : Sender) (cycle : List ℚ) (now : ℕ) : Sender :=
  { s with
    cycleCurrentOffset := (s.cycleCurrentOffset + 1) % cycle.length
    lastCycleStart := now
    undefinedRead := s.undefinedRead || cycle.length = 0 }

/-- The gain at the current offset. With `drain_to_target_` the sender stays in the low gain until
the queue is drained. -/
def takeGain (s : Sender) (cycle : List ℚ) (targetRate : Option ℤ) (bytesInFlight : ℕ) : Sender :=
  let gain := cycle.getD s.cycleCurrentOffset 1
  let s := { s with undefinedRead := s.undefinedRead || cycle.length ≤ s.cycleCurrentOffset }
  if s.drainToTarget ∧ s.pacingGain < 1 ∧ gain = 1 ∧
      s.getTargetCongestionWindow targetRate 1 < bytesInFlight then s
  else { s with pacingGain := gain }

def updateGainCyclePhase (I : Hooks ι) (i : ι) (s : Sender) (e : CongestionEvent) : ι × Sender :=
  if s.shouldAdvanceGainCycling (I.getTargetRate i) e then
    let s := s.advanceOffset (I.getPacingGainCycle i) e.eventTime
    let i := if s.cycleCurrentOffset = 0 then I.updatePacingGainCycle i else i
    (i, s.takeGain (I.getPacingGainCycle i) (I.getTargetRate i) e.bytesInFlight)
  else (i, s)

def checkIfFullBandwidthReached (s : Sender) : Sender :=
  if s.lastSampleIsAppLimited then s
  else if scaleBandwidth kStartupGrowthTarget s.bandwidthAtLastRound ≤ s.bandwidthEstimate then
    { s with bandwidthAtLastRound := s.bandwidthEstimate, roundsWithoutBandwidthGain := 0 }
  else
    let rounds := s.roundsWithoutBandwidthGain + 1
    { s with
      roundsWithoutBandwidthGain := rounds
      isAtFullBandwidth := s.isAtFullBandwidth || s.numStartupRtts ≤ rounds ||
        s.exitStartupOnLoss && s.inRecovery }

/-- The first half of `MaybeExitStartupOrDrain`. -/
def maybeExitStartup (s : Sender) : Sender :=
  if s.mode = .STARTUP ∧ s.isAtFullBandwidth then
    { s with
      mode := .DRAIN
      pacingGain := s.drainGain
      congestionWindowGain := s.highCwndGain }
  else s

def maybeExitStartupOrDrain (I : Hooks ι) (i : ι) (s : Sender) (e : CongestionEvent) : Sender :=
  let s := s.maybeExitStartup
  if s.mode = .DRAIN ∧ e.bytesInFlight ≤ s.getTargetCongestionWindow (I.getTargetRate i) 1 then
    s.enterProbeBandwidthMode (I.getPacingGainCycle i) e.eventTime e.random
  else s

/-- The first half of `MaybeEnterOrExitProbeRtt`. -/
def maybeEnterProbeRtt (s : Sender) (allowRttProbing minRttExpired : Bool) : Sender :=
  if minRttExpired ∧ !s.exitingQuiescence ∧ s.mode ≠ .PROBE_RTT ∧ allowRttProbing then
    { s with mode := .PROBE_RTT, pacingGain := 1, exitProbeRttAt := 0 }
  else s

/-- Where `PROBE_RTT` leads to. -/
def leaveProbeRtt (s : Sender) (cycle : List ℚ) (now random : ℕ) : Sender :=
  if !s.isAtFullBandwidth then s.enterStartupMode
  else s.enterProbeBandwidthMode cycle now random

/-- The second half, for a sender that is in `PROBE_RTT`. -/
def probeRtt (I : Hooks ι) (i : ι) (s : Sender) (e : CongestionEvent) (isRoundStart : Bool) :
    Sender :=
  if s.exitProbeRttAt = 0 then
    if e.bytesInFlight <
        s.probeRttCongestionWindow (I.getTargetRate i) + kMaxOutgoingPacketSize then
      { s with exitProbeRttAt := e.eventTime + kProbeRttTime, probeRttRoundPassed := false }
    else s
  else
    let s := if isRoundStart then { s with probeRttRoundPassed := true } else s
    if s.exitProbeRttAt ≤ e.eventTime ∧ s.probeRttRoundPassed then
      { s with minRttTimestamp := e.eventTime }.leaveProbeRtt (I.getPacingGainCycle i) e.eventTime
        e.random
    else s

def maybeEnterOrExitProbeRtt (I : Hooks ι) (i : ι) (s : Sender) (e : CongestionEvent)
    (isRoundStart minRttExpired : Bool) : Sender :=
  let s := s.maybeEnterProbeRtt (I.allowRttProbing i) minRttExpired
  let s := if s.mode = .PROBE_RTT then s.probeRtt I i e isRoundStart else s
  { s with exitingQuiescence := false }

/-! ## Pacing rate and windows -/

def calculatePacingRate (s : Sender) (targetRate : Option ℤ) (e : CongestionEvent) : Sender :=
  if s.bandwidthEstimate = 0 then s
  else
    let target := scaleBandwidth s.pacingGain (s.targetBandwidth targetRate)
    let hasEverDetectedLoss := s.endRecoveryAt.isSome
    if s.isAtFullBandwidth then { s with pacingRate := target }
    else if s.pacingRate = 0 ∧ e.rttStatsMinRtt ≠ 0 then
      { s with pacingRate := fromBytesAndTimeDelta s.initialCongestionWindow e.rttStatsMinRtt }
    else if s.slowerStartup ∧ hasEverDetectedLoss ∧ s.hasNonAppLimitedSample then
      { s with pacingRate := scaleBandwidth kStartupAfterLossGain s.bandwidthEstimate }
    else if s.startupRateReductionMultiplier ≠ 0 ∧ hasEverDetectedLoss ∧
        s.hasNonAppLimitedSample then
      let kept : ℚ :=
        1 - (s.startupBytesLost * s.startupRateReductionMultiplier : ℚ) / s.congestionWindow
      { s with
        pacingRate := max (scaleBandwidth kept target)
          (scaleBandwidth kStartupGrowthTarget s.bandwidthEstimate) }
    else { s with pacingRate := max s.pacingRate target }

/-- The window before the limits are enforced. -/
def grownWindow (fl : Flags) (s : Sender) (targetRate : Option ℤ) (e : CongestionEvent) : ℕ :=
  let targetWindow := s.getTargetCongestionWindow targetRate s.congestionWindowGain
  let targetWindow :=
    if s.isAtFullBandwidth then targetWindow + e.maxAckHeight
    else if s.enableAckAggregationDuringStartup then targetWindow + e.excessAcked
    else targetWindow
  let addBytesAcked := !fl.noBytesAckedInStartupRecovery || !s.inRecovery
  if s.isAtFullBandwidth then min targetWindow (s.congestionWindow + e.bytesAcked)
  else if addBytesAcked ∧ (s.congestionWindow < targetWindow ∨
      s.totalBytesAcked < s.initialCongestionWindow) then s.congestionWindow + e.bytesAcked
  else s.congestionWindow

def calculateCongestionWindow (fl : Flags) (s : Sender) (targetRate : Option ℤ)
    (e : CongestionEvent) : Sender :=
  if s.mode = .PROBE_RTT then s
  else
    { s with
      congestionWindow :=
        min (max (s.grownWindow fl targetRate e) s.minCongestionWindow) s.maxCongestionWindow }

/-- The window of a sender that is in recovery already. -/
def reducedRecoveryWindow (fl : Flags) (s : Sender) (e : CongestionEvent) : ℕ :=
  let window :=
    if e.bytesLost ≤ s.recoveryWindow then s.recoveryWindow - e.bytesLost else kMaxSegmentSize
  let window := if s.recoveryState = .GROWTH then window + e.bytesAcked else window
  let window := max window (e.bytesInFlight + e.bytesAcked)
  let window :=
    if fl.oneMssConservation then max window (e.bytesInFlight + kMaxSegmentSize) else window
  max s.minCongestionWindow window

def calculateRecoveryWindow (fl : Flags) (s : Sender) (e : CongestionEvent) : Sender :=
  if s.rateBasedStartup ∧ s.mode = .STARTUP then s
  else if s.recoveryState = .NOT_IN_RECOVERY then s
  else if s.recoveryWindow = 0 then
    { s with recoveryWindow := max s.minCongestionWindow (e.bytesInFlight + e.bytesAcked) }
  else { s with recoveryWindow := s.reducedRecoveryWindow fl e }

/-! ## Congestion events -/

/-- The part of `OnCongestionEvent` that belongs to `PROBE_BW`, after the acknowledgements. -/
def cycled (I : Hooks ι) (i : ι) (s : Sender) (e : CongestionEvent) : ι × Sender :=
  let s := (s.processAcks e).1
  let i := registerDeliveryRates I i e
  if s.mode = .PROBE_BW then s.updateGainCyclePhase I i e else (i, s)

/-- The part on `STARTUP` and `DRAIN`. -/
def settled (I : Hooks ι) (i : ι) (s : Sender) (e : CongestionEvent) : ι × Sender :=
  let isRoundStart := (s.processAcks e).2.1
  let r := s.cycled I i e
  let s := if isRoundStart && !r.2.isAtFullBandwidth then r.2.checkIfFullBandwidthReached else r.2
  (r.1, s.maybeExitStartupOrDrain I r.1 e)

/-- `OnCongestionEvent` up to the point where the pacing rate and the windows are calculated. -/
def updateModel (I : Hooks ι) (i : ι) (s : Sender) (e : CongestionEvent) : ι × Sender :=
  let r := s.settled I i e
  (r.1, r.2.maybeEnterOrExitProbeRtt I r.1 e (s.processAcks e).2.1 (s.processAcks e).2.2)

/-- The end of `OnCongestionEvent`: the pacing rate and the windows, after the sampler has counted
the acknowledged bytes. -/
def recalculate (fl : Flags) (s : Sender) (targetRate : Option ℤ) (e : CongestionEvent) : Sender :=
  let s := { s with totalBytesAcked := s.totalBytesAcked + e.bytesAcked }
  let s := s.calculatePacingRate targetRate e
  let s := s.calculateCongestionWindow fl targetRate e
  s.calculateRecoveryWindow fl e

def onCongestionEvent (I : Hooks ι) (fl : Flags) (i : ι) (s : Sender) (e : CongestionEvent) :
    ι × Sender :=
  let r := s.updateModel I i e
  (r.1, r.2.recalculate fl (I.getTargetRate r.1) e)

/-! ## The other calls -/

def onPacketSent (s : Sender) (bytesInFlight packetNumber : ℕ) (isAppLimited : Bool) : Sender :=
  { s with
    lastSentPacket := some packetNumber
    exitingQuiescence := s.exitingQuiescence || bytesInFlight = 0 && isAppLimited }

/-- `unackedBytes` is `bytes_in_flight()` of the unacknowledged packets. -/
def onApplicationLimited (s : Sender) (targetRate : Option ℤ) (bytesInFlight unackedBytes : ℕ) :
    Sender :=
  if s.getCongestionWindow targetRate ≤ bytesInFlight then s
  else if s.flexibleAppLimited ∧ s.isPipeSufficientlyFull targetRate unackedBytes then s
  else { s with appLimitedSinceLastProbeRtt := true }

def setInitialCongestionWindowInPackets (s : Sender) (packets : ℕ) : Sender :=
  if s.mode = .STARTUP then
    { s with
      initialCongestionWindow := packets * kDefaultTCPMSS
      congestionWindow := packets * kDefaultTCPMSS }
  else s

def setHighGain (s : Sender) (gain : ℚ) : Sender :=
  { s with
    highGain := gain
    pacingGain := if s.mode = .STARTUP then gain else s.pacingGain }

def setHighCwndGain (s : Sender) (gain : ℚ) : Sender :=
  { s with
    highCwndGain := gain
    congestionWindowGain := if s.mode = .STARTUP then gain else s.congestionWindowGain }

/-- The argument of `AdjustNetworkParameters`, with `SmoothedOrInitialRtt()`. -/
structure NetworkParams where
  bandwidth : ℕ
  rtt : ℕ
  fixCwndInBandwidthResumption : Bool
  allowCwndToDecrease : Bool
  fixPacingRate : Bool
  smoothedOrInitialRtt : ℕ

/-- What `AdjustNetworkParameters` does to the two filters. -/
def injectParameters (fl : Flags) (s : Sender) (p : NetworkParams) : Sender :=
  let s :=
    if !fl.donotInjectBandwidth ∧ p.bandwidth ≠ 0 then
      { s with maxBandwidth := s.maxBandwidth.update p.bandwidth s.roundTripCount }
    else s
  if p.rtt ≠ 0 ∧ (p.rtt < s.minRtt ∨ s.minRtt = 0) then { s with minRtt := p.rtt } else s

/-- `new_cwnd` of `AdjustNetworkParameters`. -/
def resumedWindow (fl : Flags) (s : Sender) (p : NetworkParams) : ℕ :=
  max (kMinInitialCongestionWindow * kDefaultTCPMSS)
    (min (kMaxInitialCongestionWindow * kDefaultTCPMSS)
      (toBytesPerPeriod p.bandwidth
        (if fl.donotInjectBandwidth then s.getMinRtt else p.smoothedOrInitialRtt)))

/-- The end of `AdjustNetworkParameters`: the window and the rate of a resumed connection. -/
def resume (fl : Flags) (s : Sender) (p : NetworkParams) : Sender :=
  let window := s.resumedWindow fl p
  let s :=
    if fl.conservativeCwndAndPacingGains then
      (s.setHighGain kDerivedHighCWNDGain).setHighCwndGain kDerivedHighCWNDGain
    else s
  { s with
    congestionWindow := window
    pacingRate :=
      if p.fixPacingRate then max s.pacingRate (fromBytesAndTimeDelta window s.getMinRtt)
      else s.pacingRate }

def adjustNetworkParameters (fl : Flags) (s : Sender) (p : NetworkParams) : Sender :=
  let s := s.injectParameters fl p
  if p.fixCwndInBandwidthResumption ∧ s.mode = .STARTUP then
    if p.bandwidth = 0 then s
    else if s.resumedWindow fl p < s.congestionWindow ∧ !p.allowCwndToDecrease then s
    else s.resume fl p
  else s

/-- The connection options `SetFromConfig` looks for. -/
inductive ConnectionOption where
  | kLRTT | k1RTT | k2RTT | kBBRS | kBBR3 | kBBS1 | kBBS4 | kBBS5 | kBBR6 | kBBR7 | kBBR8 | kBBR9
  | kBBQ1 | kBBQ2 | kBBQ3 | kMIN1
deriving DecidableEq

/-- The gains of `SetFromConfig`. -/
def setGains (s : Sender) (has : ConnectionOption → Bool) : Sender :=
  let s :=
    if has .kBBQ1 then
      { (s.setHighGain kDerivedHighGain).setHighCwndGain kDerivedHighGain with
        drainGain := 1 / kDerivedHighGain }
    else s
  if has .kBBQ2 then s.setHighCwndGain kDerivedHighCWNDGain else s

/-- `SetFromConfig`; `has` is `HasClientRequestedIndependentOption`. The options that reach the
sampler only are left out. -/
def setFromConfig (fl : Flags) (s : Sender) (has : ConnectionOption → Bool) : Sender :=
  let bbs4 := fl.startupRateReduction && has .kBBS4
  let bbs5 := fl.startupRateReduction && has .kBBS5
  { s.setGains has with
    exitStartupOnLoss := s.exitStartupOnLoss || has .kLRTT
    numStartupRtts :=
      if has .k2RTT then 2 else if has .k1RTT then 1 else s.numStartupRtts
    slowerStartup := s.slowerStartup || has .kBBRS
    drainToTarget := s.drainToTarget || has .kBBR3
    rateBasedStartup := s.rateBasedStartup || has .kBBS1 || bbs4 || bbs5
    startupRateReductionMultiplier :=
      if bbs5 then 2 else if bbs4 then 1 else s.startupRateReductionMultiplier
    probeRttBasedOnBdp := s.probeRttBasedOnBdp || fl.lessProbeRtt && has .kBBR6
    probeRttSkippedIfSimilarRtt := s.probeRttSkippedIfSimilarRtt || fl.lessProbeRtt && has .kBBR7
    probeRttDisabledIfAppLimited := s.probeRttDisabledIfAppLimited || fl.lessProbeRtt && has .kBBR8
    flexibleAppLimited := s.flexibleAppLimited || fl.flexibleAppLimited && has .kBBR9
    enableAckAggregationDuringStartup := s.enableAckAggregationDuringStartup || has .kBBQ3
    minCongestionWindow := if has .kMIN1 then kMaxSegmentSize else s.minCongestionWindow }

/-! ## Actions -/

/-- The calls a connection makes. -/
inductive Action where
  | congestionEvent (e : CongestionEvent)
  | packetSent (bytesInFlight packetNumber : ℕ) (isAppLimited : Bool)
  | applicationLimited (bytesInFlight unackedBytes : ℕ)
  | setInitialCongestionWindowInPackets (packets : ℕ)
  | adjustNetworkParameters (p : NetworkParams)
  | setFromConfig (has : ConnectionOption → Bool)

/-- `OnRetransmissionTimeout` and `OnConnectionMigration` do nothing. -/
def act (I : Hooks ι) (fl : Flags) (i : ι) (s : Sender) : Action → ι × Sender
  | .congestionEvent e => s.onCongestionEvent I fl i e
  | .packetSent bytesInFlight packetNumber isAppLimited =>
    (i, s.onPacketSent bytesInFlight packetNumber isAppLimited)
  | .applicationLimited bytesInFlight unackedBytes =>
    (i, s.onApplicationLimited (I.getTargetRate i) bytesInFlight unackedBytes)
  | .setInitialCongestionWindowInPackets packets =>
    (i, s.setInitialCongestionWindowInPackets packets)
  | .adjustNetworkParameters p => (i, s.adjustNetworkParameters fl p)
  | .setFromConfig has => (i, s.setFromConfig fl has)

end Sender

/-- The connections of a server over one interface, with calls of the ABR algorithm. The constructor
of a sender makes it the parent, and the destructor takes that back. (`CCWrapper` does not delete
the sender it wraps, so a sender whose connection is closed may just as well stay.) -/
def methods {ι β : Type} (I : Hooks ι) (fl : Flags) (call : ι → β → ι) :
    Group.Methods ι Sender Arguments Sender.Action β where
  new i name a := (I.setParent i (some name), Sender.new a (I.getPacingGainCycle i).length)
  act i s a := s.act I fl i a
  destroy i name := if I.parent i = some name then I.setParent i none else i
  call := call

end Bbr

/-! ## The adapter -/

namespace BbrAdapter

/-- `BbrAdapter::BbrInterface`, with the switch of the RTT probing and the parent. -/
structure Interface extends BbrInterface where
  canProbeRtt : Bool
  parent : Option ℕ

namespace Interface

def init (noAdaptation : Bool) : Interface := ⟨BbrInterface.init noAdaptation, true, none⟩

def proposePacingGainCycle (i : Interface) (gain : List ℚ) : Interface :=
  { i with toBbrInterface := i.toBbrInterface.proposePacingGainCycle gain }

def updatePacingGainCycle (i : Interface) : Interface :=
  { i with toBbrInterface := i.toBbrInterface.updatePacingGainCycle }

def setRttProbing (i : Interface) (rttProbing : Bool) : Interface :=
  if i.noAdaptation then i else { i with canProbeRtt := rttProbing }

def setParent (i : Interface) (parent : Option ℕ) : Interface := { i with parent := parent }

end Interface

/-- The calls of the ABR algorithm that change the interface. -/
inductive Call where
  | proposePacingGainCycle (gain : List ℚ)
  | setRttProbing (rttProbing : Bool)

def call (i : Interface) : Call → Interface
  | .proposePacingGainCycle gain => i.proposePacingGainCycle gain
  | .setRttProbing rttProbing => i.setRttProbing rttProbing

def hooks : Bbr.Hooks Interface where
  getPacingGainCycle i := i.kPacingGain
  updatePacingGainCycle := Interface.updatePacingGainCycle
  allowRttProbing i := i.canProbeRtt
  getTargetRate _ := none
  registerDeliveryRate i _ := i
  parent := Interface.parent
  setParent := Interface.setParent

def methods (fl : Bbr.Flags) : Lib.Group.Methods Interface Bbr.Sender Bbr.Arguments
    Bbr.Sender.Action Call := Bbr.methods hooks fl call

end BbrAdapter

/-! ## The target -/

namespace BbrTarget

/-- `BbrTarget::BbrInterface`. `popped` is what `popDeliveryRates` has returned so far; the source
does not keep it. -/
structure Interface where
  kPacingGain : List ℚ
  deliveryRates : List ℕ
  targetRate : Option ℤ
  parent : Option ℕ
  popped : List ℕ

namespace Interface

def init : Interface := ⟨[5 / 4, 3 / 4, 1, 1, 1, 1, 1, 1], [], none, none, []⟩

def setPacingGainCycle (i : Interface) (gain : List ℚ) : Interface := { i with kPacingGain := gain }

def popDeliveryRates (i : Interface) : Interface :=
  { i with deliveryRates := [], popped := i.popped ++ i.deliveryRates }

/-- Without a parent there is no target rate, whatever was set. -/
def getTargetRate (i : Interface) : Option ℤ := if i.parent = none then none else i.targetRate

def setTargetRate (i : Interface) (rate : ℤ) : Interface := { i with targetRate := some rate }

def setParent (i : Interface) (parent : Option ℕ) : Interface := { i with parent := parent }

end Interface

/-- The calls of the ABR algorithm that change the interface. -/
inductive Call where
  | setPacingGainCycle (gain : List ℚ)
  | popDeliveryRates
  | setTargetRate (rate : ℤ)

def call (i : Interface) : Call → Interface
  | .setPacingGainCycle gain => i.setPacingGainCycle gain
  | .popDeliveryRates => i.popDeliveryRates
  | .setTargetRate rate => i.setTargetRate rate

def hooks : Bbr.Hooks Interface where
  getPacingGainCycle i := i.kPacingGain
  updatePacingGainCycle i := i
  allowRttProbing _ := true
  getTargetRate := Interface.getTargetRate
  registerDeliveryRate i bandwidth :=
    { i with deliveryRates := i.deliveryRates ++ [toKBitsPerSecond bandwidth] }
  parent := Interface.parent
  setParent := Interface.setParent

def methods (fl : Bbr.Flags) : Lib.Group.Methods Interface Bbr.Sender Bbr.Arguments
    Bbr.Sender.Action Call := Bbr.methods hooks fl call

end BbrTarget

end Cc
end LiveStream
