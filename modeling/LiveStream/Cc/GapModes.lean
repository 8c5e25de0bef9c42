import LiveStream.Cc.Gap
import LiveStream.Lib.Run
import LiveStream.Structs.Estimators

/-!
# BbrGap's modes

`BbrGap::OnCongestionEvent` of `cc/gap.cc` up to the point where the pacing rate and the windows
are computed: the round trip counter, the filters of bandwidth and round trip time, recovery, and
the four modes. What the bandwidth sampler says about an acknowledged packet, the bytes in flight
and the random number are inputs of an event.

The other calls a sender receives are steps too, as far as they touch what is read here. Times are
in microseconds.

* `lastCycleStart_of_stay`, while the mode is `PROBE_BW` the start of the cycle is not moved;
* `lastCycleStart_of_entry`, the event that enters `PROBE_BW` is the start of the cycle.
-/

namespace LiveStream
namespace Cc
namespace BbrGap

open Lib Structs

/-! ## The bandwidth filter -/

/-- A sample of a `WindowedFilter`, with the round trip it was taken in. -/
structure Estimate where
  sample : ℕ
  time : ℕ
deriving DecidableEq

/-- `WindowedFilter` with `MaxFilter` as the comparison, over round trips. -/
structure MaxBandwidthFilter where
  windowLength : ℕ
  best : Estimate
  second : Estimate
  third : Estimate
deriving DecidableEq

namespace MaxBandwidthFilter

def new (windowLength : ℕ) : MaxBandwidthFilter := ⟨windowLength, ⟨0, 0⟩, ⟨0, 0⟩, ⟨0, 0⟩⟩

def reset (f : MaxBandwidthFilter) (e : Estimate) : MaxBandwidthFilter :=
  { f with best := e, second := e, third := e }

def update (f : MaxBandwidthFilter) (newSample newTime : ℕ) : MaxBandwidthFilter :=
  let new : Estimate := ⟨newSample, newTime⟩
  if f.best.sample = 0 ∨ f.best.sample ≤ newSample ∨ f.windowLength < newTime - f.third.time then
    f.reset new
  else
    let f :=
      if f.second.sample ≤ newSample then { f with second := new, third := new }
      else if f.third.sample ≤ newSample then { f with third := new }
      else f
    if f.windowLength < newTime - f.best.time then
      -- the best estimate is a window old, and the one that takes its place may be as well
      let f := { f with best := f.second, second := f.third, third := new }
      if f.windowLength < newTime - f.best.time then { f with best := f.second, second := f.third }
      else f
    else if f.second.sample = f.best.sample ∧ f.windowLength / 4 < newTime - f.second.time then
      { f with second := new, third := new }
    else if f.third.sample = f.second.sample ∧ f.windowLength / 2 < newTime - f.third.time then
      { f with third := new }
    else f

end MaxBandwidthFilter

/-! ## The sender -/

/-- What the constructor and `SetFromConfig` fix for the connection. -/
structure Config where
  initialRtt : ℕ
  initialCongestionWindow : ℕ
  minCongestionWindow : ℕ
  highGain : ℚ
  drainGain : ℚ
  numStartupRtts : ℕ
  exitStartupOnLoss : Bool
  probeRttBasedOnBdp : Bool
  probeRttSkippedIfSimilarRtt : Bool
  probeRttDisabledIfAppLimited : Bool

/-- The defaults, for an initial window of 32 packets and an initial round trip of 100 ms. -/
def Config.default : Config where
  initialRtt := 100000
  initialCongestionWindow := 32 * 1460
  minCongestionWindow := 4 * 1460
  highGain := 2885 / 1000
  drainGain := 1000 / 2885
  numStartupRtts := 3
  exitStartupOnLoss := false
  probeRttBasedOnBdp := false
  probeRttSkippedIfSimilarRtt := false
  probeRttDisabledIfAppLimited := false

inductive RecoveryState where
  | NOT_IN_RECOVERY
  | CONSERVATION
  | GROWTH
deriving DecidableEq

structure Sender where
  mode : Mode
  /-- `targetRate` of the interface. -/
  targetRate : Option ℤ
  /-- What `bandwidth_estimator` was given so far. -/
  samples : List ℚ
  estimatorTrace : List ℚ
  roundTripCount : ℕ
  lastSentPacket : Option ℕ
  currentRoundTripEnd : Option ℕ
  maxBandwidth : MaxBandwidthFilter
  minRtt : ℕ
  minRttTimestamp : ℕ
  pacingGain : ℚ
  lastCycleStart : ℕ
  isAtFullBandwidth : Bool
  roundsWithoutBandwidthGain : ℕ
  bandwidthAtLastRound : ℕ
  exitingQuiescence : Bool
  /-- Zero while it is not known. -/
  exitProbeRttAt : ℕ
  probeRttRoundPassed : Bool
  lastSampleIsAppLimited : Bool
  recoveryState : RecoveryState
  endRecoveryAt : Option ℕ
  appLimitedSinceLastProbeRtt : Bool
  minRttSinceLastProbeRtt : WithTop ℕ

namespace Sender

def kMinRttExpiry : ℕ := 10000000

def kProbeRttTime : ℕ := 200000

def kMaxOutgoingPacketSize : ℕ := 1452

/-- `kPacingGain` of the interface. -/
def pacingGainCycle : List ℚ := [5 / 4, 3 / 4, 1, 1, 1, 1, 1, 1]

/-- A sender as it is constructed, with the target rate the interface has kept. -/
def new (c : Config) (targetRate : Option ℤ) : Sender where
  mode := .STARTUP
  targetRate := targetRate
  samples := []
  estimatorTrace := []
  roundTripCount := 0
  lastSentPacket := none
  currentRoundTripEnd := none
  maxBandwidth := .new (pacingGainCycle.length + 2)
  minRtt := 0
  minRttTimestamp := 0
  pacingGain := c.highGain
  lastCycleStart := 0
  isAtFullBandwidth := false
  roundsWithoutBandwidthGain := 0
  bandwidthAtLastRound := 0
  exitingQuiescence := false
  exitProbeRttAt := 0
  probeRttRoundPassed := false
  lastSampleIsAppLimited := false
  recoveryState := .NOT_IN_RECOVERY
  endRecoveryAt := none
  appLimitedSinceLastProbeRtt := false
  minRttSinceLastProbeRtt := ⊤

def bandwidthEstimate (s : Sender) : ℕ := s.maxBandwidth.best.sample

/-- `value_or(0)` of the 1-3-1 PID estimator over the last six samples. -/
def estimator (s : Sender) : Option ℚ :=
  (PID.after bandwidthEstimatorWindowSize s.samples).bind
    (MovingAverage.valueOr (PID.value 1 3 1) 0)

/-- What `GetTargetCongestionWindow` reads of the sender. -/
def gap (c : Config) (s : Sender) : BbrGap where
  mode := s.mode
  minRtt := s.minRtt
  initialRtt := c.initialRtt
  bandwidthEstimate := s.bandwidthEstimate
  targetRate := s.targetRate
  bandwidthEstimator := s.estimator
  estimatorTrace := s.estimatorTrace
  initialCongestionWindow := c.initialCongestionWindow
  minCongestionWindow := c.minCongestionWindow
  recovery := false

def getMinRtt (c : Config) (s : Sender) : ℕ := (s.gap c).getMinRtt

def getTargetCongestionWindow (c : Config) (s : Sender) (gain : ℚ) : ℕ :=
  ((s.gap c).getTargetCongestionWindow gain).1

def probeRttCongestionWindow (c : Config) (s : Sender) : ℕ :=
  if c.probeRttBasedOnBdp then s.getTargetCongestionWindow c (3 / 4) else c.minCongestionWindow

def inRecovery (s : Sender) : Bool := s.recoveryState ≠ .NOT_IN_RECOVERY

/-! ## Events -/

/-- What the sampler makes of an acknowledged packet. -/
structure BandwidthSample where
  bandwidth : ℕ
  rtt : ℕ
  isAppLimited : Bool

structure AckedPacket where
  packetNumber : ℕ
  /-- `none` for a packet the sampler does not know, or knows as acknowledged or lost. -/
  sample : Option BandwidthSample

structure CongestionEvent where
  eventTime : ℕ
  ackedPackets : List AckedPacket
  hasLosses : Bool
  /-- `bytes_in_flight()` of the unacknowledged packets. -/
  bytesInFlight : ℕ
  /-- `RandUint64()`, should `PROBE_BW` be entered. -/
  random : ℕ

/-! ## The acknowledgements -/

/-- Packet numbers above an uninitialised one are none. -/
def isAfter (packet : ℕ) (limit : Option ℕ) : Bool :=
  match limit with
  | some n => n < packet
  | none => false

/-- The sender, and whether a round trip has ended. -/
def updateRoundTripCounter (s : Sender) (lastAckedPacket : ℕ) : Sender × Bool :=
  if s.currentRoundTripEnd = none ∨ isAfter lastAckedPacket s.currentRoundTripEnd then
    ({ s with
        roundTripCount := s.roundTripCount + 1
        currentRoundTripEnd := s.lastSentPacket }, true)
  else (s, false)

/-- One round of the loop over the acknowledged packets, with `sample_min_rtt`. -/
def acknowledge (r : Sender × WithTop ℕ) (packet : AckedPacket) : Sender × WithTop ℕ :=
  match packet.sample with
  | none => r
  | some b =>
    let s := { r.1 with lastSampleIsAppLimited := b.isAppLimited }
    let sampleMinRtt := if b.rtt ≠ 0 then min r.2 b.rtt else r.2
    if !b.isAppLimited || s.bandwidthEstimate < b.bandwidth then
      ({ s with maxBandwidth := s.maxBandwidth.update b.bandwidth s.roundTripCount }, sampleMinRtt)
    else (s, sampleMinRtt)

/-- `kSimilarMinRttThreshold` is 1.125, and the product is rounded. -/
def shouldExtendMinRttExpiry (c : Config) (s : Sender) : Bool :=
  if c.probeRttDisabledIfAppLimited && s.appLimitedSinceLastProbeRtt then true
  else
    let minRttIncreased := ((s.minRtt * 9 + 4) / 8 : ℕ) < s.minRttSinceLastProbeRtt
    c.probeRttSkippedIfSimilarRtt && s.appLimitedSinceLastProbeRtt && !decide minRttIncreased

/-- The end of `UpdateBandwidthAndMinRtt`: the sender, and whether the round trip time is too
old. -/
def updateMinRtt (c : Config) (s : Sender) (now : ℕ) (sampleMinRtt : WithTop ℕ) : Sender × Bool :=
  match sampleMinRtt with
  | none => (s, false)
  | some rtt =>
    let s := { s with minRttSinceLastProbeRtt := min s.minRttSinceLastProbeRtt rtt }
    let minRttExpired := s.minRtt ≠ 0 ∧ s.minRttTimestamp + kMinRttExpiry < now
    if minRttExpired ∨ rtt < s.minRtt ∨ s.minRtt = 0 then
      let extend := minRttExpired ∧ s.shouldExtendMinRttExpiry c
      ({ s with
          minRtt := if extend then s.minRtt else rtt
          minRttTimestamp := now
          minRttSinceLastProbeRtt := ⊤
          appLimitedSinceLastProbeRtt := false },
        decide minRttExpired && !decide extend)
    else (s, decide minRttExpired)

def updateBandwidthAndMinRtt (c : Config) (s : Sender) (now : ℕ) (acked : List AckedPacket) :
    Sender × Bool :=
  let r := acked.foldl acknowledge (s, ⊤)
  updateMinRtt c r.1 now r.2

/-- The last case of the switch in `UpdateRecoveryState`. -/
def exitRecovery (s : Sender) (lastAckedPacket : ℕ) (hasLosses : Bool) : Sender :=
  if !hasLosses && isAfter lastAckedPacket s.endRecoveryAt then
    { s with recoveryState := .NOT_IN_RECOVERY }
  else s

def updateRecoveryState (s : Sender) (lastAckedPacket : ℕ) (hasLosses isRoundStart : Bool) :
    Sender :=
  let s := if hasLosses then { s with endRecoveryAt := s.lastSentPacket } else s
  match s.recoveryState with
  | .NOT_IN_RECOVERY =>
    if hasLosses then
      { s with recoveryState := .CONSERVATION, currentRoundTripEnd := s.lastSentPacket }
    else s
  | .CONSERVATION =>
    -- falls through to the last case
    let s := if isRoundStart then { s with recoveryState := .GROWTH } else s
    s.exitRecovery lastAckedPacket hasLosses
  | .GROWTH => s.exitRecovery lastAckedPacket hasLosses

/-- The sender after the acknowledgements, whether a round trip has ended, and whether the round
trip time is too old. -/
def processAcks (c : Config) (s : Sender) (e : CongestionEvent) : Sender × Bool × Bool :=
  match e.ackedPackets.getLast? with
  | none => (s, false, false)
  | some last =>
    let round := s.updateRoundTripCounter last.packetNumber
    let rtt := round.1.updateBandwidthAndMinRtt c e.eventTime e.ackedPackets
    (rtt.1.updateRecoveryState last.packetNumber e.hasLosses round.2, round.2, rtt.2)

/-! ## The modes -/

def enterStartupMode (c : Config) (s : Sender) : Sender :=
  { s with mode := .STARTUP, pacingGain := c.highGain }

def enterProbeBandwidthMode (s : Sender) (now random : ℕ) : Sender :=
  let offset := random % (pacingGainCycle.length - 1)
  let offset := if 1 ≤ offset then offset + 1 else offset
  { s with mode := .PROBE_BW, lastCycleStart := now, pacingGain := pacingGainCycle.getD offset 1 }

/-- `should_add_sample` of `UpdateGainCyclePhase`. -/
def shouldAddSample (c : Config) (s : Sender) (now bytesInFlight : ℕ) : Bool :=
  let shouldAddSample := decide ((s.getMinRtt c : ℤ) < now - s.lastCycleStart)
  if bytesInFlight ≤ s.getTargetCongestionWindow c 1 then true else shouldAddSample

/-- The two last arguments of the source are not used. -/
def updateGainCyclePhase (c : Config) (s : Sender) (now bytesInFlight : ℕ) : Sender :=
  if s.shouldAddSample c now bytesInFlight then
    { s with
        samples := s.samples ++ [(toKBitsPerSecond s.bandwidthEstimate : ℚ)]
        estimatorTrace := s.estimatorTrace ++
          [(toBytesPerPeriod s.bandwidthEstimate (s.getMinRtt c) : ℚ)]
        pacingGain := 1 }
  else s

/-- `kStartupGrowthTarget` is 1.25, and the product is rounded. -/
def checkIfFullBandwidthReached (c : Config) (s : Sender) : Sender :=
  if s.lastSampleIsAppLimited then s
  else if (s.bandwidthAtLastRound * 5 + 2) / 4 ≤ s.bandwidthEstimate then
    { s with bandwidthAtLastRound := s.bandwidthEstimate, roundsWithoutBandwidthGain := 0 }
  else
    let rounds := s.roundsWithoutBandwidthGain + 1
    { s with
        roundsWithoutBandwidthGain := rounds
        isAtFullBandwidth := s.isAtFullBandwidth || c.numStartupRtts ≤ rounds ||
          c.exitStartupOnLoss && s.inRecovery }

/-- The first half of `MaybeExitStartupOrDrain`. -/
def maybeExitStartup (c : Config) (s : Sender) : Sender :=
  if s.mode = .STARTUP ∧ s.isAtFullBandwidth then
    { s with mode := .DRAIN, pacingGain := c.drainGain }
  else s

def maybeExitStartupOrDrain (c : Config) (s : Sender) (e : CongestionEvent) : Sender :=
  let s := s.maybeExitStartup c
  if s.mode = .DRAIN ∧ e.bytesInFlight ≤ s.getTargetCongestionWindow c 1 then
    s.enterProbeBandwidthMode e.eventTime e.random
  else s

/-- The first half of `MaybeEnterOrExitProbeRtt`. -/
def maybeEnterProbeRtt (s : Sender) (minRttExpired : Bool) : Sender :=
  if minRttExpired ∧ !s.exitingQuiescence ∧ s.mode ≠ .PROBE_RTT then
    { s with mode := .PROBE_RTT, pacingGain := 1, exitProbeRttAt := 0 }
  else s

/-- The second half, for a sender that is in `PROBE_RTT`. -/
def probeRtt (c : Config) (s : Sender) (e : CongestionEvent) (isRoundStart : Bool) : Sender :=
  if s.exitProbeRttAt = 0 then
    if e.bytesInFlight < s.probeRttCongestionWindow c + kMaxOutgoingPacketSize then
      { s with exitProbeRttAt := e.eventTime + kProbeRttTime, probeRttRoundPassed := false }
    else s
  else
    let s := if isRoundStart then { s with probeRttRoundPassed := true } else s
    if s.exitProbeRttAt ≤ e.eventTime ∧ s.probeRttRoundPassed then
      let s := { s with minRttTimestamp := e.eventTime }
      if !s.isAtFullBandwidth then s.enterStartupMode c
      else s.enterProbeBandwidthMode e.eventTime e.random
    else s

def maybeEnterOrExitProbeRtt (c : Config) (s : Sender) (e : CongestionEvent)
    (isRoundStart minRttExpired : Bool) : Sender :=
  let s := s.maybeEnterProbeRtt minRttExpired
  let s := if s.mode = .PROBE_RTT then s.probeRtt c e isRoundStart else s
  { s with exitingQuiescence := false }

/-- The sender after the part of `OnCongestionEvent` that belongs to `PROBE_BW`. -/
def cycled (c : Config) (s : Sender) (e : CongestionEvent) : Sender :=
  let s := (s.processAcks c e).1
  if s.mode = .PROBE_BW then s.updateGainCyclePhase c e.eventTime e.bytesInFlight else s

def onCongestionEvent (c : Config) (s : Sender) (e : CongestionEvent) : Sender :=
  let isRoundStart := (s.processAcks c e).2.1
  let minRttExpired := (s.processAcks c e).2.2
  let s := s.cycled c e
  let s := if isRoundStart && !s.isAtFullBandwidth then s.checkIfFullBandwidthReached c else s
  let s := s.maybeExitStartupOrDrain c e
  s.maybeEnterOrExitProbeRtt c e isRoundStart minRttExpired

/-! ## Steps -/

/-- The calls that reach a sender. -/
inductive Action where
  | congestionEvent (e : CongestionEvent)
  /-- `OnPacketSent`, with nothing in flight and the sampler limited by the application, or not. -/
  | packetSent (packetNumber : ℕ) (quiescent : Bool)
  /-- `OnApplicationLimited`, where it does not return early. -/
  | applicationLimited
  /-- `setTargetRate` of the interface. -/
  | setTargetRate (rate : ℤ)
  /-- `AdjustNetworkParameters`, with the bandwidth that is injected. -/
  | adjustNetworkParameters (bandwidth : Option ℕ) (rtt : ℕ)

def step (c : Config) (s : Sender) : Action → Sender
  | .congestionEvent e => s.onCongestionEvent c e
  | .packetSent packetNumber quiescent =>
    { s with
        lastSentPacket := some packetNumber
        exitingQuiescence := quiescent || s.exitingQuiescence }
  | .applicationLimited => { s with appLimitedSinceLastProbeRtt := true }
  | .setTargetRate rate => { s with targetRate := some rate }
  | .adjustNetworkParameters bandwidth rtt =>
    let s :=
      match bandwidth with
      | some b => { s with maxBandwidth := s.maxBandwidth.update b s.roundTripCount }
      | none => s
    if rtt ≠ 0 ∧ (rtt < s.minRtt ∨ s.minRtt = 0) then { s with minRtt := rtt } else s

/-! ## What the acknowledgements leave alone -/

/-- The mode and the start of the cycle. -/
def cycle (s : Sender) : Mode × ℕ := (s.mode, s.lastCycleStart)

theorem mode_of_cycle {s t : Sender} (h : Same cycle s t) : t.mode = s.mode := congrArg Prod.fst h

theorem start_of_cycle {s t : Sender} (h : Same cycle s t) : t.lastCycleStart = s.lastCycleStart :=
  congrArg Prod.snd h

theorem cycle_updateRoundTripCounter (s : Sender) (lastAckedPacket : ℕ) :
    Same cycle s (s.updateRoundTripCounter lastAckedPacket).1 := by
  unfold updateRoundTripCounter
  split
  · exact rfl
  · exact rfl

theorem cycle_acknowledge (r : Sender × WithTop ℕ) (packet : AckedPacket) :
    Same cycle r.1 (acknowledge r packet).1 := by
  unfold acknowledge
  split
  · exact rfl
  · simp only
    split
    · exact rfl
    · exact rfl

theorem cycle_foldl_acknowledge (acked : List AckedPacket) (r : Sender × WithTop ℕ) :
    Same cycle r.1 (acked.foldl acknowledge r).1 := by
  induction acked generalizing r with
  | nil => exact rfl
  | cons packet acked ih => exact (cycle_acknowledge r packet).trans (ih _)

theorem cycle_updateMinRtt (c : Config) (s : Sender) (now : ℕ) (sampleMinRtt : WithTop ℕ) :
    Same cycle s (s.updateMinRtt c now sampleMinRtt).1 := by
  unfold updateMinRtt
  split
  · exact rfl
  · simp only
    split
    · exact rfl
    · exact rfl

theorem cycle_exitRecovery (s : Sender) (lastAckedPacket : ℕ) (hasLosses : Bool) :
    Same cycle s (s.exitRecovery lastAckedPacket hasLosses) :=
  Same.ite rfl rfl

theorem cycle_updateRecoveryState (s : Sender) (lastAckedPacket : ℕ)
    (hasLosses isRoundStart : Bool) :
    Same cycle s (s.updateRecoveryState lastAckedPacket hasLosses isRoundStart) := by
  have hend :
      Same cycle s (if hasLosses then { s with endRecoveryAt := s.lastSentPacket } else s) :=
    Same.ite rfl rfl
  refine hend.trans ?_
  unfold updateRecoveryState
  generalize (if hasLosses then { s with endRecoveryAt := s.lastSentPacket } else s) = t
  simp only
  split
  · exact Same.ite rfl rfl
  · have hgrowth : Same cycle t (if isRoundStart then { t with recoveryState := .GROWTH } else t) :=
      Same.ite rfl rfl
    exact hgrowth.trans (cycle_exitRecovery _ _ _)
  · exact cycle_exitRecovery _ _ _

/-- The acknowledgements leave the mode to what follows. -/
theorem cycle_processAcks (c : Config) (s : Sender) (e : CongestionEvent) :
    Same cycle s (s.processAcks c e).1 := by
  unfold processAcks
  cases e.ackedPackets.getLast? with
  | none => exact rfl
  | some last =>
    have hround := cycle_updateRoundTripCounter s last.packetNumber
    have hloop := cycle_foldl_acknowledge e.ackedPackets
      ((s.updateRoundTripCounter last.packetNumber).1, ⊤)
    exact ((hround.trans hloop).trans (cycle_updateMinRtt c _ _ _)).trans
      (cycle_updateRecoveryState _ _ _ _)

/-! ## The mode and the start of the cycle -/

theorem cycle_updateGainCyclePhase (c : Config) (s : Sender) (now bytesInFlight : ℕ) :
    Same cycle s (s.updateGainCyclePhase c now bytesInFlight) :=
  Same.ite rfl rfl

theorem cycle_cycled (c : Config) (s : Sender) (e : CongestionEvent) :
    Same cycle s (s.cycled c e) := by
  have hacks := cycle_processAcks c s e
  exact Same.ite (hacks.trans (cycle_updateGainCyclePhase c _ _ _)) hacks

theorem cycle_checkIfFullBandwidthReached (c : Config) (s : Sender) :
    Same cycle s (s.checkIfFullBandwidthReached c) :=
  Same.ite rfl (Same.ite rfl rfl)

/-- In `PROBE_BW` after an event at `now`: for a sender that was there before, the start of the
cycle is the old one, and for a sender that was not, it is `now`. -/
def StartKept (now : ℕ) (s t : Sender) : Prop :=
  t.mode = .PROBE_BW → t.lastCycleStart = if s.mode = .PROBE_BW then s.lastCycleStart else now

theorem StartKept.of_cycle {now : ℕ} {s t u : Sender} (hst : Same cycle s t)
    (htu : StartKept now t u) : StartKept now s u := by
  unfold StartKept at htu ⊢
  rwa [mode_of_cycle hst, start_of_cycle hst] at htu

/-- A sender in `PROBE_BW` is not drained. -/
theorem maybeExitStartupOrDrain_of_probeBw (c : Config) {s : Sender} (h : s.mode = .PROBE_BW)
    (e : CongestionEvent) : s.maybeExitStartupOrDrain c e = s := by
  have hstartup : s.maybeExitStartup c = s := by
    unfold maybeExitStartup
    rw [if_neg (by simp [h])]
  unfold maybeExitStartupOrDrain
  rw [hstartup]
  simp [h]

theorem mode_maybeExitStartup_ne (c : Config) {s : Sender} (h : s.mode ≠ .PROBE_BW) :
    (s.maybeExitStartup c).mode ≠ .PROBE_BW := by
  unfold maybeExitStartup
  split
  · exact Mode.noConfusion
  · exact h

/-- Into `PROBE_BW` from `DRAIN`. -/
theorem start_maybeExitStartupOrDrain (c : Config) {s : Sender} (h : s.mode ≠ .PROBE_BW)
    (e : CongestionEvent) (hmode : (s.maybeExitStartupOrDrain c e).mode = .PROBE_BW) :
    (s.maybeExitStartupOrDrain c e).lastCycleStart = e.eventTime := by
  unfold maybeExitStartupOrDrain at hmode ⊢
  simp only at hmode ⊢
  split at hmode
  · next hdrain =>
    rw [if_pos hdrain]
    rfl
  · exact absurd hmode (mode_maybeExitStartup_ne c h)

/-- Whoever has just entered `PROBE_RTT` does not leave it in the same event. -/
theorem cycle_probeRtt (c : Config) {s : Sender} (h : s.exitProbeRttAt = 0)
    (e : CongestionEvent) (isRoundStart : Bool) : Same cycle s (s.probeRtt c e isRoundStart) := by
  unfold probeRtt
  rw [if_pos h]
  exact Same.ite rfl rfl

/-- Into `PROBE_BW` from `PROBE_RTT`. -/
theorem start_probeRtt (c : Config) {s : Sender} (h : s.mode ≠ .PROBE_BW) (e : CongestionEvent)
    (isRoundStart : Bool) (hmode : (s.probeRtt c e isRoundStart).mode = .PROBE_BW) :
    (s.probeRtt c e isRoundStart).lastCycleStart = e.eventTime := by
  by_cases hzero : s.exitProbeRttAt = 0
  · rw [mode_of_cycle (cycle_probeRtt c hzero e isRoundStart)] at hmode
    exact absurd hmode h
  have hround : Same cycle s (if isRoundStart then { s with probeRttRoundPassed := true } else s) :=
    Same.ite rfl rfl
  unfold probeRtt at hmode ⊢
  rw [if_neg hzero] at hmode ⊢
  generalize (if isRoundStart then { s with probeRttRoundPassed := true } else s) = t
    at hmode hround ⊢
  simp only at hmode ⊢
  split at hmode
  · next hexit =>
    rw [if_pos hexit]
    split at hmode
    · exact absurd hmode Mode.noConfusion
    · next hfull =>
      rw [if_neg hfull]
      rfl
  · exact absurd ((mode_of_cycle hround).symm.trans hmode) h

theorem startKept_maybeEnterOrExitProbeRtt (c : Config) (s : Sender) (e : CongestionEvent)
    (isRoundStart minRttExpired : Bool) :
    StartKept e.eventTime s (s.maybeEnterOrExitProbeRtt c e isRoundStart minRttExpired) := by
  intro hmode
  unfold maybeEnterOrExitProbeRtt at hmode ⊢
  simp only at hmode ⊢
  by_cases henter : minRttExpired ∧ !s.exitingQuiescence ∧ s.mode ≠ .PROBE_RTT
  · -- the sender stays in the mode it has just entered
    have hprobe : s.maybeEnterProbeRtt minRttExpired
        = { s with mode := .PROBE_RTT, pacingGain := 1, exitProbeRttAt := 0 } := if_pos henter
    rw [hprobe, if_pos rfl, mode_of_cycle (cycle_probeRtt c rfl e isRoundStart)] at hmode
    exact absurd hmode Mode.noConfusion
  · have hsame : s.maybeEnterProbeRtt minRttExpired = s := if_neg henter
    rw [hsame] at hmode ⊢
    split at hmode
    · next hprobe =>
      have h : s.mode ≠ .PROBE_BW := by
        rw [hprobe]
        exact Mode.noConfusion
      rw [if_pos hprobe, if_neg h]
      exact start_probeRtt c h e isRoundStart hmode
    · next hprobe => rw [if_neg hprobe, if_pos hmode]

theorem startKept_onCongestionEvent (c : Config) (s : Sender) (e : CongestionEvent) :
    StartKept e.eventTime s (s.onCongestionEvent c e) := by
  unfold onCongestionEvent
  simp only
  set t := if ((s.processAcks c e).2.1 && !(s.cycled c e).isAtFullBandwidth) = true then
    (s.cycled c e).checkIfFullBandwidthReached c else s.cycled c e with ht
  have hst : Same cycle s t := by
    have hcycled := cycle_cycled c s e
    have hcheck := cycle_checkIfFullBandwidthReached c (s.cycled c e)
    exact Same.ite (hcycled.trans hcheck) hcycled
  apply StartKept.of_cycle hst
  have hexit := startKept_maybeEnterOrExitProbeRtt c (t.maybeExitStartupOrDrain c e) e
    (s.processAcks c e).2.1 (s.processAcks c e).2.2
  intro hmode
  rw [hexit hmode]
  by_cases h : t.mode = .PROBE_BW
  · rw [maybeExitStartupOrDrain_of_probeBw c h]
  · rw [if_neg h]
    split
    · next hprobe => exact start_maybeExitStartupOrDrain c h e hprobe
    · rfl

theorem cycle_adjustNetworkParameters (c : Config) (s : Sender) (bandwidth : Option ℕ)
    (rtt : ℕ) : Same cycle s (s.step c (.adjustNetworkParameters bandwidth rtt)) := by
  cases bandwidth with
  | none => exact Same.ite rfl rfl
  | some b => exact Same.ite rfl rfl

/-- While the mode is `PROBE_BW`, the start of the cycle is not moved. -/
theorem lastCycleStart_of_stay (c : Config) {s : Sender} (h : s.mode = .PROBE_BW) (a : Action)
    (hmode : (s.step c a).mode = .PROBE_BW) :
    (s.step c a).lastCycleStart = s.lastCycleStart := by
  cases a with
  | congestionEvent e =>
    have hstart := startKept_onCongestionEvent c s e hmode
    rwa [if_pos h] at hstart
  | packetSent packetNumber quiescent => rfl
  | applicationLimited => rfl
  | setTargetRate rate => rfl
  | adjustNetworkParameters bandwidth rtt =>
    exact start_of_cycle (cycle_adjustNetworkParameters c s bandwidth rtt)

/-- The event that enters `PROBE_BW` is the start of the cycle. -/
theorem lastCycleStart_of_entry (c : Config) {s : Sender} (h : s.mode ≠ .PROBE_BW)
    (e : CongestionEvent) (hmode : (s.onCongestionEvent c e).mode = .PROBE_BW) :
    (s.onCongestionEvent c e).lastCycleStart = e.eventTime := by
  have hstart := startKept_onCongestionEvent c s e hmode
  rwa [if_neg h] at hstart

end Sender
end BbrGap
end Cc
end LiveStream
