import LiveStream.Cc.Gap
import LiveStream.Cc.Minerva
import LiveStream.Lib.Group

/-!
# The Minerva sender

The rest of `cc/minerva.cc`: how the window grows between losses, slow start and its early end,
proportional rate reduction during recovery, timeouts and migrations, and the interface all senders
share with the ABR algorithm.

The members and the reaction to a loss are those of `TcpMinervaSenderBytes`. The growth is computed
with natural numbers, and reduced modulo `2 ^ 64` where the source may overflow. Times are in
microseconds.
-/

namespace LiveStream
namespace Cc

open Lib

/-! ## Growth -/

def kCubeCongestionWindowScale : ℕ := 410

/-- `(1 << kCubeScale) / kCubeCongestionWindowScale / kDefaultTCPMSS`. -/
def kCubeFactor : ℕ := 2 ^ 40 / kCubeCongestionWindowScale / 1460

/-- A floating-point number converted to a word, where `none` is one that is not finite. As for
`toInt`, a number out of range becomes what x86 conversions return. -/
def toWord : Option ℚ → ℕ
  | none => 2 ^ 63
  | some x =>
    if -2 ^ 63 ≤ truncate x ∧ truncate x < 2 ^ 64 then (truncate x % 2 ^ 64).toNat else 2 ^ 63

/-- The members of `MinervaBytes` that only the growth uses. -/
structure CubicGrowth where
  ackedBytesCount : ℕ
  estimatedTcpCongestionWindow : ℕ
  originPointCongestionWindow : ℕ
  /-- In 1024ths of a second. -/
  timeToOriginPoint : ℕ

namespace CubicGrowth

def reset : CubicGrowth := ⟨0, 0, 0, 0⟩

/-- What the curve is away from its origin after the given time. -/
def deltaCongestionWindow (offset : ℕ) : ℕ :=
  kCubeCongestionWindowScale * offset ^ 3 * 1460 % 2 ^ 64 / 2 ^ 40

/-- The cubic curve, at a time since the start of the epoch. -/
def curve (g : CubicGrowth) (elapsedTime : ℤ) : ℕ :=
  let delta := deltaCongestionWindow (g.timeToOriginPoint - elapsedTime).natAbs
  if g.timeToOriginPoint < elapsedTime then (g.originPointCongestionWindow + delta) % 2 ^ 64
  else (g.originPointCongestionWindow + 2 ^ 64 - delta) % 2 ^ 64

end CubicGrowth

namespace MinervaBytes

/-- `Alpha()`. A quotient by zero is not finite. -/
def alpha (m : MinervaBytes) (linkWeight : Option ℚ) : Option ℚ :=
  match m.beta linkWeight with
  | none => none
  | some beta =>
    if 1 + beta = 0 then none
    else some (3 * m.numConnections * m.numConnections * (1 - beta) / (1 + beta))

/-- The first ACK after a loss event starts an epoch. -/
def startEpoch (m : MinervaBytes) (g : CubicGrowth) (ackedBytes currentCongestionWindow
    eventTime : ℕ) : MinervaBytes × CubicGrowth :=
  if m.epoch = 0 then
    let lastMax := m.lastMaxCongestionWindow.toNat
    ({ m with epoch := eventTime },
      if lastMax ≤ currentCongestionWindow then
        ⟨ackedBytes, currentCongestionWindow, currentCongestionWindow, 0⟩
      else
        ⟨ackedBytes, currentCongestionWindow, lastMax,
          Nat.nthRoot 3 (kCubeFactor * (lastMax - currentCongestionWindow) % 2 ^ 64)⟩)
  else (m, { g with ackedBytesCount := (g.ackedBytesCount + ackedBytes) % 2 ^ 64 })

/-- The time since the start of the epoch, in 1024ths of a second. -/
def elapsedTime (m : MinervaBytes) (delayMin eventTime : ℕ) : ℤ :=
  (((eventTime : ℤ) + delayMin - m.epoch) * 2 ^ 10).tdiv 1000000

/-- The window of a TCP connection, after the acknowledged bytes. -/
def estimate (m : MinervaBytes) (linkWeight : Option ℚ) (g : CubicGrowth) : ℕ :=
  let estimated := g.estimatedTcpCongestionWindow
  toWord (match m.alpha linkWeight with
    | none => none
    | some alpha =>
      if estimated = 0 then none
      else some (estimated + g.ackedBytesCount * (alpha * 1460) / estimated))

def congestionWindowAfterAck (m : MinervaBytes) (g : CubicGrowth) (linkWeight : Option ℚ)
    (ackedBytes currentCongestionWindow delayMin eventTime : ℕ) :
    MinervaBytes × CubicGrowth × ℕ :=
  let (m, g) := m.startEpoch g ackedBytes currentCongestionWindow eventTime
  -- limit the increase to half the acked bytes
  let target := min (g.curve (m.elapsedTime delayMin eventTime))
    ((currentCongestionWindow + g.ackedBytesCount / 2) % 2 ^ 64)
  let estimated := m.estimate linkWeight g
  (m, { g with estimatedTcpCongestionWindow := estimated, ackedBytesCount := 0 },
    if target < estimated then estimated else target)

/-- `ResetCubicState()`. -/
def resetCubicState (m : MinervaBytes) : MinervaBytes :=
  { m with epoch := 0, lastMaxCongestionWindow := 0 }

end MinervaBytes

/-! ## Proportional rate reduction -/

structure PrrSender where
  bytesSentSinceLoss : ℕ
  bytesDeliveredSinceLoss : ℕ
  ackCountSinceLoss : ℕ
  bytesInFlightBeforeLoss : ℕ

namespace PrrSender

def new : PrrSender := ⟨0, 0, 0, 0⟩

def onPacketSent (p : PrrSender) (sentBytes : ℕ) : PrrSender :=
  { p with bytesSentSinceLoss := p.bytesSentSinceLoss + sentBytes }

def onPacketLost (priorInFlight : ℕ) : PrrSender := ⟨0, 0, 0, priorInFlight⟩

def onPacketAcked (p : PrrSender) (ackedBytes : ℕ) : PrrSender :=
  { p with
    bytesDeliveredSinceLoss := p.bytesDeliveredSinceLoss + ackedBytes
    ackCountSinceLoss := p.ackCountSinceLoss + 1 }

def canSend (p : PrrSender) (congestionWindow bytesInFlight slowstartThreshold : ℕ) : Bool :=
  if p.bytesSentSinceLoss = 0 ∨ bytesInFlight < 1460 then true
  else if bytesInFlight < congestionWindow then
    -- during PRR-SSRB, one extra packet for each ack
    p.bytesSentSinceLoss < p.bytesDeliveredSinceLoss + p.ackCountSinceLoss * 1460
  else
    p.bytesSentSinceLoss * p.bytesInFlightBeforeLoss
      < p.bytesDeliveredSinceLoss * slowstartThreshold

end PrrSender

/-! ## Hybrid slow start -/

structure HybridSlowStart where
  started : Bool
  /-- `hystart_found_` is `DELAY`. -/
  hystartFound : Bool
  lastSentPacketNumber : Option ℕ
  endPacketNumber : Option ℕ
  rttSampleCount : ℕ
  currentMinRtt : ℕ

namespace HybridSlowStart

def new : HybridSlowStart := ⟨false, false, none, none, 0, 0⟩

def isEndOfRound (h : HybridSlowStart) (ack : ℕ) : Bool := h.endPacketNumber.all (· ≤ ack)

def onPacketAcked (h : HybridSlowStart) (ackedPacketNumber : ℕ) : HybridSlowStart :=
  if h.isEndOfRound ackedPacketNumber then { h with started := false } else h

def onPacketSent (h : HybridSlowStart) (packetNumber : ℕ) : HybridSlowStart :=
  { h with lastSentPacketNumber := some packetNumber }

def restart (h : HybridSlowStart) : HybridSlowStart :=
  { h with started := false, hystartFound := false }

def startReceiveRound (h : HybridSlowStart) : HybridSlowStart :=
  { h with
    endPacketNumber := h.lastSentPacketNumber
    currentMinRtt := 0
    rttSampleCount := 0
    started := true }

/-- The delay of a sample; the round is judged at its eighth. -/
def sampled (h : HybridSlowStart) (latestRtt minRtt : ℕ) : HybridSlowStart :=
  let count := h.rttSampleCount + 1
  let currentMin :=
    if count ≤ 8 ∧ (h.currentMinRtt = 0 ∨ latestRtt < h.currentMinRtt) then latestRtt
    else h.currentMinRtt
  let threshold := max (min (minRtt / 8) 16000) 4000
  { h with
    rttSampleCount := count
    currentMinRtt := currentMin
    hystartFound := h.hystartFound || (count = 8 ∧ minRtt + threshold < currentMin) }

def shouldExitSlowStart (h : HybridSlowStart) (latestRtt minRtt congestionWindow : ℕ) :
    HybridSlowStart × Bool :=
  let h := if h.started then h else h.startReceiveRound
  if h.hystartFound then (h, true)
  else
    let h := h.sampled latestRtt minRtt
    (h, 16 ≤ congestionWindow ∧ h.hystartFound)

end HybridSlowStart

/-! ## The sender -/

/-- `TcpMinervaSenderBytes` with all of its members, statistics apart. -/
structure MinervaSender extends TcpMinervaSenderBytes where
  /-- `this`, for the interface. -/
  name : ℕ
  growth : CubicGrowth
  prr : PrrSender
  hybridSlowStart : HybridSlowStart
  largestAckedPacketNumber : Option ℕ
  min4Mode : Bool
  maxCongestionWindow : UInt64
  initialMaxTcpCongestionWindow : UInt64

namespace MinervaSender

def kDefaultNumConnections : ℕ := 2

def kDefaultMinimumCongestionWindow : UInt64 := 2 * kDefaultTCPMSS

def kMaxResumptionCongestionWindow : UInt64 := 200

structure Arguments where
  initialTcpCongestionWindow : UInt64
  maxCongestionWindow : UInt64

def new (name : ℕ) (a : Arguments) : MinervaSender where
  cubic := ⟨kDefaultNumConnections, by decide, 0, 0⟩
  linkWeight := none
  congestionWindow := a.initialTcpCongestionWindow * kDefaultTCPMSS
  minCongestionWindow := kDefaultMinimumCongestionWindow
  slowstartThreshold := a.maxCongestionWindow * kDefaultTCPMSS
  minSlowStartExitWindow := kDefaultMinimumCongestionWindow
  initialTcpCongestionWindow := a.initialTcpCongestionWindow * kDefaultTCPMSS
  largestSentPacketNumber := none
  largestSentAtLastCutback := none
  lastCutbackExitedSlowstart := false
  slowStartLargeReduction := false
  numAckedPackets := 0
  name := name
  growth := .reset
  prr := .new
  hybridSlowStart := .new
  largestAckedPacketNumber := none
  min4Mode := false
  maxCongestionWindow := a.maxCongestionWindow * kDefaultTCPMSS
  initialMaxTcpCongestionWindow := a.maxCongestionWindow * kDefaultTCPMSS

variable (s : MinervaSender)

def inRecovery : Bool :=
  s.largestAckedPacketNumber.any fun acked => s.largestSentAtLastCutback.any (acked ≤ ·)

def canSend (bytesInFlight : ℕ) : Bool :=
  if s.inRecovery then
    s.prr.canSend s.congestionWindow.toNat bytesInFlight s.slowstartThreshold.toNat
  else bytesInFlight < s.congestionWindow.toNat || (s.min4Mode && bytesInFlight < 4 * 1460)

/-! ### Acknowledgements and losses -/

structure LostPacket where
  packetNumber : ℕ
  bytesLost : UInt64

structure AckedPacket where
  packetNumber : ℕ
  bytesAcked : ℕ

/-- The arguments of `OnCongestionEvent`, and what `RttStats` of the connection say then. -/
structure CongestionEvent where
  rttUpdated : Bool
  latestRtt : ℕ
  minRtt : ℕ
  priorInFlight : ℕ
  eventTime : ℕ
  ackedPackets : List AckedPacket
  lostPackets : List LostPacket

def exitSlowstart : MinervaSender := { s with slowstartThreshold := s.congestionWindow }

/-- The test for an early end of slow start, which is made only in slow start. -/
def maybeExitSlowstart (e : CongestionEvent) : MinervaSender :=
  if e.rttUpdated && s.inSlowStart then
    let r := s.hybridSlowStart.shouldExitSlowStart e.latestRtt e.minRtt
      (s.congestionWindow / kDefaultTCPMSS).toNat
    let t := { s with hybridSlowStart := r.1 }
    if r.2 then t.exitSlowstart else t
  else s

/-- `OnPacketLost`, with the object of the rate reduction. -/
def onPacketLost (priorInFlight : ℕ) (packet : LostPacket) : MinervaSender :=
  { s with
    toTcpMinervaSenderBytes :=
      s.toTcpMinervaSenderBytes.onPacketLost packet.packetNumber packet.bytesLost
    prr := if s.precedesCutback packet.packetNumber then s.prr else .onPacketLost priorInFlight }

/-- `MaybeIncreaseCwnd`. -/
def maybeIncreaseCwnd (ackedBytes minRtt eventTime : ℕ) : MinervaSender :=
  if s.maxCongestionWindow ≤ s.congestionWindow then s
  else if s.inSlowStart then { s with congestionWindow := s.congestionWindow + kDefaultTCPMSS }
  else
    let (cubic, growth, window) := s.cubic.congestionWindowAfterAck s.growth s.linkWeight ackedBytes
      s.congestionWindow.toNat minRtt eventTime
    { s with
      cubic := cubic
      growth := growth
      congestionWindow := min s.maxCongestionWindow (UInt64.ofNat window) }

/-- `largest_acked_packet_number_.UpdateMax`. -/
def updateLargestAcked (packetNumber : ℕ) : MinervaSender :=
  { s with
    largestAckedPacketNumber :=
      some (s.largestAckedPacketNumber.elim packetNumber (max packetNumber)) }

def onPacketAcked (minRtt eventTime : ℕ) (packet : AckedPacket) : MinervaSender :=
  let s := s.updateLargestAcked packet.packetNumber
  if s.inRecovery then { s with prr := s.prr.onPacketAcked packet.bytesAcked }
  else
    let s := s.maybeIncreaseCwnd packet.bytesAcked minRtt eventTime
    if s.inSlowStart then
      { s with hybridSlowStart := s.hybridSlowStart.onPacketAcked packet.packetNumber }
    else s

def onCongestionEvent (e : CongestionEvent) : MinervaSender :=
  let s := s.maybeExitSlowstart e
  let s := e.lostPackets.foldl (fun s packet => s.onPacketLost e.priorInFlight packet) s
  e.ackedPackets.foldl (fun s packet => s.onPacketAcked e.minRtt e.eventTime packet) s

/-! ### The other calls -/

def onPacketSent (packetNumber bytes : ℕ) (isRetransmittable : Bool) : MinervaSender :=
  if !isRetransmittable then s
  else
    { s with
      prr := if s.inRecovery then s.prr.onPacketSent bytes else s.prr
      largestSentPacketNumber := some packetNumber
      hybridSlowStart := s.hybridSlowStart.onPacketSent packetNumber }

def handleRetransmissionTimeout : MinervaSender :=
  { s with
    cubic := s.cubic.resetCubicState
    growth := .reset
    slowstartThreshold := s.congestionWindow / 2
    congestionWindow := s.minCongestionWindow }

def onRetransmissionTimeout (packetsRetransmitted : Bool) : MinervaSender :=
  let s := { s with largestSentAtLastCutback := none }
  if !packetsRetransmitted then s
  else { s with hybridSlowStart := s.hybridSlowStart.restart }.handleRetransmissionTimeout

def onConnectionMigration : MinervaSender :=
  { s with
    hybridSlowStart := s.hybridSlowStart.restart
    prr := .new
    largestSentPacketNumber := none
    largestAckedPacketNumber := none
    largestSentAtLastCutback := none
    lastCutbackExitedSlowstart := false
    cubic := s.cubic.resetCubicState
    growth := .reset
    numAckedPackets := 0
    congestionWindow := s.initialTcpCongestionWindow
    maxCongestionWindow := s.initialMaxTcpCongestionWindow
    slowstartThreshold := s.initialMaxTcpCongestionWindow }

def setInitialCongestionWindowInPackets (congestionWindow : UInt64) : MinervaSender :=
  { s with congestionWindow := congestionWindow * kDefaultTCPMSS }

/-- `AdjustNetworkParameters` and `SetCongestionWindowFromBandwidthAndRtt`. -/
def adjustNetworkParameters (bandwidth rtt : ℕ) : MinervaSender :=
  if bandwidth = 0 ∨ rtt = 0 then s
  else
    { s with
      congestionWindow := max s.minCongestionWindow
        (min (UInt64.ofNat (toBytesPerPeriod bandwidth rtt))
          (kMaxResumptionCongestionWindow * kDefaultTCPMSS)) }

/-- What a connection calls. -/
inductive Action where
  | congestionEvent (e : CongestionEvent)
  | packetSent (bytesInFlight packetNumber bytes : ℕ) (isRetransmittable : Bool)
  | canSend (bytesInFlight : ℕ)
  | retransmissionTimeout (packetsRetransmitted : Bool)
  | connectionMigration
  | setInitialCongestionWindowInPackets (congestionWindow : UInt64)
  | adjustNetworkParameters (bandwidth rtt : ℕ)

/-- `SetFromConfig` and `OnApplicationLimited` do nothing, and nobody calls
`SetNumEmulatedConnections` and `SetMinCongestionWindowInPackets`. -/
def perform : Action → MinervaSender
  | .congestionEvent e => s.onCongestionEvent e
  | .packetSent _ packetNumber bytes isRetransmittable =>
    s.onPacketSent packetNumber bytes isRetransmittable
  | .canSend _ => s
  | .retransmissionTimeout packetsRetransmitted => s.onRetransmissionTimeout packetsRetransmitted
  | .connectionMigration => s.onConnectionMigration
  | .setInitialCongestionWindowInPackets congestionWindow =>
    s.setInitialCongestionWindowInPackets congestionWindow
  | .adjustNetworkParameters bandwidth rtt => s.adjustNetworkParameters bandwidth rtt

/-- A call while the interface holds a weight. -/
def step (s : MinervaSender) (x : Option ℚ × Action) : MinervaSender :=
  { s with linkWeight := x.1 }.perform x.2

end MinervaSender

/-! ## The interface -/

/-- `MinervaInterface`, with the `RttStats` of the connections that exist: their smallest round trip
times, which `updateMinRtt` reads through the parent. `danglingRead` says whether it has read those
of a connection that does not exist any more. -/
structure MinervaInterface where
  minRtt : Option ℕ
  ackedBytes : ℕ
  linkWeight : Option ℚ
  parent : Option ℕ
  rttStats : ℕ → Option ℕ
  danglingRead : Bool

namespace MinervaInterface

open MinervaSender (Action AckedPacket CongestionEvent)

/-- The constructor leaves the parent open. Until the first sender is made nothing reads it. -/
def init : MinervaInterface := ⟨none, 0, none, none, fun _ => none, false⟩

variable (i : MinervaInterface)

/-- `updateMinRtt`, in milliseconds. A zero does not replace a value. -/
def updateMinRtt : MinervaInterface :=
  match i.parent with
  | none => i
  | some parent =>
    match i.rttStats parent with
    | none => { i with danglingRead := true }
    | some micros =>
      if micros / 1000 = 0 ∧ i.minRtt ≠ none then i else { i with minRtt := some (micros / 1000) }

def addAckedBytes (bytes : ℕ) : MinervaInterface := { i with ackedBytes := i.ackedBytes + bytes }

def resetAckedBytes : MinervaInterface := { i with ackedBytes := 0 }

def setLinkWeight (weight : ℚ) : MinervaInterface := { i with linkWeight := some weight }

/-- What `RttStats` of a connection say from now on. -/
def noteRtt (name minRtt : ℕ) : MinervaInterface :=
  { i with rttStats := Function.update i.rttStats name (some minRtt) }

def onPacketAcked (packet : AckedPacket) : MinervaInterface :=
  (i.addAckedBytes packet.bytesAcked).updateMinRtt

/-- What a call of a sender does to the interface. -/
def afterCall (name : ℕ) : Action → MinervaInterface
  | .congestionEvent e =>
    (e.ackedPackets.foldl onPacketAcked (i.noteRtt name e.minRtt)).updateMinRtt
  | .packetSent .. => i.updateMinRtt
  | .canSend _ => i.updateMinRtt
  | _ => i

/-- The calls of the ABR algorithm that change the interface. -/
inductive Call where
  | resetAckedBytes
  | setLinkWeight (weight : ℚ)

def call : Call → MinervaInterface
  | .resetAckedBytes => i.resetAckedBytes
  | .setLinkWeight weight => i.setLinkWeight weight

/-- The senders of a server over the interface. The constructor of a sender makes it the parent.
With the connection its `RttStats` are gone, but nobody tells the interface: the destructor does
nothing, and `CCWrapper` does not even call it. -/
def methods : Group.Methods MinervaInterface MinervaSender MinervaSender.Arguments Action Call where
  new i name a :=
    ({ i with parent := some name, rttStats := Function.update i.rttStats name (some 0) },
      .new name a)
  act i s a := (i.afterCall s.name a, s.step (i.linkWeight, a))
  destroy i name := { i with rttStats := Function.update i.rttStats name none }
  call := call

end MinervaInterface

end Cc
end LiveStream
