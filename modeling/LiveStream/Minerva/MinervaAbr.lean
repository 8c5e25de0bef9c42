import LiveStream.Abr.Schema
import LiveStream.Minerva.Normalize
import LiveStream.Minerva.Planner

/-!
# Minerva's flow weight

`MinervaAbr` decides no qualities. Its `decide` is a clock: once in every update interval it
measures the rate of the flow from the bytes acknowledged since the middle of the interval, and
hands the congestion controller the quotient of the average rate and a utility, which it computes
from the front-end's reports. The congestion controller counts the bytes in `MinervaInterface`.

Every read of the clock and of the smallest round-trip time is an input, and so is `std::sqrt`.
Floats are exact rationals, and times are in milliseconds.
-/

namespace LiveStream
namespace Minerva

open Lib
open AbrSchema (Metrics Segment Value)
open Abr (Tables)

namespace MinervaConstants

def updateIntervalFactor : ℤ := 25
def minRttStart : ℤ := 10
def maxRttStart : ℤ := 100
def varianceQueueLength : ℕ := 4
def initMovingAverageRate : ℚ := -1
def initUtility : ℚ := 0
def movingAverageRateProportion : ℚ := 9 / 10

end MinervaConstants

open MinervaConstants

/-! ## The state -/

/-- What the constructor fixes, and the library's square root. -/
structure Settings where
  tables : Tables
  shouldNormalize : Bool
  norm : List ℚ
  sqrt : ℚ → ℚ

structure MinervaAbr where
  timestamp : ℚ
  updateInterval : Option ℤ
  startedRateUpdate : Bool
  pastRates : List ℤ
  movingAverageRate : ℚ
  lastSegment : ℤ → Option Segment
  lastIndex : ℤ
  lastTimestamp : ℤ
  /-- `none` after a report without a quality, which is not initialised. -/
  lastQuality : Option ℤ
  lastBuffer : Value

structure MinervaInterface where
  ackedBytes : ℤ
  linkWeight : Option ℚ

structure System where
  abr : MinervaAbr
  interface : MinervaInterface

/-- The constructor, at this time. -/
def MinervaAbr.new (now : ℚ) : MinervaAbr where
  timestamp := now
  updateInterval := none
  startedRateUpdate := false
  pastRates := []
  movingAverageRate := initMovingAverageRate
  lastSegment := fun _ => none
  lastIndex := -1
  lastTimestamp := 0
  lastQuality := some (-1)
  lastBuffer := ⟨0, 0⟩

def System.new (now : ℚ) : System := ⟨MinervaAbr.new now, ⟨0, none⟩⟩

namespace MinervaAbr

/-! ## Reports -/

def registerBuffer (s : MinervaAbr) (buffer : Value) : MinervaAbr :=
  if s.lastBuffer.timestamp < buffer.timestamp then { s with lastBuffer := buffer } else s

/-- A report that a segment is loading becomes the last one of that segment; its quality is the
last quality if no later segment has been loading. -/
def registerLoading (s : MinervaAbr) (segment : Segment) : MinervaAbr :=
  let s := { s with lastSegment := Function.update s.lastSegment segment.index (some segment) }
  if s.lastIndex < segment.index then
    { s with lastIndex := segment.index, lastQuality := segment.quality }
  else s

def registerSegment (s : MinervaAbr) (segment : Segment) : MinervaAbr :=
  let s := { s with lastTimestamp := max s.lastTimestamp segment.timestamp }
  if segment.state = .loading then s.registerLoading segment else s

def registerMetrics (s : MinervaAbr) (metrics : Metrics) : MinervaAbr :=
  metrics.segments.foldl registerSegment (metrics.bufferLevel.foldl registerBuffer s)

/-! ## The utility -/

/-- The three qualities of experience that the utility is made of. -/
structure Terms where
  pastQoe : ℚ
  currentQoe : ℚ
  vh : ℚ
deriving DecidableEq

/-- The quality of the segment before the last one, or -1. -/
def prevSegmentQuality (s : MinervaAbr) : Option ℤ :=
  match s.lastSegment (s.lastIndex - 1) with
  | none => some (-1)
  | some segment => segment.quality

/-- The call of `get_best_rate`. -/
def bestRate (v : Tables) (s : MinervaAbr) : Option Choice := do
  let lastQuality ← s.lastQuality
  let rate := truncate s.movingAverageRate
  getBestRate v (s.lastIndex + 1) lastQuality s.lastBuffer.value rate

/-- `computeUtility`, up to the weights. -/
def terms (v : Tables) (s : MinervaAbr) : Option Terms := do
  let index := s.lastIndex
  let segment ← s.lastSegment index
  let lastSegmentQuality ← segment.quality
  let prevSegmentQuality ← s.prevSegmentQuality
  let pastQoe ← getQoe v index lastSegmentQuality prevSegmentQuality 0
  let best ← s.bestRate v
  let currentQoe ← getQoe v (index + 1) best.bestRate lastSegmentQuality (Cc.toInt best.rebuffer)
  some ⟨pastQoe, currentQoe, best.expectedQoe⟩

/-- The weight of the past: a quotient of integers. -/
def phi1 (index : ℤ) : ℚ := (Int.tdiv 1 (index + 1) : ℤ)

def phi2 : ℚ := 1

/-- The weighted average, which divides by what the weights add up to. -/
def weightedUtility (phi1 : ℚ) (t : Terms) : ℚ :=
  (phi1 * t.pastQoe + phi2 * t.currentQoe + t.vh) / (1 + phi1 + phi2)

def computeUtility (c : Settings) (s : MinervaAbr) : Option ℚ :=
  if s.lastIndex ≤ 1 then some initUtility
  else do
    let t ← s.terms c.tables
    let utility := weightedUtility (phi1 s.lastIndex) t
    if c.shouldNormalize then normalize c.norm utility else some utility

/-! ## The clock -/

/-- `updateIntervalMs`, from a read of the smallest round-trip time. -/
def updateIntervalMs (minRtt : Option ℤ) : Option ℤ :=
  minRtt.map fun rtt =>
    if rtt < minRttStart then minRttStart * updateIntervalFactor
    else if maxRttStart < rtt then maxRttStart * updateIntervalFactor
    else rtt * updateIntervalFactor

def conservativeRate (sqrt : ℚ → ℚ) (pastRates : List ℤ) : ℤ :=
  let back : ℤ := pastRates.getLastD 0
  if pastRates.length < varianceQueueLength then truncate (8 / 10 * back)
  else
    let mean : ℚ := (pastRates.map fun x : ℤ => (x : ℚ)).sum / pastRates.length
    let variance := (pastRates.map fun x : ℤ => (x - mean) * (x - mean)).sum / pastRates.length
    max (truncate (8 / 10 * back)) (truncate (back - 1 / 2 * sqrt variance))

/-- The first half of `onWeightUpdate`: the rate over half an interval goes into the average. -/
def measureRate (sqrt : ℚ → ℚ) (interval ackedBytes : ℤ) (s : MinervaAbr) : MinervaAbr :=
  let halfInterval : ℚ := interval / 2 / 1000
  let currentRate := truncate (8 * ackedBytes / halfInterval / 1000)
  let rates := s.pastRates ++ [currentRate]
  let rates := if varianceQueueLength < rates.length then rates.tail else rates
  let conservative := conservativeRate sqrt rates
  { s with
    pastRates := rates
    movingAverageRate :=
      if s.movingAverageRate = initMovingAverageRate then conservative
      else movingAverageRateProportion * s.movingAverageRate
        + (1 - movingAverageRateProportion) * conservative }

end MinervaAbr

/-- A call of `decide()`: what it reads of the round-trip time and of the clock, at the start and
at the end, and the weight that a utility gives which is not defined. -/
structure Call where
  minRtt : Option ℤ
  minRttAfter : Option ℤ
  now : ℚ
  nowAfter : ℚ
  undefinedWeight : Option ℚ := none

/-- What a call does to the byte counter. -/
inductive Action where
  | resetAckedBytes
  | weightUpdate (ackedBytes : ℤ)
deriving DecidableEq

namespace System

/-- `onStartRateUpdate`, and the flag. -/
def onStartRateUpdate (s : System) : System :=
  { abr := { s.abr with startedRateUpdate := true }
    interface := { s.interface with ackedBytes := 0 } }

def onWeightUpdate (c : Settings) (call : Call) (interval : ℤ) (s : System) : System :=
  let abr := s.abr.measureRate c.sqrt interval s.interface.ackedBytes
  let linkWeight :=
    match abr.computeUtility c with
    | none => call.undefinedWeight
    | some utility =>
      if utility ≠ initUtility then some (abr.movingAverageRate / utility)
      else s.interface.linkWeight
  { abr := abr, interface := { s.interface with linkWeight := linkWeight } }

/-- A new interval begins. -/
def restart (call : Call) (s : System) : System :=
  { s with
    abr := { s.abr with
      startedRateUpdate := false
      updateInterval := MinervaAbr.updateIntervalMs call.minRttAfter
      timestamp := call.nowAfter } }

/-- The second half of the interval has begun, and the counter has not been reset in it. -/
def HalfwayDue (s : System) (call : Call) (interval : ℤ) : Prop :=
  ((interval.tdiv 2 : ℤ) : ℚ) < call.now - s.abr.timestamp ∧ s.abr.startedRateUpdate = false

/-- The interval is over. -/
def UpdateDue (s : System) (call : Call) (interval : ℤ) : Prop :=
  (interval : ℚ) < call.now - s.abr.timestamp

instance (s : System) (call : Call) (interval : ℤ) : Decidable (s.HalfwayDue call interval) :=
  inferInstanceAs (Decidable (_ ∧ _))

instance (s : System) (call : Call) (interval : ℤ) : Decidable (s.UpdateDue call interval) :=
  inferInstanceAs (Decidable (_ < _))

/-- The first test of `decide()`. -/
def halfway (call : Call) (interval : ℤ) (s : System) : System × List Action :=
  if s.HalfwayDue call interval then (s.onStartRateUpdate, [.resetAckedBytes]) else (s, [])

/-- The second test of `decide()`. -/
def finish (c : Settings) (call : Call) (interval : ℤ) (s : System) : System × List Action :=
  if s.UpdateDue call interval then
    ((s.onWeightUpdate c call interval).restart call, [.weightUpdate s.interface.ackedBytes])
  else (s, [])

/-- `decide()`, with what it does to the counter. The first call that knows a round-trip time
starts the first interval. -/
def decide (c : Settings) (s : System) (call : Call) : System × List Action :=
  match MinervaAbr.updateIntervalMs call.minRtt, s.abr.updateInterval with
  | none, _ => (s, [])
  | some _, none =>
    ({ s with abr := { s.abr with
        updateInterval := MinervaAbr.updateIntervalMs call.minRttAfter
        timestamp := call.nowAfter } }, [])
  | some _, some interval =>
    let first := s.halfway call interval
    let second := first.1.finish c call interval
    (second.1, first.2 ++ second.2)

/-! ## Runs -/

/-- What happens to the object and its interface. -/
inductive Event where
  | registerMetrics (metrics : Metrics)
  | addAckedBytes (bytes : ℤ)
  | decide (call : Call)

def step (c : Settings) (s : System) : Event → System
  | .registerMetrics metrics => { s with abr := s.abr.registerMetrics metrics }
  | .addAckedBytes bytes =>
    { s with interface := { s.interface with ackedBytes := s.interface.ackedBytes + bytes } }
  | .decide call => (s.decide c call).1

end System

end Minerva
end LiveStream
