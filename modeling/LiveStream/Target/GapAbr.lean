import LiveStream.Target.TargetAbr

/-!
# `GapAbr` and `RemoteAbr`

Two subclasses of `TargetAbr2` with a `decideQuality` of their own. Both take the quality from
the inherited planner. They differ from it, and from each other, in the bandwidth target they
set: `GapAbr` widens the search range where a step up in quality comes within reach, and
`RemoteAbr` asks a server.

`decideQuality` of `GapAbr` divides by the length of the next segments in whole milliseconds,
and the process is killed where that is zero; it returns `none` there.
-/

namespace LiveStream
namespace Target

open Lib AbrSchema

/-- What a call of `decideQuality` of the two subclasses reads besides the object and the
average bandwidth: the latest samples, and the recovery flag of the interface. -/
structure Readings extends Estimates where
  lastBandwidth : Option ℤ
  lastRtt : Option ℤ
  recovery : Bool

/-- What a call of `decideQuality` leaves in the object and in the congestion control, and the
quality it returns. -/
structure Outcome where
  bandwidthTarget : ℤ
  targetRate : Option ℤ
  quality : ℤ

/-- The factor on the average bandwidth for the planned quality: lower near the end of the video,
and in recovery. Both classes have the same constants. -/
def safeDownscale (length lastIndex : ℤ) (recovery : Bool) : ℚ :=
  if length - 5 < lastIndex then 7 / 10 else if recovery then 7 / 10 else 8 / 10

/-! ## `GapAbr` -/

namespace GapAbr

def horizonAdjustment : ℕ := 5
def qoePercentile : ℚ := 95 / 100
def qoeDelta : ℚ := 20 / 100
def step : ℤ := 100
def overPercent : ℚ := 125 / 100

/-- How much VMAF the next quality gains at a segment. -/
def vmafDifference (p : Planner) (index : ℤ) : ℤ :=
  truncate ((p.video.info (p.currentQuality + 1) index).vmaf
    - (p.video.info p.currentQuality index).vmaf)

/-- The segment of the horizon at which the next quality gains least. -/
def indexLowestDifference (p : Planner) : ℤ :=
  ((List.range (horizonAdjustment - 1)).foldl
    (fun (best : ℤ × ℤ) (k : ℕ) =>
      let i := p.lastIndex + 2 + k
      if vmafDifference p i < best.2 then (i, vmafDifference p i) else best)
    (p.lastIndex + 1, vmafDifference p (p.lastIndex + 1))).1

/-- The segments after the planned transition. -/
def transitionSegments (p : Planner) : List ℤ :=
  ((List.range horizonAdjustment).map fun k : ℕ => indexLowestDifference p + k).filter
    fun i => i < (p.video.track 0).length

/-- `avg_needed_bw`, in kbps; `none` where the division traps. -/
def avgNeededBw (p : Planner) : Option ℤ :=
  let totalSize : ℤ := ((transitionSegments p).map fun i =>
    ((p.video.info (p.currentQuality + 1) i).size : ℤ)).sum
  let totalLength := ((transitionSegments p).map fun i =>
    p.segmentLengthMs i (p.currentQuality + 1)).sum
  if totalLength = 0 then none else some ((8 * totalSize).tdiv totalLength)

/-- `gain < bound`, where a quotient by zero is infinite or not a number. -/
def gainBelow (maxBwSuggestion minBw : ℤ) (bound : ℚ) : Bool :=
  let numerator : ℚ := maxBwSuggestion * (8 / 10) - minBw
  if minBw = 0 then numerator < 0 else numerator / minBw < bound

/-- `final_qoe_percentile` for a search up to the suggestion. -/
def finalQoePercentile (maxBwSuggestion minBw startBuffer : ℤ) : ℚ :=
  let percentile : ℚ :=
    if gainBelow maxBwSuggestion minBw (7 / 10) then 99 / 100
    else if gainBelow maxBwSuggestion minBw (125 / 100) then 95 / 100
    else 9 / 10
  if 15 * SECOND < startBuffer then
    if percentile = 95 / 100 then 99 / 100
    else if percentile = 9 / 10 then 95 / 100
    else percentile
  else percentile

/-- The upper end of the search range, and the share of the QoE to keep. -/
def searchRange (p : Planner) (minBw maxBw : ℤ) : Option (ℤ × ℚ) :=
  if p.currentQuality < p.video.segments.length - 1 ∧
      p.lastIndex < (p.video.track 0).length - horizonAdjustment then do
    let suggestion := truncate ((← avgNeededBw p) * overPercent)
    if max minBw maxBw < suggestion then
      return (min suggestion (maxBw * 2), finalQoePercentile suggestion minBw p.startBuffer)
    else return (maxBw, qoePercentile)
  else some (maxBw, qoePercentile)

/-- The `while` loop that lowers the target as long as that share is kept. -/
def lowerTarget (qoeFirst : ℚ → ℤ) (minBw : ℤ) (floor : ℚ) (target : ℤ) : ℤ :=
  if minBw ≤ target - step ∧ floor ≤ qoeFirst (target - step : ℤ) then
    lowerTarget qoeFirst minBw floor (target - step)
  else target
termination_by (target - minBw).toNat
decreasing_by
  next h =>
    have hmin := h.1
    unfold step at hmin ⊢
    omega

def decideQuality (s : TargetAbr) (c : Scenario) (r : Readings) (index : ℤ) : Option Outcome :=
  if index ≤ 1 ∨ ((c.video.track 0).length : ℤ) < index then some ⟨s.bandwidthTarget, none, 0⟩
  else do
    let minBw := truncate (r.bandwidth * (1 - qoeDelta))
    let (maxBw, percentile) ←
      searchRange (s.planner c) minBw (truncate (r.bandwidth * (1 + qoeDelta)))
    let target := lowerTarget (s.qoeFirst c r.toEstimates) minBw
      (percentile * s.qoeFirst c r.toEstimates maxBw) maxBw
    let downscale := safeDownscale (c.video.track 0).length (s.base.decisionIndex - 1) r.recovery
    -- if the bandwidth estimate decreases, don't force further decrease
    return ⟨target, some (max r.bandwidth target),
      s.qoeSecond c r.toEstimates (downscale * r.bandwidth)⟩

end GapAbr

/-! ## `RemoteAbr` -/

namespace RemoteAbr

def horizonAdjustment : ℕ := 5

/-- The arguments of `getTargetDecision`. -/
structure Request where
  avgBandwidth : ℤ
  currentBandwidth : ℤ
  lastBuffer : ℤ
  lastRtt : ℤ
  currentQuality : ℤ
  currentIndex : ℤ
  vmafs : List (List ℤ)
  sizes : List (List ℤ)
deriving DecidableEq

/-- The segments of the horizon, from the latest decision on. -/
def horizon (p : Planner) : List ℤ :=
  ((List.range horizonAdjustment).map fun k : ℕ => p.lastIndex + k).filter
    fun i => i < (p.video.track 0).length

/-- A row for each segment of the horizon, with a column for each quality. -/
def matrix (p : Planner) (field : ℤ → ℤ → ℤ) : List (List ℤ) :=
  (horizon p).map fun i => (List.range p.video.segments.length).map fun q : ℕ => field q i

def request (p : Planner) (r : Readings) : Request where
  avgBandwidth := r.bandwidth
  currentBandwidth := r.lastBandwidth.getD r.bandwidth
  lastBuffer := p.startBuffer
  lastRtt := r.lastRtt.getD 0
  currentQuality := p.currentQuality
  currentIndex := p.lastIndex
  vmafs := matrix p p.video.vmaf
  sizes := matrix p fun q i => (p.video.info q i).size

/-- Near the end of the video nothing is sent. -/
def Request.isSent (q : Request) : Bool := horizonAdjustment ≤ q.vmafs.length

/-- `getTargetDecision`, where `answer` is what the exchange with the server yields: the number
on the last line, or 0 for an answer that is not a number and for an error of a socket. -/
def getTargetDecision (answer : Request → ℤ) (q : Request) : ℤ :=
  if q.isSent then answer q else 0

def decideQuality (s : TargetAbr) (c : Scenario) (r : Readings) (answer : Request → ℤ)
    (index : ℤ) : Outcome :=
  if index ≤ 1 ∨ ((c.video.track 0).length : ℤ) < index then ⟨s.bandwidthTarget, none, 0⟩
  else
    let target := getTargetDecision answer (request (s.planner c) r)
    let downscale := safeDownscale (c.video.track 0).length (s.base.decisionIndex - 1) r.recovery
    -- the target is a local variable here, which hides the member
    ⟨s.bandwidthTarget, some target, s.qoeSecond c r.toEstimates (downscale * r.bandwidth)⟩

end RemoteAbr

end Target
end LiveStream
