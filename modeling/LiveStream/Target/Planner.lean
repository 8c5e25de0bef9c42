import LiveStream.Lib.Relax
import LiveStream.Video.Config

/-!
# The planner of the target algorithms

`qoe` of `TargetAbr` and `TargetAbr2`: a dynamic program over the next segments that looks
for the sequence of qualities with the best total QoE under a fixed bandwidth, and returns
that total with the first quality of the sequence. The two functions have one body; they
differ, with `TargetAbr3`, in the `localQoe` they call.

Doubles are exact rationals. The table `dp` is keyed by the full triple of segment, buffer
and quality; `HashTables` has the hash tables of the source, and says where they come to the
same. The order in which an unordered container is traversed is a parameter
(`IterationOrder`).
-/

namespace LiveStream
namespace Target

open Lib
open Video (VideoInfo)

/-! ## The video -/

/-- The member `segments`, for a video whose tracks are equally long. -/
structure TrackTable where
  segments : List (List VideoInfo)
  length : ℕ
  nonempty : segments ≠ []
  equallyLong : ∀ track ∈ segments, track.length = length

/-- The member `segments`, for a video whose tracks are equally long and in order. -/
structure Tracks extends TrackTable where
  ordered : ∀ track ∈ segments, (track.map VideoInfo.startTime).Pairwise (· ≤ ·)

instance : CoeOut Tracks TrackTable := ⟨Tracks.toTrackTable⟩

namespace TrackTable

/-- `segments[quality]`. The planner stays inside the vectors. -/
def track (v : TrackTable) (quality : ℤ) : List VideoInfo := v.segments.getD quality.toNat []

/-- `segments[quality][index]`. -/
def info (v : TrackTable) (quality index : ℤ) : VideoInfo :=
  (v.track quality).getD index.toNat ⟨0, 0, 0⟩

def vmaf (v : TrackTable) (quality index : ℤ) : ℤ := truncate (v.info quality index).vmaf

end TrackTable

/-! ## Constants -/

def SECOND : ℚ := 1000

namespace TargetAbrConstants

def horizon : ℕ := 10
def alpha : ℚ := 1
def beta : ℚ := 5 / 2
def gamma : ℚ := 100
def zetta : ℚ := 2 * gamma / horizon
def qoePercentile : ℚ := 95 / 100
def qoeDelta : ℚ := 15 / 100
def step : ℤ := 100
def safeDownscale : ℚ := 4 / 5

end TargetAbrConstants

/-- Buffer levels are counted in units of 40 ms. -/
def bufferUnit : ℤ := 40

/-- 100 seconds in buffer units. -/
def maxBuffer : ℕ := 2500

/-! ## The QoE of one segment -/

open TargetAbrConstants in
/-- What all three weigh: the quality, its variation, and the rebuffering in ms. -/
def baseQoe (currentVmaf lastVmaf rebuffer : ℤ) : ℚ :=
  alpha * currentVmaf - beta * |(currentVmaf - lastVmaf : ℚ)| - gamma * rebuffer / SECOND

def TargetAbr.localQoe (currentVmaf lastVmaf rebuffer _buffer : ℤ) : ℚ :=
  baseQoe currentVmaf lastVmaf rebuffer

def TargetAbr2.localQoe (currentVmaf lastVmaf rebuffer _buffer : ℤ) : ℚ :=
  baseQoe currentVmaf lastVmaf rebuffer

/-- `TargetAbr3` also charges the buffer. -/
def TargetAbr3.localQoe (currentVmaf lastVmaf rebuffer buffer : ℤ) : ℚ :=
  baseQoe currentVmaf lastVmaf rebuffer - TargetAbrConstants.zetta * buffer / SECOND

/-! ## States and values of the table -/

/-- `state_t`. -/
structure State where
  segment : ℤ
  buffer : ℤ
  quality : ℤ
deriving DecidableEq

/-- The default constructed state. -/
def State.null : State := ⟨-1, -1, -1⟩

/-- `operator==`, which does not look at the quality. -/
def State.eq (s t : State) : Bool := s.segment = t.segment && s.buffer = t.buffer

/-- `value_t`: the best total, the VMAF of the last segment, and where the total came from. -/
structure Value where
  qoe : ℤ
  vmaf : ℤ
  fromState : State
deriving DecidableEq

/-- In what order the states of `curr_states` are visited for `current_index`. Nothing is
assumed except that every state is visited once. -/
structure IterationOrder where
  visit : ℤ → List State → List State
  perm : ∀ i states, (visit i states).Perm states

/-- Visiting the states in the order they were inserted. -/
def IterationOrder.insertion : IterationOrder := ⟨fun _ states => states, fun _ _ => .refl _⟩

/-! ## The planner -/

/-- What `qoe` reads of its object: `lastIndex` is the index of the latest decision,
`currentQuality` the quality decided there, and `startBuffer` the last buffer level. -/
structure Planner where
  video : TrackTable
  localQoe : ℤ → ℤ → ℤ → ℤ → ℚ
  lastIndex : ℤ
  currentQuality : ℤ
  startBuffer : ℤ

/-- `ref_index` of `get_segment_length_ms`: step back until there is a next start time. -/
def refIndex (size index : ℤ) : ℤ :=
  if size ≤ index + 1 then refIndex size (index - 1) else index
termination_by (index + 2 - size).toNat
decreasing_by omega

namespace Planner

variable (p : Planner) (bandwidth : ℚ)

/-- `get_segment_length_ms`. -/
def segmentLengthMs (currentIndex chunkQuality : ℤ) : ℤ :=
  let ref := refIndex (p.video.track chunkQuality).length (currentIndex + 1)
  truncate (SECOND *
    ((p.video.info chunkQuality (ref + 1)).startTime - (p.video.info chunkQuality ref).startTime))

/-- The time the next segment takes under a positive bandwidth in kbps. -/
def downloadTimeMs (currentIndex chunkQuality : ℤ) : ℚ :=
  let sizeKb : ℚ := 8 * (p.video.info chunkQuality (currentIndex + 1)).size / SECOND
  sizeKb / bandwidth * SECOND

/-- The time the playback stalls while the next segment is downloaded. -/
def rebuffer (currentIndex : ℤ) (s : State) (chunkQuality : ℤ) : ℚ :=
  let currentBuffer : ℚ := s.buffer * bufferUnit
  let downloadTimeMs := p.downloadTimeMs bandwidth currentIndex chunkQuality
  if currentBuffer < downloadTimeMs then downloadTimeMs - currentBuffer else 0

/-- The buffer level, in ms, once the next segment is downloaded. -/
def bufferAfter (currentIndex : ℤ) (s : State) (chunkQuality : ℤ) : ℚ :=
  let currentBuffer : ℚ := s.buffer * bufferUnit
  let downloadTimeMs := p.downloadTimeMs bandwidth currentIndex chunkQuality
  let left := if currentBuffer < downloadTimeMs then 0 else currentBuffer - downloadTimeMs
  min (left + p.segmentLengthMs currentIndex chunkQuality) (maxBuffer * bufferUnit)

def nextState (currentIndex : ℤ) (s : State) (chunkQuality : ℤ) : State where
  segment := currentIndex + 1
  buffer := truncate (p.bufferAfter bandwidth currentIndex s chunkQuality / bufferUnit)
  quality := chunkQuality

/-- `localQoe` of the next segment, with its arguments converted to `int`. -/
def nextQoe (currentIndex lastVmaf : ℤ) (s : State) (chunkQuality : ℤ) : ℚ :=
  p.localQoe (p.video.vmaf chunkQuality (currentIndex + 1)) lastVmaf
    (truncate (p.rebuffer bandwidth currentIndex s chunkQuality))
    (truncate (p.bufferAfter bandwidth currentIndex s chunkQuality))

/-- The qualities tried after a state: at most one up, two down. -/
def qualities (s : State) : List ℤ :=
  let maxQuality := min ((p.video.segments.length : ℤ) - 1) (s.quality + 1)
  let minQuality := max 0 (s.quality - 2)
  (List.range (maxQuality + 1 - minQuality).toNat).map fun i : ℕ => minQuality + i

/-! ## The loops -/

/-- The variables of the search: `states` is `curr_states`, or `next_states` while it is
being filled. -/
structure Search where
  dp : State → Option Value
  states : List State
  maxSegment : ℤ

/-- `dp[s]`. -/
def lookup (dp : State → Option Value) (s : State) : Value := (dp s).getD ⟨0, 0, State.null⟩

def startState : State := ⟨p.lastIndex, p.startBuffer.tdiv bufferUnit, p.currentQuality⟩

def start : Search where
  dp := Function.update (fun _ => none) p.startState
    (some ⟨0, p.video.vmaf p.currentQuality p.lastIndex, State.null⟩)
  states := [p.startState]
  maxSegment := 0

/-- The body of the two inner loops: one state of `curr_states` with one quality. -/
def relaxEdge (currentIndex : ℤ) (t : Search) (edge : State × ℤ) : Search :=
  let next := p.nextState bandwidth currentIndex edge.1 edge.2
  let currentVmaf := p.video.vmaf edge.2 (currentIndex + 1)
  let lastVmaf := (lookup t.dp edge.1).vmaf
  let qoe := (lookup t.dp edge.1).qoe + p.nextQoe bandwidth currentIndex lastVmaf edge.1 edge.2
  if improves Value.qoe (t.dp next) qoe then
    { dp := Function.update t.dp next (some ⟨truncate qoe, currentVmaf, edge.1⟩)
      states := insertNew t.states next
      maxSegment := max t.maxSegment (currentIndex + 1) }
  else t

/-- One iteration of the outer loop. -/
def round (order : IterationOrder) (t : Search) (currentIndex : ℤ) : Search :=
  if ((p.video.track 0).length : ℤ) ≤ currentIndex + 2 then t
  else
    (order.visit currentIndex t.states).foldl
      (fun t s => (p.qualities s).foldl (fun t q => p.relaxEdge bandwidth currentIndex t (s, q)) t)
      { t with states := [] }

/-- The outer loop: `current_index` runs from `last_index` up to
`start_index + horizon - 1`, and `start_index` is `last_index + 1`. -/
def search (order : IterationOrder) : Search :=
  (List.range (TargetAbrConstants.horizon + 1)).foldl
    (fun t (i : ℕ) => p.round bandwidth order t (p.lastIndex + i)) p.start

/-! ## Reading the answer off the table -/

/-- One candidate for the best last state: a later one wins a tie. -/
def pick (dp : State → Option Value) (best cand : State) : State :=
  if (dp cand).isSome ∧ (best.eq State.null ∨ (lookup dp best).qoe ≤ (lookup dp cand).qoe) then cand
  else best

/-- The state of the last segment reached with the best total, `State.null` if there is none. -/
def bestState (t : Search) : State :=
  (List.range (maxBuffer + 1)).foldl
    (fun best (buffer : ℕ) => (List.range p.video.segments.length).foldl
      (fun best (q : ℕ) => pick t.dp best ⟨t.maxSegment, buffer, q⟩) best)
    State.null

/-- The `while` loop that follows the table back from a state; `none` if it does not end
within `fuel` rounds. Looking up a missing state inserts a value that came from nowhere. -/
def walk (dp : State → Option Value) : ℕ → State → Option (List State)
  | 0, _ => none
  | fuel + 1, s =>
    if s.eq State.null then some []
    else (walk dp fuel (lookup dp s).fromState).map (s :: ·)

/-- Rounds enough for every table the search fills: a state for each segment of the horizon,
the start state, and the check that ends the loop. -/
def walkFuel : ℕ := TargetAbrConstants.horizon + 3

/-- `qoe(bandwidth)`. -/
def qoe (order : IterationOrder) : Option (ℤ × ℤ) :=
  let t := p.search bandwidth order
  let best := p.bestState t
  if best.eq State.null then some (0, p.currentQuality)
  else do
    let states := (← walk t.dp walkFuel best).reverse
    let first ← if 1 < states.length then states[1]? else states[0]?
    return ((lookup t.dp best).qoe, first.quality)

end Planner

end Target
end LiveStream
