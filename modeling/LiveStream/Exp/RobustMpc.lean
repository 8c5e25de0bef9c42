import LiveStream.Lib.Search
import LiveStream.Video.Config

/-!
# RobustMPC

`RobustMpc.process` of `exp/abr/robust_mpc.py` serves the requests of one player. It estimates the
bandwidth from the last five measurements, discounted by the worst of the last five errors, plays
every sequence of five qualities against that bandwidth, and answers with the first quality of the
first sequence with the best reward.

Floats are exact rationals, and `none` is a raised exception. The reward of the last chunk is
computed and never read, and is left out.
-/

namespace LiveStream
namespace Exp

open Lib
open Video

namespace MpcConstants

def mInK : ℚ := 1000
def rebufPenalty : ℚ := 43 / 10
def horizon : ℕ := 5
def minBwEstMbps : ℚ := 1 / 10

end MpcConstants

open MpcConstants

/-- `l[:k]`, where a negative bound counts from the end. -/
def sliceTo {α : Type} (l : List α) (k : ℤ) : List α :=
  if 0 ≤ k then l.take k.toNat else l.take (l.length + k).toNat

/-- `statistics.harmonic_mean`. -/
def harmonicMean (data : List ℚ) : Option ℚ :=
  if data = [] ∨ ∃ x ∈ data, x < 0 then none
  else if 0 ∈ data then some 0
  else some (data.length / (data.map (·⁻¹)).sum)

/-! ## State and requests -/

/-- The numbers of a request. -/
structure MpcRequest where
  rebuffer : ℚ
  bandwidth : ℚ
  buffer : ℚ
  index : ℤ

structure RobustMpc where
  lastRebufferTime : ℚ
  lastBitRate : ℤ
  lastQuality : ℕ
  bandwidths : List ℚ
  pastBandwidthEsts : List ℚ
  pastErrors : List ℚ
deriving DecidableEq

/-- `__init__`. -/
def RobustMpc.new : RobustMpc := ⟨0, 0, 0, [], [], []⟩

/-! ## The bandwidth -/

def MpcRequest.measuredBandwidth (json : MpcRequest) : ℚ := max (json.bandwidth / mInK) minBwEstMbps

/-- The relative error of the last estimate. -/
def pastError (pastBandwidthEsts : List ℚ) (bandwidth : ℚ) : ℚ :=
  match pastBandwidthEsts.getLast? with
  | none => 0
  | some est => |est - bandwidth| / bandwidth

/-- What a measurement adds to the state, and the bandwidth to plan with. -/
structure Estimates where
  bandwidths : List ℚ
  pastErrors : List ℚ
  harmonicBandwidth : ℚ
  futureBandwidth : ℚ
deriving DecidableEq

def RobustMpc.estimate (m : RobustMpc) (bandwidth : ℚ) : Option Estimates := do
  let bandwidths := m.bandwidths ++ [bandwidth]
  let pastErrors := m.pastErrors ++ [pastError m.pastBandwidthEsts bandwidth]
  let harmonicBandwidth ← harmonicMean (bandwidths.rtake horizon)
  let maxError ← (pastErrors.rtake horizon).max?
  let discounted ← checkedDiv harmonicBandwidth (1 + maxError)
  some ⟨bandwidths, pastErrors, harmonicBandwidth, max discounted minBwEstMbps⟩

/-! ## Playing a sequence -/

/-- What the inner loop reads for a chunk. -/
structure MpcChunk where
  size : ℕ
  time : ℚ
  bitRate : ℤ
  lastBitRate : ℤ

def readMpcChunk (config : DashBackendConfig) (lastQuality chunkQuality : ℕ) (currIndex : ℤ) :
    Option MpcChunk := do
  let size ← Video.getChunkSize config chunkQuality currIndex
  let time ← getChunkTime config chunkQuality currIndex
  let bitRate ← Video.getVideoBitRate config chunkQuality
  let lastBitRate ← Video.getVideoBitRate config lastQuality
  some ⟨size, time, bitRate, lastBitRate⟩

def readMpcChunks (config : DashBackendConfig) : ℕ → List ℕ → ℤ → Option (List MpcChunk)
  | _, [], _ => some []
  | lastQuality, chunkQuality :: combo, currIndex => do
    let chunk ← readMpcChunk config lastQuality chunkQuality currIndex
    let chunks ← readMpcChunks config chunkQuality combo (currIndex + 1)
    some (chunk :: chunks)

/-- The download time of a chunk in seconds. -/
def MpcChunk.downloadTime (chunk : MpcChunk) (futureBandwidth : ℚ) : ℚ :=
  8 * chunk.size / mInK ^ 2 / futureBandwidth

/-- The variables of the inner loop. -/
structure MpcSimulation where
  currRebufferTime : ℚ
  currBuffer : ℚ
  bitrateSum : ℤ
  smoothnessDiff : ℤ

namespace MpcSimulation

def start (buffer : ℚ) : MpcSimulation := ⟨0, buffer, 0, 0⟩

/-- The loop body. -/
def advance (futureBandwidth : ℚ) (s : MpcSimulation) (chunk : MpcChunk) : MpcSimulation :=
  let downloadTime := chunk.downloadTime futureBandwidth
  let stalls := s.currBuffer < downloadTime
  { currRebufferTime :=
      if stalls then s.currRebufferTime + (downloadTime - s.currBuffer) else s.currRebufferTime
    currBuffer := (if stalls then 0 else s.currBuffer - downloadTime) + chunk.time
    bitrateSum := s.bitrateSum + chunk.bitRate
    smoothnessDiff := s.smoothnessDiff + |chunk.bitRate - chunk.lastBitRate| }

def reward (s : MpcSimulation) : ℚ :=
  s.bitrateSum / mInK - rebufPenalty * s.currRebufferTime - s.smoothnessDiff / mInK

end MpcSimulation

/-- What the inner loop finds for a sequence. -/
def simulateCombo (config : DashBackendConfig) (lastQuality : ℕ) (index : ℤ)
    (startBuffer futureBandwidth : ℚ) (combo : List ℕ) : Option MpcSimulation :=
  (readMpcChunks config lastQuality combo index).map fun chunks =>
    chunks.foldl (MpcSimulation.advance futureBandwidth) (MpcSimulation.start startBuffer)

/-! ## The decision -/

/-- The end of the loop over the sequences. The empty sequence has reward 0 and is never kept,
so `combo[0]` is there. -/
def keepBetter (best : ℚ × ℕ) (combo : List ℕ) (s : MpcSimulation) : ℚ × ℕ :=
  if best.1 < s.reward then (s.reward, combo.headD 0) else best

/-- The loop over the sequences, each cut at the end of the video. -/
def bestRate (config : DashBackendConfig) (lastQuality : ℕ) (index : ℤ)
    (startBuffer futureBandwidth : ℚ) : Option ℕ := do
  let chunks ← getVideoChunks config
  let best ← (words (List.range (getNbrVideoBitRate config)) horizon).foldlM
    (fun best fullCombo =>
      let combo := sliceTo fullCombo (min (chunks - index) horizon)
      (simulateCombo config lastQuality index startBuffer futureBandwidth combo).map
        (keepBetter best combo))
    (0, 0)
  some best.2

namespace RobustMpc

/-- `process`, with the decision. -/
def process (config : DashBackendConfig) (m : RobustMpc) (json : MpcRequest) :
    Option (RobustMpc × ℕ) := do
  let lastBitRate ← Video.getVideoBitRate config m.lastQuality
  let est ← m.estimate json.measuredBandwidth
  let decision ← bestRate config m.lastQuality json.index (json.buffer / mInK) est.futureBandwidth
  some (⟨json.rebuffer / mInK, lastBitRate, decision, est.bandwidths,
    m.pastBandwidthEsts ++ [est.harmonicBandwidth], est.pastErrors⟩, decision)

/-- The state after a history of requests. -/
def after (config : DashBackendConfig) (history : List MpcRequest) : Option RobustMpc :=
  history.foldlM (fun m json => (m.process config json).map Prod.fst) new

end RobustMpc

end Exp
end LiveStream
