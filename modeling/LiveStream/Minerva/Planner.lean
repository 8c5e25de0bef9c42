import LiveStream.Abr.Tables
import LiveStream.Cc.Minerva
import LiveStream.Lib.Double
import LiveStream.Lib.Search

/-!
# Minerva's planner

`get_best_rate` of `abr_minerva.cc` plays every sequence of five qualities from a segment on,
against a buffer and a constant rate, and keeps the first quality, the stall time and the mean
expected quality of the first one with the best reward.

Floats are exact rationals. A rate of 0 gives download times that are infinite, or not a number
for a segment of size 0; the loop then goes on with what a comparison with those gives. Reads
outside the vectors end in `none`: the model of the loop first reads what it needs of each
segment of a sequence, and then computes.
-/

namespace LiveStream
namespace Minerva

open Lib
open Abr (Tables)

namespace MinervaConstants

def rebufPenalty : ℚ := 43 / 10
def smoothPenalty : ℚ := 1
def horizon : ℕ := 5
def beta : ℚ := 5 / 2
def gamma : ℚ := 100

end MinervaConstants

open MinervaConstants

/-! ## The quality of experience -/

/-- The sum of `get_qoe`, with the quality of the segment before if there is one. -/
def qoeOf (vmaf : ℚ) (lastVmaf : Option ℚ) (rebuffer : ℤ) : ℚ :=
  vmaf - (lastVmaf.elim 0 fun last => beta * |vmaf - last|) - gamma * rebuffer

/-- What `get_qoe` reads of the segment before. -/
def readLastVmaf (v : Tables) (index lastQuality : ℤ) : Option (Option ℚ) :=
  if lastQuality = -1 then some none
  else (v.infoAt lastQuality (index - 1)).map fun last => some last.vmaf

/-- `get_qoe`. -/
def getQoe (v : Tables) (index quality lastQuality rebuffer : ℤ) : Option ℚ := do
  let info ← v.infoAt quality index
  let lastVmaf ← readLastVmaf v index lastQuality
  some (qoeOf info.vmaf lastVmaf rebuffer)

/-! ## The reads of a sequence -/

/-- What the loop body of `get_best_rate` reads for a segment. -/
structure Chunk where
  size : ℕ
  duration : ℚ
  bitrate : ℤ
  lastBitrate : ℤ
  vmaf : ℚ
  lastVmaf : Option ℚ

/-- What the buffer grows by: the bound is the number of tracks. -/
def readDuration (v : Tables) (quality currentIndex : ℤ) : Option ℚ := do
  let info ← v.infoAt quality currentIndex
  if currentIndex + 1 < v.segments.length then
    let next ← v.infoAt quality (currentIndex + 1)
    some (next.startTime - info.startTime)
  else
    let prev ← v.infoAt quality (currentIndex - 1)
    some (info.startTime - prev.startTime)

def readChunk (v : Tables) (lastQuality chunkQuality currentIndex : ℤ) : Option Chunk := do
  let info ← v.infoAt chunkQuality currentIndex
  let duration ← readDuration v chunkQuality currentIndex
  let bitrate ← v.rateAt chunkQuality
  let lastBitrate ← v.rateAt lastQuality
  let lastVmaf ← readLastVmaf v currentIndex lastQuality
  some ⟨info.size, duration, bitrate, lastBitrate, info.vmaf, lastVmaf⟩

/-- The segments of a sequence, up to the end of the video. -/
def readChunks (v : Tables) : ℤ → List ℤ → ℤ → Option (List Chunk)
  | _, [], _ => some []
  | lastQuality, chunkQuality :: combo, currentIndex =>
    if (v.firstTrack.length : ℤ) ≤ currentIndex then some []
    else do
      let chunk ← readChunk v lastQuality chunkQuality currentIndex
      let chunks ← readChunks v chunkQuality combo (currentIndex + 1)
      some (chunk :: chunks)

/-! ## Playing a sequence -/

/-- The sums of the loop. -/
structure Outcome where
  /-- `none` is infinite. -/
  rebuffer : Option ℚ
  bitrateSum : ℚ
  smoothDiff : ℚ
  expectedQoe : ℚ
  comboSize : ℕ

structure Simulation extends Outcome where
  /-- `none` is not a number. -/
  buffer : Option ℚ

namespace Outcome

/-- The reward; an infinite stall makes it minus infinity. -/
def reward (o : Outcome) : WithBot ℚ :=
  match o.rebuffer with
  | none => ⊥
  | some rebuffer =>
    ((o.bitrateSum / 1000 - rebufPenalty * rebuffer - smoothPenalty * o.smoothDiff / 1000 : ℚ) :
      WithBot ℚ)

def meanQoe (o : Outcome) : ℚ := o.expectedQoe / max o.comboSize 1

end Outcome

namespace Simulation

def start (buffer : ℚ) : Simulation := ⟨⟨some 0, 0, 0, 0, 0⟩, some buffer⟩

/-- Simulates the buffer during a download. -/
def download (s : Simulation) (time : Double) : Simulation :=
  match s.buffer, time with
  | none, _ => s
  | some buffer, .finite time =>
    if buffer < time then
      { s with rebuffer := s.rebuffer.map (· + (time - buffer)), buffer := some 0 }
    else { s with buffer := some (buffer - time) }
  | some _, .infinite => { s with rebuffer := none, buffer := some 0 }
  | some _, .nan => { s with buffer := none }

/-- The download time in seconds of so many bytes, at a rate in Mbps. -/
def downloadTime (size : ℕ) (downloadRate : ℚ) : Double :=
  Double.div (8 * size / 1000 / 1000) downloadRate

/-- The loop body. -/
def advance (downloadRate : ℚ) (s : Simulation) (chunk : Chunk) : Simulation :=
  let t := s.download (downloadTime chunk.size downloadRate)
  { rebuffer := t.rebuffer
    buffer := t.buffer.map (· + chunk.duration)
    bitrateSum := t.bitrateSum + chunk.bitrate
    smoothDiff := t.smoothDiff + |chunk.bitrate - chunk.lastBitrate|
    expectedQoe := t.expectedQoe + qoeOf chunk.vmaf chunk.lastVmaf (Cc.toInt t.rebuffer)
    comboSize := t.comboSize + 1 }

end Simulation

/-- What the loop finds for segments. -/
def play (downloadRate buffer : ℚ) (chunks : List Chunk) : Outcome :=
  (chunks.foldl (Simulation.advance downloadRate) (Simulation.start buffer)).toOutcome

/-! ## The best sequence -/

/-- What `get_best_rate` returns. -/
structure Choice where
  bestRate : ℤ
  rebuffer : Option ℚ
  expectedQoe : ℚ
deriving DecidableEq

/-- `cartesian(depth, max)`. -/
def cartesian (depth max : ℕ) : List (List ℤ) := words (letters max) depth

/-- What is kept of a sequence. -/
def choiceOf (combo : List ℤ) (o : Outcome) : Choice := ⟨combo.headD 0, o.rebuffer, o.meanQoe⟩

/-- The end of the loop over the sequences. -/
def keepBest (best : WithBot ℚ × Choice) (combo : List ℤ) (o : Outcome) : WithBot ℚ × Choice :=
  if best.1 < o.reward then (o.reward, choiceOf combo o) else best

/-- What the inner loop finds for a sequence. -/
def simulate (v : Tables) (index lastQuality : ℤ) (buffer downloadRate : ℚ) (combo : List ℤ) :
    Option Outcome :=
  (readChunks v lastQuality combo index).map (play downloadRate buffer)

/-- `get_best_rate`. -/
def getBestRate (v : Tables) (index lastQuality : ℤ) (buffer downloadRate : ℚ) : Option Choice := do
  let best ← (cartesian horizon v.segments.length).foldlM
    (fun best combo => (simulate v index lastQuality buffer downloadRate combo).map
      (keepBest best combo))
    (0, ⟨0, some 0, 0⟩)
  some best.2

end Minerva
end LiveStream
