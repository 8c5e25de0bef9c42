import LiveStream.Abr.Tables
import LiveStream.Lib.Search
import LiveStream.Lib.Truncate

/-!
# The planner of `WorthedAbr`

`compute_reward_and_quality` plays every sequence of qualities for the next segments against a
buffer and keeps the first one with the best reward. With `stochastic` it looks at a random
part of the sequences only.

Doubles are exact rationals; what the source keeps in an `int` is truncated at each assignment.
A call of `compute_reward` ends in `none` where a read is outside the vectors, and where the
bandwidth it divides by is 0: the infinity that gives does not convert to an `int`. What such a
call returns is a parameter, and so are the numbers `rand()` returns.
-/

namespace LiveStream
namespace Worthed

open Lib
open Abr (Tables)

def SECOND : ℤ := 1000

namespace WorthedAbrConstants

def segmentSizeMs : ℤ := 5 * SECOND
def rebufPenalty : ℚ := 43 / 10
def safeDownscale : ℚ := 3 / 4
def horizon : ℤ := 5
def horizonStochastic : ℤ := 4
def reservoir : ℤ := 5 * SECOND
def safeToRttProbe : ℤ := 10 * SECOND
def segmentsUpjumpBanned : ℤ := 2

end WorthedAbrConstants

open WorthedAbrConstants

/-! ## The reward of a sequence -/

/-- The variables of the loop in `compute_reward`. -/
structure Playback where
  rebuffer : ℤ
  buffer : ℤ
  lastQuality : ℤ
  bitrateSum : ℚ
  smoothnessDiff : ℚ

/-- `download_time_ms`. -/
def downloadTimeMs (size : ℕ) (bandwidth : ℤ) : ℚ := 8 * size / 1000 / bandwidth * 1000

namespace Playback

/-- Simulates the buffer changes of one download. -/
def download (p : Playback) (time : ℚ) : Playback :=
  if p.buffer < time then
    { p with
      rebuffer := truncate (p.rebuffer + (time - p.buffer))
      buffer := 0 + segmentSizeMs }
  else { p with buffer := truncate (p.buffer - time) + segmentSizeMs }

/-- Adds the bitrate of a chunk and the change from the chunk before. -/
def score (p : Playback) (quality rate lastRate : ℤ) : Playback :=
  { p with
    bitrateSum := p.bitrateSum + rate
    smoothnessDiff := p.smoothnessDiff + |rate - lastRate|
    lastQuality := quality }

/-- The loop body, for the chunk at a position of `qualities`. -/
def chunk (v : Tables) (startIndex bandwidth : ℤ) (p : Playback) (next : ℤ × ℕ) :
    Option Playback := do
  let currentIndex := startIndex + next.2
  let track ← v.trackAt next.1
  if (track.length : ℤ) < currentIndex then
    return p
  let info ← checkedGet track currentIndex
  if bandwidth = 0 then
    none
  let rate ← v.rateAt next.1
  let lastRate ← v.rateAt p.lastQuality
  return (p.download (downloadTimeMs info.size bandwidth)).score next.1 rate lastRate

def reward (p : Playback) : ℚ := p.bitrateSum - rebufPenalty * p.rebuffer - p.smoothnessDiff

end Playback

def computeReward (v : Tables) (qualities : List ℤ)
    (startIndex bandwidth startBuffer currentQuality : ℤ) : Option ℚ := do
  let p ← qualities.zipIdx.foldlM (Playback.chunk v startIndex bandwidth)
    ⟨0, startBuffer, currentQuality, 0, 0⟩
  return p.reward

/-! ## The sequences -/

def RAND_MAX : ℕ := 2147483647

/-- The number `rand()` returns at each of its calls. -/
abbrev Draws := ℕ → Fin (RAND_MAX + 1)

/-- `rand_prob()`, at a call of `rand()`. -/
def randProb (rand : Draws) (call : ℕ) : ℚ := (rand call : ℕ) / (RAND_MAX + 1)

/-- The body of the two loops of `cartesian`, on `out` and the number of calls of `rand()`. -/
def extendPlan (rand : Draws) (percent : ℚ) (out : List (List ℤ) × ℕ) (now : ℤ × List ℤ) :
    List (List ℤ) × ℕ :=
  if percent < randProb rand out.2 then (out.1, out.2 + 1)
  else (out.1 ++ [now.1 :: now.2], out.2 + 1)

/-- `cartesian(depth, max, percent)` from a call of `rand()` on. -/
def cartesian (rand : Draws) (max : ℕ) : ℕ → ℚ → ℕ → List (List ℤ) × ℕ
  | 0, _, call => ([[]], call)
  | depth + 1, percent, call =>
    let rest := cartesian rand max depth 1 call
    (letters max ×ˢ rest.1).foldl (extendPlan rand percent) ([], rest.2)

/-! ## The best sequence -/

/-- How many segments `compute_reward_and_quality` looks ahead. -/
def planDepth (v : Tables) (startIndex : ℤ) (stochastic : Bool) : ℤ :=
  let depth := min ((v.firstTrack.length : ℤ) - startIndex) horizon
  if stochastic then min depth horizonStochastic else depth

/-- `compute_reward_and_quality`. No reward stands for minus infinity; `undefined` is what
`compute_reward` returns for a sequence it is not defined for. -/
def computeRewardAndQuality (v : Tables) (rand : Draws) (undefined : List ℤ → WithBot ℚ)
    (startIndex bandwidth startBuffer currentQuality : ℤ) (stochastic : Bool)
    (lastDecision : ℤ) : WithBot ℚ × ℤ :=
  let percent := if stochastic then 1 / 5 else 1
  let depth := planDepth v startIndex stochastic
  (cartesian rand v.segments.length depth.toNat percent 0).1.foldl
    (fun best next =>
      let reward := (computeReward v next startIndex bandwidth startBuffer currentQuality).elim
        (undefined next) fun r => (r : WithBot ℚ)
      if best.1 < reward then (reward, next.headD lastDecision) else best)
    (⊥, 0)

end Worthed
end LiveStream
