import LiveStream.Lib.Checked
import LiveStream.Target.Family

/-!
# The planners with checked reads

The planner of the target algorithms once more, with every read `segments[q][i]` checked: the
functions of this file end in `none` at a read outside the vectors, and `GapAbr` also unless
it divides by a positive number. They are written after the source like the unchecked ones in
`Planner` and `GapAbr`, which go on with a default entry.

* `Planner.Checked.qoe_eq`, the planner reads inside the video and returns what it returned;
* `GapAbr.Checked.searchRange_eq`, so does the search range of `GapAbr`, which divides by the
  length of at least one segment;
* `reads_in_video`, for every call of `decideQuality` in every run.
-/

namespace LiveStream
namespace Target

open Lib AbrSchema
open Video (VideoInfo)

/-! ## Reads -/

namespace TrackTable

variable (v : TrackTable)

/-- `segments[quality]`, if there is such a track. -/
def trackAt (quality : ℤ) : Option (List VideoInfo) := checkedGet v.segments quality

/-- `segments[quality][index]`, if there is such an entry. -/
def infoAt (quality index : ℤ) : Option VideoInfo := do
  let track ← v.trackAt quality
  checkedGet track index

def vmafAt (quality index : ℤ) : Option ℤ := do
  let info ← v.infoAt quality index
  return truncate info.vmaf

end TrackTable

/-! ## The planner -/

namespace Planner
namespace Checked

variable (p : Planner) (bandwidth : ℚ)

def segmentLengthMs (currentIndex chunkQuality : ℤ) : Option ℤ := do
  let track ← p.video.trackAt chunkQuality
  let ref := refIndex track.length (currentIndex + 1)
  let next ← p.video.infoAt chunkQuality (ref + 1)
  let this ← p.video.infoAt chunkQuality ref
  return truncate (SECOND * (next.startTime - this.startTime))

/-- The body of the two inner loops. -/
def relaxEdge (currentIndex : ℤ) (t : Search) (edge : State × ℤ) : Option Search := do
  let chunk ← p.video.infoAt edge.2 (currentIndex + 1)
  let sizeKb : ℚ := 8 * chunk.size / SECOND
  let downloadTimeMs := sizeKb / bandwidth * SECOND
  let currentBuffer : ℚ := edge.1.buffer * bufferUnit
  let rebuffer := if currentBuffer < downloadTimeMs then downloadTimeMs - currentBuffer else 0
  let left := if currentBuffer < downloadTimeMs then 0 else currentBuffer - downloadTimeMs
  let segmentLengthMs ← segmentLengthMs p currentIndex edge.2
  let currentBuffer := min (left + segmentLengthMs) (maxBuffer * bufferUnit)
  let next : State := ⟨currentIndex + 1, truncate (currentBuffer / bufferUnit), edge.2⟩
  let currentVmaf ← p.video.vmafAt edge.2 (currentIndex + 1)
  let lastVmaf := (lookup t.dp edge.1).vmaf
  let qoe := (lookup t.dp edge.1).qoe +
    p.localQoe currentVmaf lastVmaf (truncate rebuffer) (truncate currentBuffer)
  return if improves Value.qoe (t.dp next) qoe then
    { dp := Function.update t.dp next (some ⟨truncate qoe, currentVmaf, edge.1⟩)
      states := insertNew t.states next
      maxSegment := max t.maxSegment (currentIndex + 1) }
  else t

def round (order : IterationOrder) (t : Search) (currentIndex : ℤ) : Option Search := do
  let track ← p.video.trackAt 0
  if (track.length : ℤ) ≤ currentIndex + 2 then return t
  (order.visit currentIndex t.states).foldlM
    (fun t s => (p.qualities s).foldlM (fun t q => relaxEdge p bandwidth currentIndex t (s, q)) t)
    { t with states := [] }

def search (order : IterationOrder) : Option Search := do
  let currentVmaf ← p.video.vmafAt p.currentQuality p.lastIndex
  let start : Search :=
    { dp := Function.update (fun _ => none) p.startState (some ⟨0, currentVmaf, State.null⟩)
      states := [p.startState]
      maxSegment := 0 }
  (List.range (TargetAbrConstants.horizon + 1)).foldlM
    (fun t (i : ℕ) => round p bandwidth order t (p.lastIndex + i)) start

/-- `qoe(bandwidth)`. Reading the answer off the table reads no metadata. -/
def qoe (order : IterationOrder) : Option (ℤ × ℤ) := do
  let t ← search p bandwidth order
  let best := p.bestState t
  if best.eq State.null then return (0, p.currentQuality)
  let states := (← walk t.dp walkFuel best).reverse
  let first ← if 1 < states.length then states[1]? else states[0]?
  return ((lookup t.dp best).qoe, first.quality)

end Checked
end Planner

/-- The `while` loop that lowers the bandwidth target, which stops when a call of `qoe` does. -/
def Checked.lowerTarget (qoeFirst : ℚ → Option ℤ) (minBw : ℤ) (floor : ℚ) (target : ℤ) : Option ℤ :=
  if minBw ≤ target - 100 then
    match qoeFirst (target - 100 : ℤ) with
    | none => none
    | some qoe =>
      if floor ≤ qoe then Checked.lowerTarget qoeFirst minBw floor (target - 100) else some target
  else some target
termination_by (target - minBw).toNat
decreasing_by omega

/-- `TargetAbr2::decideQuality`. -/
def TargetAbr.Checked.decideQuality (s : TargetAbr) (c : Scenario) (e : Estimates) (index : ℤ) :
    Option (ℤ × ℤ) := do
  let track ← c.video.trackAt 0
  if index ≤ 1 ∨ (track.length : ℤ) < index then return (s.bandwidthTarget, 0)
  let estimator := if e.estimator < 0 then e.bandwidth else e.estimator
  let minBw := truncate (min estimator e.bandwidth * (1 - TargetAbrConstants.qoeDelta))
  let maxBw := truncate (estimator * (1 + TargetAbrConstants.qoeDelta))
  let qoe := fun b : ℚ => Planner.Checked.qoe (s.planner c) b (e.order b)
  let qoeMaxBw ← qoe maxBw
  let target ← Target.Checked.lowerTarget (fun b => (qoe b).map Prod.fst) minBw
    (TargetAbrConstants.qoePercentile * qoeMaxBw.1) maxBw
  let answer ← qoe (TargetAbrConstants.safeDownscale * e.bandwidth)
  return (target, answer.2)

/-! ## `GapAbr` -/

namespace GapAbr
namespace Checked

def vmafDifference (p : Planner) (index : ℤ) : Option ℤ := do
  let next ← p.video.infoAt (p.currentQuality + 1) index
  let this ← p.video.infoAt p.currentQuality index
  return truncate (next.vmaf - this.vmaf)

def indexLowestDifference (p : Planner) : Option ℤ := do
  let first ← vmafDifference p (p.lastIndex + 1)
  let best ← (List.range (horizonAdjustment - 1)).foldlM
    (fun (best : ℤ × ℤ) (k : ℕ) => do
      let i := p.lastIndex + 2 + k
      let difference ← vmafDifference p i
      return if difference < best.2 then (i, difference) else best)
    (p.lastIndex + 1, first)
  return best.1

/-- `avg_needed_bw`; also `none` unless the divisor is positive. -/
def avgNeededBw (p : Planner) : Option ℤ := do
  let index ← indexLowestDifference p
  let track ← p.video.trackAt 0
  let segments := ((List.range horizonAdjustment).map fun k : ℕ => index + k).filter
    fun i : ℤ => i < track.length
  let sizes ← segments.mapM fun i => do
    let info ← p.video.infoAt (p.currentQuality + 1) i
    return (info.size : ℤ)
  let lengths ← segments.mapM fun i => Planner.Checked.segmentLengthMs p i (p.currentQuality + 1)
  if 0 < lengths.sum then return (8 * sizes.sum).tdiv lengths.sum else none

def searchRange (p : Planner) (minBw maxBw : ℤ) : Option (ℤ × ℚ) := do
  let track ← p.video.trackAt 0
  if p.currentQuality < p.video.segments.length - 1 ∧
      p.lastIndex < track.length - horizonAdjustment then
    let suggestion := truncate ((← avgNeededBw p) * overPercent)
    if max minBw maxBw < suggestion then
      return (min suggestion (maxBw * 2), finalQoePercentile suggestion minBw p.startBuffer)
    else return (maxBw, qoePercentile)
  else return (maxBw, qoePercentile)

def decideQuality (s : TargetAbr) (c : Scenario) (r : Readings) (index : ℤ) : Option Outcome := do
  let track ← c.video.trackAt 0
  if index ≤ 1 ∨ (track.length : ℤ) < index then return ⟨s.bandwidthTarget, none, 0⟩
  let minBw := truncate (r.bandwidth * (1 - qoeDelta))
  let (maxBw, percentile) ←
    searchRange (s.planner c) minBw (truncate (r.bandwidth * (1 + qoeDelta)))
  let qoe := fun b : ℚ => Planner.Checked.qoe (s.planner c) b (r.order b)
  let qoeMaxBw ← qoe maxBw
  let target ← Target.Checked.lowerTarget (fun b => (qoe b).map Prod.fst) minBw
    (percentile * qoeMaxBw.1) maxBw
  let downscale := safeDownscale track.length (s.base.decisionIndex - 1) r.recovery
  let answer ← qoe (downscale * r.bandwidth)
  return ⟨target, some (max r.bandwidth target), answer.2⟩

end Checked
end GapAbr

/-! ## Reads inside the video -/

namespace TrackTable

variable {v : TrackTable} {q i : ℤ}

theorem trackAt_eq (h0 : 0 ≤ q) (hq : q < v.segments.length) : v.trackAt q = some (v.track q) :=
  checkedGet_eq h0 hq []

theorem trackAt_zero (v : TrackTable) : v.trackAt 0 = some (v.track 0) :=
  trackAt_eq le_rfl (by exact_mod_cast Planner.segments_length_pos v)

theorem infoAt_eq (h0 : 0 ≤ q) (hq : q < v.segments.length) (hi : 0 ≤ i) (hiL : i < v.length) :
    v.infoAt q i = some (v.info q i) := by
  have hlen : (v.track q).length = v.length := Planner.length_track v h0 hq
  rw [infoAt, trackAt_eq h0 hq]
  exact checkedGet_eq hi (by omega) _

theorem vmafAt_eq (h0 : 0 ≤ q) (hq : q < v.segments.length) (hi : 0 ≤ i) (hiL : i < v.length) :
    v.vmafAt q i = some (v.vmaf q i) := by
  rw [vmafAt, infoAt_eq h0 hq hi hiL]
  rfl

end TrackTable

/-- The loop that steps back ends inside the video, if there are two segments. -/
theorem refIndex_bounds {size index : ℤ} (hsize : 2 ≤ size) (hindex : 0 ≤ index) :
    0 ≤ refIndex size index ∧ refIndex size index + 1 < size := by
  induction index using refIndex.induct size with
  | case1 index hback ih =>
    rw [refIndex, if_pos hback]
    exact ih (by omega)
  | case2 index hstop =>
    rw [refIndex, if_neg hstop]
    omega

/-! ## The planner -/

namespace Planner
namespace Checked

variable {p : Planner} {b : ℚ} {q i : ℤ}

theorem segmentLengthMs_eq (h2 : 2 ≤ p.video.length) (h0 : 0 ≤ q) (hq : q < p.video.segments.length)
    (hi : 0 ≤ i) : segmentLengthMs p i q = some (p.segmentLengthMs i q) := by
  have hlen : (p.video.track q).length = p.video.length := length_track p.video h0 hq
  have href : 0 ≤ refIndex p.video.length (i + 1) ∧
      refIndex p.video.length (i + 1) + 1 < p.video.length :=
    refIndex_bounds (by omega) (by omega)
  have hnext := TrackTable.infoAt_eq (v := p.video) h0 hq (by omega) href.2
  have hthis := TrackTable.infoAt_eq (v := p.video) h0 hq href.1 (by omega)
  rw [segmentLengthMs, TrackTable.trackAt_eq h0 hq, Planner.segmentLengthMs]
  simp only [Option.bind_eq_bind, Option.bind_some, hlen, hnext, hthis]
  rfl

/-- One edge is relaxed inside the video. -/
theorem relaxEdge_eq (h0 : 0 ≤ q) (hq : q < p.video.segments.length) (hi : 0 ≤ i)
    (hiL : i + 2 < p.video.length) (t : Search) (s : State) :
    relaxEdge p b i t (s, q) = some (p.relaxEdge b i t (s, q)) := by
  have hchunk := TrackTable.infoAt_eq (v := p.video) (i := i + 1) h0 hq (by omega) (by omega)
  have hvmaf := TrackTable.vmafAt_eq (v := p.video) (i := i + 1) h0 hq (by omega) (by omega)
  have hlength := segmentLengthMs_eq (p := p) (by omega) h0 hq hi
  rw [relaxEdge]
  simp only [hchunk, hvmaf, hlength, Option.bind_eq_bind, Option.bind_some]
  rfl

/-- The states of the search are states of tracks. -/
def Tracked (p : Planner) (t : Search) : Prop :=
  ∀ s ∈ t.states, 0 ≤ s.quality ∧ s.quality < p.video.segments.length

theorem tracked_relaxEdge {t : Search} (ht : Tracked p t) (h0 : 0 ≤ q)
    (hq : q < p.video.segments.length) (s : State) : Tracked p (p.relaxEdge b i t (s, q)) := by
  rw [Planner.relaxEdge]
  dsimp only
  split
  · intro u hu
    rcases mem_insertNew.mp hu with hu | rfl
    · exact ht u hu
    · exact ⟨h0, hq⟩
  · exact ht

theorem mem_qualities_bounds {s : State} (hq : q ∈ p.qualities s) :
    0 ≤ q ∧ q < p.video.segments.length := by
  have hbounds := mem_qualities.mp hq
  omega

theorem round_eq (order : IterationOrder) {t : Search} (ht : Tracked p t) (hi : 0 ≤ i) :
    round p b order t i = some (p.round b order t i) ∧ Tracked p (p.round b order t i) := by
  rw [round, TrackTable.trackAt_zero, Planner.round]
  simp only [Option.bind_eq_bind, Option.bind_some]
  by_cases hend : ((p.video.track 0).length : ℤ) ≤ i + 2
  · simp only [hend, if_true]
    exact ⟨rfl, ht⟩
  · simp only [hend, if_false]
    have hiL : i + 2 < p.video.length := by
      rw [length_track_zero] at hend
      omega
    refine foldlM_eq_foldl (P := Tracked p) (fun u hu s _ => ?_) (fun s hs => by simp at hs)
    exact foldlM_eq_foldl (P := Tracked p) (fun w hw q hq =>
      have hbounds := mem_qualities_bounds hq
      ⟨relaxEdge_eq hbounds.1 hbounds.2 hi hiL w s,
        tracked_relaxEdge hw hbounds.1 hbounds.2 s⟩) hu

theorem search_eq (order : IterationOrder) (hp : p.Placed) (hL : p.lastIndex < p.video.length) :
    search p b order = some (p.search b order) := by
  have hone := hp.one_le
  rw [search, TrackTable.vmafAt_eq hp.quality_nonneg hp.quality_lt (by omega) hL,
    Option.bind_eq_bind, Option.bind_some]
  refine (foldlM_eq_foldl (P := Tracked p)
    (fun t ht k _ => round_eq order ht (by omega)) (fun s hs => ?_)).1
  rw [List.mem_singleton.mp hs]
  exact ⟨hp.quality_nonneg, hp.quality_lt⟩

/-- **The planner reads inside the video.** -/
theorem qoe_eq (order : IterationOrder) (hp : p.Placed) (hL : p.lastIndex < p.video.length) :
    qoe p b order = p.qoe b order := by
  rw [qoe, search_eq order hp hL, Planner.qoe]
  simp only [Option.bind_eq_bind, Option.bind_some, Option.pure_def]

end Checked
end Planner

/-! ## The loop and `TargetAbr2` -/

/-- One round of `GapAbr`'s loop, with the step of `TargetAbr2` written out. -/
theorem GapAbr.lowerTarget_step (f : ℚ → ℤ) (minBw : ℤ) (floor : ℚ) (target : ℤ) :
    GapAbr.lowerTarget f minBw floor target =
      if minBw ≤ target - 100 ∧ floor ≤ f (target - 100 : ℤ) then
        GapAbr.lowerTarget f minBw floor (target - 100)
      else target := by
  rw [GapAbr.lowerTarget]
  rfl

theorem TargetAbr.lowerTarget_eq (f : ℚ → ℤ) (minBw qoeMaxBw target : ℤ) :
    TargetAbr.lowerTarget f minBw qoeMaxBw target =
      GapAbr.lowerTarget f minBw (TargetAbrConstants.qoePercentile * qoeMaxBw) target := by
  induction target using TargetAbr.lowerTarget.induct f minBw qoeMaxBw with
  | case1 target htest ih =>
    rw [TargetAbr.lowerTarget, if_pos htest, ih, GapAbr.lowerTarget_step f minBw _ target]
    exact (if_pos htest).symm
  | case2 target htest =>
    rw [TargetAbr.lowerTarget, if_neg htest, GapAbr.lowerTarget_step]
    exact (if_neg htest).symm

theorem Checked.lowerTarget_eq (f : ℚ → ℤ) (minBw : ℤ) (floor : ℚ) (target : ℤ) :
    Checked.lowerTarget (fun b => some (f b)) minBw floor target =
      some (GapAbr.lowerTarget f minBw floor target) := by
  induction target using GapAbr.lowerTarget.induct f minBw floor with
  | case1 target htest ih =>
    unfold GapAbr.step at htest ih
    rw [Checked.lowerTarget, if_pos htest.1, GapAbr.lowerTarget_step f minBw floor target,
      if_pos htest, ← ih]
    exact if_pos htest.2
  | case2 target htest =>
    unfold GapAbr.step at htest
    rw [Checked.lowerTarget, GapAbr.lowerTarget_step, if_neg htest]
    by_cases hmin : minBw ≤ target - 100
    · rw [if_pos hmin]
      exact if_neg fun hfloor => htest ⟨hmin, hfloor⟩
    · rw [if_neg hmin]

section

variable {c : Scenario} {s : TargetAbr}

/-- Inside the guard of `decideQuality` every call of `qoe` returns, with all reads in range. -/
theorem TargetAbr.Inv.qoe_checked (h : TargetAbr.Inv c s) (h2 : 2 ≤ s.base.decisionIndex)
    (hL : s.base.decisionIndex ≤ c.video.length) (e : Estimates) (b : ℚ) :
    Planner.Checked.qoe (s.planner c) b (e.order b) =
      some (s.qoeFirst c e b, s.qoeSecond c e b) := by
  have hp := h.placed h2
  have hlast : (s.planner c).lastIndex < (s.planner c).video.length := by
    show s.base.decisionIndex - 1 < c.video.length
    omega
  obtain ⟨r, hr, -⟩ := Planner.qoe_mem_qualities (b := b) (e.order b) hp
  rw [Planner.Checked.qoe_eq (e.order b) hp hlast, TargetAbr.qoeFirst, TargetAbr.qoeSecond, hr]
  rfl

theorem TargetAbr.Inv.decideQuality_checked (h : TargetAbr.Inv c s) (e : Estimates) :
    TargetAbr.Checked.decideQuality s c e s.base.decisionIndex =
      some (s.decideQuality c e s.base.decisionIndex) := by
  rw [TargetAbr.Checked.decideQuality, TrackTable.trackAt_zero, TargetAbr.decideQuality]
  simp only [Option.bind_eq_bind, Option.bind_some]
  by_cases hout : s.base.decisionIndex ≤ 1 ∨ ((c.video.track 0).length : ℤ) < s.base.decisionIndex
  · rw [if_pos hout, if_pos hout]
    rfl
  · rw [if_neg hout, if_neg hout]
    rw [Planner.length_track_zero] at hout
    have hqoe := h.qoe_checked (by omega) (by omega) e
    simp only [hqoe, Option.bind_some, Option.map_some, Checked.lowerTarget_eq,
      TargetAbr.lowerTarget_eq]
    rfl

end

/-! ## `GapAbr` -/

/-- Consecutive start times are at least 1 ms apart. -/
def TrackTable.Spaced (v : TrackTable) : Prop :=
  ∀ track ∈ v.segments, (track.map VideoInfo.startTime).IsChain fun a b => a + 1 / 1000 ≤ b

theorem TrackTable.Spaced.startTime_le {v : TrackTable} (h : v.Spaced) {q i : ℤ} (h0 : 0 ≤ q)
    (hq : q < v.segments.length) (hi : 0 ≤ i) (hiL : i + 1 < v.length) :
    (v.info q i).startTime + 1 / 1000 ≤ (v.info q (i + 1)).startTime := by
  have hlen := Planner.length_track v h0 hq
  have hlt : i.toNat < (v.track q).length := by omega
  have hlt' : (i + 1).toNat < (v.track q).length := by omega
  have hmem : v.track q ∈ v.segments := by
    rw [TrackTable.track, List.getD_eq_getElem _ _ (by omega)]
    exact List.getElem_mem _
  have hchain := List.isChain_iff_getElem.mp (h _ hmem) i.toNat (by rw [List.length_map]; omega)
  rw [List.getElem_map, List.getElem_map] at hchain
  have hsucc : (i + 1).toNat = i.toNat + 1 := by omega
  rw [TrackTable.info, TrackTable.info, List.getD_eq_getElem _ _ hlt, List.getD_eq_getElem _ _ hlt']
  simp only [hsucc]
  exact hchain

/-- A segment is at least 1 ms long. -/
theorem Planner.one_le_segmentLengthMs {p : Planner} (hspaced : p.video.Spaced)
    (h2 : 2 ≤ p.video.length) {q i : ℤ} (h0 : 0 ≤ q) (hq : q < p.video.segments.length)
    (hi : 0 ≤ i) : 1 ≤ p.segmentLengthMs i q := by
  have hlen : (p.video.track q).length = p.video.length := length_track p.video h0 hq
  have href : 0 ≤ refIndex p.video.length (i + 1) ∧
      refIndex p.video.length (i + 1) + 1 < p.video.length :=
    refIndex_bounds (by omega) (by omega)
  have hstart := hspaced.startTime_le h0 hq href.1 href.2
  rw [Planner.segmentLengthMs, hlen]
  apply le_truncate
  unfold SECOND
  push_cast
  linarith

namespace GapAbr
namespace Checked

variable {p : Planner}

/-- The segments the transition is looked for in are inside the video. -/
structure InHorizon (p : Planner) : Prop extends p.Placed where
  next_lt : p.currentQuality + 1 < p.video.segments.length
  horizon_lt : p.lastIndex + horizonAdjustment < p.video.length

theorem vmafDifference_eq (h : InHorizon p) {i : ℤ} (hi : 0 ≤ i) (hiL : i < p.video.length) :
    vmafDifference p i = some (GapAbr.vmafDifference p i) := by
  have hq := h.quality_nonneg
  rw [vmafDifference, TrackTable.infoAt_eq (by omega) h.next_lt hi hiL,
    TrackTable.infoAt_eq hq h.quality_lt hi hiL]
  rfl

theorem indexLowestDifference_eq (h : InHorizon p) :
    indexLowestDifference p = some (GapAbr.indexLowestDifference p) ∧
      p.lastIndex < GapAbr.indexLowestDifference p ∧
      GapAbr.indexLowestDifference p < p.video.length := by
  have hone := h.one_le
  have hlt := h.horizon_lt
  unfold horizonAdjustment at hlt
  have hfold := foldlM_eq_foldl (l := List.range (horizonAdjustment - 1))
    (f := fun (best : ℤ × ℤ) (k : ℕ) => do
      let i := p.lastIndex + 2 + k
      let difference ← vmafDifference p i
      return if difference < best.2 then (i, difference) else best)
    (g := fun (best : ℤ × ℤ) (k : ℕ) =>
      let i := p.lastIndex + 2 + k
      if GapAbr.vmafDifference p i < best.2 then (i, GapAbr.vmafDifference p i) else best)
    (P := fun best => p.lastIndex < best.1 ∧ best.1 < p.video.length)
    (b := (p.lastIndex + 1, GapAbr.vmafDifference p (p.lastIndex + 1))) ?_ ⟨by omega, by omega⟩
  · refine ⟨?_, hfold.2⟩
    rw [indexLowestDifference, vmafDifference_eq h (by omega) (by omega), Option.bind_eq_bind,
      Option.bind_some, hfold.1]
    rfl
  · intro best hbest k hk
    have hk4 : k < 4 := List.mem_range.mp hk
    dsimp only
    rw [vmafDifference_eq h (by omega) (by omega)]
    refine ⟨rfl, ?_⟩
    split
    · exact ⟨by omega, by omega⟩
    · exact hbest

/-- The length of the segments after the transition. -/
theorem totalLength_pos (h : InHorizon p) (hspaced : p.video.Spaced) :
    0 < ((transitionSegments p).map fun i => p.segmentLengthMs i (p.currentQuality + 1)).sum := by
  obtain ⟨-, hafter, hbefore⟩ := indexLowestDifference_eq h
  have hq := h.quality_nonneg
  have hone := h.one_le
  have hL := h.horizon_lt
  unfold horizonAdjustment at hL
  have hmem : GapAbr.indexLowestDifference p ∈ transitionSegments p := by
    rw [transitionSegments, List.mem_filter]
    refine ⟨List.mem_map.mpr ⟨0, by simp [horizonAdjustment], by simp⟩, ?_⟩
    rw [Planner.length_track_zero]
    exact decide_eq_true hbefore
  have hpos : ∀ n ∈ (transitionSegments p).map (fun i =>
      p.segmentLengthMs i (p.currentQuality + 1)), 0 < n := by
    intro n hn
    obtain ⟨i, hi, rfl⟩ := List.mem_map.mp hn
    rw [transitionSegments, List.mem_filter] at hi
    obtain ⟨k, -, rfl⟩ := List.mem_map.mp hi.1
    have := Planner.one_le_segmentLengthMs hspaced (by omega) (by omega) h.next_lt
      (i := GapAbr.indexLowestDifference p + k) (by omega)
    omega
  exact List.sum_pos _ hpos (List.ne_nil_of_mem (List.mem_map_of_mem hmem))

theorem avgNeededBw_eq (h : InHorizon p) (hspaced : p.video.Spaced) :
    avgNeededBw p = GapAbr.avgNeededBw p ∧ (GapAbr.avgNeededBw p).isSome := by
  obtain ⟨hindex, hafter, hbefore⟩ := indexLowestDifference_eq h
  have hq := h.quality_nonneg
  have hone := h.one_le
  have hL := h.horizon_lt
  unfold horizonAdjustment at hL
  have hbounds : ∀ i ∈ transitionSegments p, 0 ≤ i ∧ i < p.video.length := by
    intro i hi
    rw [transitionSegments, List.mem_filter, Planner.length_track_zero, decide_eq_true_eq] at hi
    obtain ⟨k, -, rfl⟩ := List.mem_map.mp hi.1
    exact ⟨by omega, hi.2⟩
  have hsizes : (transitionSegments p).mapM (fun i =>
      (p.video.infoAt (p.currentQuality + 1) i).bind fun info => pure (info.size : ℤ)) =
        some ((transitionSegments p).map fun i =>
          ((p.video.info (p.currentQuality + 1) i).size : ℤ)) := by
    refine mapM_eq_map fun i hi => ?_
    rw [TrackTable.infoAt_eq (by omega) h.next_lt (hbounds i hi).1 (hbounds i hi).2]
    rfl
  have hlengths : (transitionSegments p).mapM (fun i =>
      Planner.Checked.segmentLengthMs p i (p.currentQuality + 1)) =
        some ((transitionSegments p).map fun i => p.segmentLengthMs i (p.currentQuality + 1)) :=
    mapM_eq_map fun i hi =>
      Planner.Checked.segmentLengthMs_eq (by omega) (by omega) h.next_lt (hbounds i hi).1
  have hpos := totalLength_pos h hspaced
  have hsegments : ((List.range horizonAdjustment).map fun k : ℕ =>
      GapAbr.indexLowestDifference p + k).filter (fun i : ℤ => i < (p.video.track 0).length) =
        transitionSegments p := rfl
  rw [avgNeededBw, hindex, TrackTable.trackAt_zero, GapAbr.avgNeededBw]
  simp only [Option.bind_eq_bind, Option.bind_some, hsegments, hsizes, hlengths, hpos, if_true,
    hpos.ne', if_false]
  exact ⟨rfl, rfl⟩

theorem searchRange_eq (hp : p.Placed) (hspaced : p.video.Spaced) (minBw maxBw : ℤ) :
    searchRange p minBw maxBw = GapAbr.searchRange p minBw maxBw ∧
      (GapAbr.searchRange p minBw maxBw).isSome := by
  rw [searchRange, TrackTable.trackAt_zero, GapAbr.searchRange]
  simp only [Option.bind_eq_bind, Option.bind_some]
  by_cases hguard : p.currentQuality < p.video.segments.length - 1 ∧
      p.lastIndex < (p.video.track 0).length - horizonAdjustment
  · have hin : InHorizon p := by
      rw [Planner.length_track_zero] at hguard
      exact ⟨hp, by omega, by omega⟩
    obtain ⟨heq, hsome⟩ := avgNeededBw_eq hin hspaced
    obtain ⟨avg, havg⟩ := Option.isSome_iff_exists.mp hsome
    rw [if_pos hguard, if_pos hguard, heq, havg]
    simp only [Option.bind_some]
    refine ⟨trivial, ?_⟩
    split <;> rfl
  · rw [if_neg hguard, if_neg hguard]
    exact ⟨rfl, rfl⟩

end Checked
end GapAbr

theorem TargetAbr.Inv.gap_checked {c : Scenario} {s : TargetAbr} (h : TargetAbr.Inv c s)
    (hspaced : c.video.Spaced) (r : Readings) :
    GapAbr.Checked.decideQuality s c r s.base.decisionIndex =
        GapAbr.decideQuality s c r s.base.decisionIndex ∧
      (GapAbr.decideQuality s c r s.base.decisionIndex).isSome := by
  rw [GapAbr.Checked.decideQuality, TrackTable.trackAt_zero, GapAbr.decideQuality]
  simp only [Option.bind_eq_bind, Option.bind_some]
  by_cases hout : s.base.decisionIndex ≤ 1 ∨ ((c.video.track 0).length : ℤ) < s.base.decisionIndex
  · rw [if_pos hout, if_pos hout]
    exact ⟨rfl, rfl⟩
  · rw [if_neg hout, if_neg hout]
    rw [Planner.length_track_zero] at hout
    have hqoe := h.qoe_checked (by omega) (by omega) r.toEstimates
    have hrange := GapAbr.Checked.searchRange_eq (h.placed (by omega)) hspaced
      (truncate (r.bandwidth * (1 - GapAbr.qoeDelta)))
      (truncate (r.bandwidth * (1 + GapAbr.qoeDelta)))
    obtain ⟨range, hsome⟩ := Option.isSome_iff_exists.mp hrange.2
    rw [hrange.1, hsome]
    simp only [Option.bind_some, hqoe, Option.map_some, Checked.lowerTarget_eq]
    exact ⟨trivial, rfl⟩

/-- **The planners never read outside the video.** On a video whose start times are 1 ms apart,
in every reachable state, the call of `decideQuality` that `decide` makes has all its reads in
range, and `GapAbr` divides by a positive length. -/
theorem reads_in_video (v : TrackTable) (hspaced : v.Spaced)
    (bandwidthTarget : ℤ) (es : List FamilyAbr.Event) (e : Surroundings) :
    (let m : Stream := ⟨.targetAbr2, v⟩
      let s := (FamilyAbr.after m bandwidthTarget es).abr
      (TargetAbr.Checked.decideQuality s m.scenario e.readings.toEstimates
        s.base.decisionIndex).isSome) ∧
    (let m : Stream := ⟨.gapAbr, v⟩
      let s := (FamilyAbr.after m bandwidthTarget es).abr
      (GapAbr.Checked.decideQuality s m.scenario e.readings s.base.decisionIndex).isSome) := by
  constructor
  · intro m s
    rw [(steady_after m bandwidthTarget es).inv.decideQuality_checked]
    rfl
  · intro m s
    obtain ⟨heq, hsome⟩ :=
      (steady_after m bandwidthTarget es).inv.gap_checked hspaced e.readings
    rw [heq]
    exact hsome

/-- Two tracks of seven segments: after the first decision `GapAbr` looks for the transition up to
the second to last segment. -/
def sevenSegments : TrackTable where
  segments := [[⟨0, 80, 100000⟩, ⟨4, 80, 100000⟩, ⟨8, 70, 150000⟩, ⟨12, 80, 100000⟩,
      ⟨16, 75, 100000⟩, ⟨20, 80, 100000⟩, ⟨24, 80, 100000⟩],
    [⟨0, 90, 300000⟩, ⟨4, 90, 300000⟩, ⟨8, 85, 450000⟩, ⟨12, 90, 300000⟩,
      ⟨16, 85, 300000⟩, ⟨20, 90, 300000⟩, ⟨24, 90, 300000⟩]]
  length := 7
  nonempty := by decide
  equallyLong := by decide

/-- `GapAbr`, about to decide segment 2. -/
theorem reads_in_video_sevenSegments :
    let m : Stream := ⟨.gapAbr, sevenSegments⟩
    let e : Surroundings :=
      ⟨⟨⟨1000, 1000, fun _ => .insertion⟩, some 1000, some 50, false⟩, fun _ => 0⟩
    let s := (FamilyAbr.after m 1000 [.decide e]).abr
    sevenSegments.Spaced ∧ s.base.decisionIndex = 2 ∧
      (GapAbr.Checked.decideQuality s m.scenario e.readings 2).isSome := by
  intro m e s
  have hspaced : sevenSegments.Spaced := by
    intro track htrack
    fin_cases htrack <;> norm_num
  exact ⟨hspaced, rfl, (reads_in_video sevenSegments hspaced 1000 [.decide e] e).2⟩

end Target
end LiveStream
