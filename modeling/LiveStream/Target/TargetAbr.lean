import LiveStream.Abr.SegmentProgress
import LiveStream.Target.PlannerTheorems

/-!
# The target algorithms as objects

`TargetAbr`, `TargetAbr2` and `TargetAbr3` on top of `SegmentProgressAbr`: they keep the last
buffer level, and decide the quality of the next segment with the planner. What they differ
in here is the `localQoe` the planner calls. The bandwidth averages they read at a decision
are inputs of that decision.

* `Inv` and `inv_after`: in every reachable state the recorded qualities are those of
  tracks;
* `Inv.placed`: so the planner is asked about one of the tracks whenever `decideQuality`
  calls it.
-/

namespace LiveStream
namespace Target

open Lib AbrSchema TargetAbrConstants
open Abr (SegmentProgressAbr)

/-- What does not change during a run: the video and the scoring function. -/
structure Scenario where
  video : TrackTable
  localQoe : ℤ → ℤ → ℤ → ℤ → ℚ

/-- A scenario about a video whose tracks are in order. -/
structure Setting where
  video : Tracks
  localQoe : ℤ → ℤ → ℤ → ℤ → ℚ

def Setting.scenario (c : Setting) : Scenario := ⟨c.video, c.localQoe⟩

instance : CoeOut Setting Scenario := ⟨Setting.scenario⟩

/-- What a call of `decideQuality` reads besides the object: the average and the estimated
bandwidth in kbps, and how the containers happen to be laid out in each call of `qoe`. -/
structure Estimates where
  bandwidth : ℤ
  estimator : ℤ
  order : ℚ → IterationOrder

/-- The members that decide the next quality, and the bandwidth target they set. -/
structure TargetAbr where
  base : SegmentProgressAbr
  lastBufferLevel : AbrSchema.Value
  bandwidthTarget : ℤ

namespace TargetAbr

def init (bandwidthTarget : ℤ) : TargetAbr := ⟨SegmentProgressAbr.init, ⟨0, 0⟩, bandwidthTarget⟩

/-- The newest buffer level is kept. -/
def registerMetrics (s : TargetAbr) (metrics : Metrics) : TargetAbr :=
  { s with
    base := s.base.registerMetrics metrics
    lastBufferLevel := metrics.bufferLevel.foldl
      (fun last level => if last.timestamp < level.timestamp then level else last)
      s.lastBufferLevel }

/-- What the planner sees of the object. -/
def planner (s : TargetAbr) (c : Scenario) : Planner where
  video := c.video
  localQoe := c.localQoe
  lastIndex := s.base.decisionIndex - 1
  currentQuality := ((s.base.decisions (s.base.decisionIndex - 1)).getD Decision.default).quality
  startBuffer := s.lastBufferLevel.value

/-- `qoe(bandwidth).first`. -/
def qoeFirst (s : TargetAbr) (c : Scenario) (e : Estimates) (bandwidth : ℚ) : ℤ :=
  (((s.planner c).qoe bandwidth (e.order bandwidth)).map Prod.fst).getD 0

/-- `qoe(bandwidth).second`. -/
def qoeSecond (s : TargetAbr) (c : Scenario) (e : Estimates) (bandwidth : ℚ) : ℤ :=
  (((s.planner c).qoe bandwidth (e.order bandwidth)).map Prod.snd).getD 0

/-- The `while` loop that lowers the bandwidth target as long as the QoE stays above 95% of
its value at the upper end. -/
def lowerTarget (qoeFirst : ℚ → ℤ) (minBw : ℤ) (qoeMaxBw : ℤ) (target : ℤ) : ℤ :=
  if minBw ≤ target - TargetAbrConstants.step ∧
      qoePercentile * qoeMaxBw ≤ qoeFirst (target - TargetAbrConstants.step : ℤ) then
    lowerTarget qoeFirst minBw qoeMaxBw (target - TargetAbrConstants.step)
  else target
termination_by (target - minBw).toNat
decreasing_by
  next h =>
    have hmin := h.1
    unfold TargetAbrConstants.step at hmin ⊢
    omega

/-- `decideQuality(index)`: the bandwidth target it leaves, and the quality. -/
def decideQuality (s : TargetAbr) (c : Scenario) (e : Estimates) (index : ℤ) : ℤ × ℤ :=
  if index ≤ 1 ∨ ((c.video.track 0).length : ℤ) < index then (s.bandwidthTarget, 0)
  else
    -- a negative estimate is an overflow
    let estimator := if e.estimator < 0 then e.bandwidth else e.estimator
    let minBw := truncate (min estimator e.bandwidth * (1 - qoeDelta))
    let maxBw := truncate (estimator * (1 + qoeDelta))
    let target := lowerTarget (s.qoeFirst c e) minBw (s.qoeFirst c e maxBw) maxBw
    (target, s.qoeSecond c e (safeDownscale * e.bandwidth))

/-- `decide()`; the virtual call happens only when a decision is recorded. -/
def decide (s : TargetAbr) (c : Scenario) (e : Estimates) : TargetAbr × Decision :=
  let r := s.base.decide fun index => (s.decideQuality c e index).2
  let recorded := r.1.decisionIndex ≠ s.base.decisionIndex
  ({ s with
      base := r.1
      bandwidthTarget :=
        if recorded then (s.decideQuality c e s.base.decisionIndex).1 else s.bandwidthTarget },
    r.2)

/-! ## Runs -/

/-- A call on the interface. -/
inductive Event where
  | registerMetrics (metrics : Metrics)
  | registerAbort (index : ℤ)
  | decide (estimates : Estimates)

def step (s : TargetAbr) (c : Scenario) : Event → TargetAbr
  | .registerMetrics metrics => s.registerMetrics metrics
  | .registerAbort index => { s with base := s.base.registerAbort index }
  | .decide estimates => (s.decide c estimates).1

/-- The state after a sequence of calls from the constructor on. -/
def after (c : Scenario) (bandwidthTarget : ℤ) (es : List Event) : TargetAbr :=
  run (fun s ev => s.step c ev) (init bandwidthTarget) es

/-! ## The reachable planners -/

/-- What every run keeps true. -/
structure Inv (c : Scenario) (s : TargetAbr) : Prop where
  base : s.base.Inv
  /-- A recorded quality is that of a track. -/
  quality : ∀ i d, s.base.decisions i = some d → 0 ≤ d.quality ∧ d.quality < c.video.segments.length

variable {c : Scenario} {s : TargetAbr}

/-- After the first decision the planner is asked about one of the tracks. -/
theorem Inv.placed (h : Inv c s) (h2 : 2 ≤ s.base.decisionIndex) : (s.planner c).Placed := by
  obtain ⟨d, hd⟩ := h.base.latest h2
  have hquality : (s.planner c).currentQuality = d.quality := by
    simp only [planner, hd, Option.getD_some]
  have hd' := h.quality _ d hd
  refine ⟨?_, ?_, ?_⟩
  · show 1 ≤ s.base.decisionIndex - 1
    omega
  · rw [hquality]
    exact hd'.1
  · rw [hquality]
    exact hd'.2

/-- `decideQuality` answers with the quality of a track. -/
theorem Inv.decideQuality_quality (h : Inv c s) (e : Estimates) :
    0 ≤ (s.decideQuality c e s.base.decisionIndex).2 ∧
      (s.decideQuality c e s.base.decisionIndex).2 < c.video.segments.length := by
  have hpos : (0 : ℤ) < c.video.segments.length := by
    exact_mod_cast Planner.segments_length_pos c.video
  unfold decideQuality
  split
  · exact ⟨le_refl 0, hpos⟩
  · next hin =>
    obtain ⟨r, hr, hquality⟩ := Planner.qoe_mem_qualities (b := safeDownscale * e.bandwidth)
      (e.order (safeDownscale * e.bandwidth)) (h.placed (by omega))
    simp only [qoeSecond, hr, Option.map_some, Option.getD_some]
    have hbounds := Planner.mem_qualities.mp hquality
    have hvideo : (s.planner c).video = c.video := rfl
    rw [hvideo] at hbounds
    omega

theorem inv_init (c : Scenario) (bandwidthTarget : ℤ) : Inv c (init bandwidthTarget) :=
  ⟨SegmentProgressAbr.inv_init, fun _ _ hd => by simp [init, SegmentProgressAbr.init] at hd⟩

theorem Inv.decide (h : Inv c s) (e : Estimates) : Inv c (s.decide c e).1 := by
  refine ⟨h.base.decide _, ?_⟩
  show ∀ i d, (s.base.decide _).1.decisions i = some d → _
  rcases SegmentProgressAbr.decide_cases h.base fun index => (s.decideQuality c e index).2 with
    ⟨-, he⟩ | ⟨-, -, d, -, he⟩
  · rw [he]
    intro i d hd
    by_cases hi : i = s.base.decisionIndex
    · rw [hi] at hd
      simp only [Function.update_self, Option.some.injEq] at hd
      rw [← hd]
      exact h.decideQuality_quality e
    · simp only [Function.update_of_ne hi] at hd
      exact h.quality i d hd
  · rw [he]
    exact h.quality

theorem Inv.step (h : Inv c s) (ev : Event) : Inv c (s.step c ev) := by
  cases ev with
  | registerMetrics m =>
    refine ⟨h.base.registerMetrics m, fun i d hd => h.quality i d ?_⟩
    rw [← (SegmentProgressAbr.registerMetrics_frame s.base m).1]
    exact hd
  | registerAbort i => exact ⟨h.base.registerAbort i, h.quality⟩
  | decide e => exact h.decide e

/-- Every run keeps the invariant. -/
theorem inv_after (c : Scenario) (bandwidthTarget : ℤ) (es : List Event) :
    Inv c (after c bandwidthTarget es) :=
  run_invariant (inv_init c bandwidthTarget) fun _ ht ev _ => ht.step ev

end TargetAbr

end Target
end LiveStream
