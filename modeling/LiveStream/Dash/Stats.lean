import LiveStream.Lib.Newest
import LiveStream.Abr.Schema

/-!
# The player's statistics

`component/stats.ts`, `controller/stats.ts`, the part of `common/data.ts` they use, and the
tracker callback of `apps/server_side.ts`.

The player collects reports in a `StatsController`. On every tick the tracker adds its own
snapshot, POSTs the compacted collection to the back-end and discards what it has sent.

* `Metrics.withMetrics_segments`, what merging two collections does to the segments;
* `mem_prepareSegments`, which reports survive compaction;
* `FrontEnd.step`, one report or one tick, with the batches POSTed so far.
-/

namespace LiveStream
namespace Dash

open AbrSchema (State Value NOT_PRESENT)
open Lib

/-! ## Reports and their JSON -/

/-- The front-end's `Segment`. -/
structure Segment where
  timestamp : ℤ
  quality : Option ℤ := none
  /-- `none` for `NaN`, the index of a report with no start time. -/
  index : Option ℤ
  state : State
  loaded : Option ℤ := none
  total : Option ℤ := none
deriving DecidableEq

/-- The JSON object of a report; `none` is a field that is absent (or a null index). -/
structure SegmentJson where
  index : Option ℤ
  state : State
  timestamp : ℤ
  loaded : Option ℤ := none
  total : Option ℤ := none
  quality : Option ℤ := none
deriving DecidableEq

def Segment.serialize (s : Segment) (full : Bool) : SegmentJson :=
  let ret : SegmentJson :=
    match s.state with
    | .loading | .downloaded => { index := s.index, state := s.state, timestamp := s.timestamp }
    | .progress =>
      { index := s.index, state := s.state, timestamp := s.timestamp,
        loaded := s.loaded, total := s.total }
  if full then { ret with quality := s.quality } else ret

@[simp] theorem Segment.serialize_index (s : Segment) (full : Bool) :
    (s.serialize full).index = s.index := by
  unfold serialize; cases s.state <;> cases full <;> rfl

@[simp] theorem Segment.serialize_state (s : Segment) (full : Bool) :
    (s.serialize full).state = s.state := by
  unfold serialize; cases s.state <;> cases full <;> rfl

@[simp] theorem Segment.serialize_timestamp (s : Segment) (full : Bool) :
    (s.serialize full).timestamp = s.timestamp := by
  unfold serialize; cases s.state <;> cases full <;> rfl

/-! ## `Metrics` -/

/-- A collection of metrics. `withSegment` is the only way a report enters it, so every
report in it has an index. -/
structure Metrics where
  segments : List Segment := []
  droppedFrames : List Value := []
  playerTime : List Value := []
  bufferLevel : List Value := []
  indexed : ∀ s ∈ segments, s.index ≠ none := by simp

namespace Metrics

theorem indexed_nil : ∀ s ∈ ([] : List Segment), s.index ≠ none := List.forall_mem_nil _

def withDroppedFrames (m : Metrics) (droppedFrames : Value) : Metrics :=
  { m with droppedFrames := m.droppedFrames ++ [droppedFrames] }

def withPlayerTime (m : Metrics) (playerTime : Value) : Metrics :=
  { m with playerTime := m.playerTime ++ [playerTime] }

def withBufferLevel (m : Metrics) (bufferLevel : Value) : Metrics :=
  { m with bufferLevel := m.bufferLevel ++ [bufferLevel] }

/-- Reports whose index is `NaN` are ignored. -/
def withSegment (m : Metrics) (segment : Segment) : Metrics :=
  if h : segment.index ≠ none then
    { m with
      segments := m.segments ++ [segment]
      indexed := by
        intro s hs
        rcases List.mem_append.mp hs with hs | hs
        · exact m.indexed s hs
        · rw [List.mem_singleton.mp hs]
          exact h }
  else m

/-- `_apply`: push what passes the filter, which looks at the timestamp only. -/
def applyAll {α : Type} (m : Metrics) (builder : Metrics → α → Metrics) (timestamp : α → ℤ)
    (array : List α) (filter : ℤ → Bool) : Metrics :=
  run builder m (array.filter fun x => filter (timestamp x))

def withMetrics (m metrics : Metrics) (filter : ℤ → Bool := fun _ => true) : Metrics :=
  let m := m.applyAll withDroppedFrames Value.timestamp metrics.droppedFrames filter
  let m := m.applyAll withPlayerTime Value.timestamp metrics.playerTime filter
  let m := m.applyAll withBufferLevel Value.timestamp metrics.bufferLevel filter
  m.applyAll withSegment Segment.timestamp metrics.segments filter

def sorted (m : Metrics) : Metrics where
  segments := sortOn Segment.timestamp m.segments
  droppedFrames := sortOn Value.timestamp m.droppedFrames
  playerTime := sortOn Value.timestamp m.playerTime
  bufferLevel := sortOn Value.timestamp m.bufferLevel
  indexed := fun s hs => m.indexed s (mem_sortOn.mp hs)

/-! ## Serialization -/

/-- Whether an object lists a number's key among its ascending integer keys. -/
def isArrayIndex (key : ℤ) : Bool := 0 ≤ key && key < 2 ^ 32 - 1

/-- `Object.keys` of the reports grouped by index: array indices in ascending order, then
the other keys in order of first insertion. -/
def groupKeys (segments : List Segment) : List ℤ :=
  let keys := (segments.filterMap Segment.index).eraseDups
  sortOn id (keys.filter fun k => isArrayIndex k) ++ keys.filter fun k => !isArrayIndex k

/-- The newest report of each index. -/
def prepareLoading (noProgress : Bool) (segments : List Segment) : List Segment :=
  if noProgress then []
  else (groupKeys segments).filterMap fun index =>
    (sortOn Segment.timestamp (segments.filter fun s => s.index = some index)).getLast?

/-- The reports `serialize` sends: every LOADING and DOWNLOADED one and the newest PROGRESS
of each index. -/
def compacted (noProgress : Bool) (segments : List Segment) : List Segment :=
  (segments.filter fun s => s.state ≠ .progress) ++
    prepareLoading noProgress (segments.filter fun s => s.state = .progress)

/-- Equal JSON texts are sent once. -/
def prepareSegments (noProgress : Bool) (segments : List Segment) : List SegmentJson :=
  sortOn SegmentJson.timestamp
    ((compacted noProgress segments).map fun s => s.serialize noProgress).eraseDups

end Metrics

/-- The body of a metrics POST. A `Value` serializes to its two fields. -/
structure MetricsJson where
  droppedFrames : List Value
  playerTime : List Value
  bufferLevel : List Value
  segments : List SegmentJson

def Metrics.serialize (m : Metrics) (noProgress : Bool := false) : MetricsJson where
  droppedFrames := sortOn Value.timestamp m.droppedFrames.eraseDups
  playerTime := sortOn Value.timestamp m.playerTime.eraseDups
  bufferLevel := sortOn Value.timestamp m.bufferLevel.eraseDups
  segments := Metrics.prepareSegments noProgress m.segments

/-! ## Reading the JSON on the other side -/

/-- The back-end's converter: an absent byte count keeps its placeholder, and an object
without an integer index is not converted. -/
def SegmentJson.toSchema (j : SegmentJson) : Option AbrSchema.Segment :=
  j.index.map fun index =>
    { index := index, timestamp := j.timestamp, loaded := j.loaded.getD NOT_PRESENT,
      total := j.total.getD NOT_PRESENT, quality := j.quality, state := j.state }

/-- Conversion of an array stops at the first element that fails. -/
def toSchemas : List SegmentJson → List AbrSchema.Segment
  | [] => []
  | j :: js =>
    match j.toSchema with
    | none => []
    | some g => g :: toSchemas js

def MetricsJson.toSchema (j : MetricsJson) : AbrSchema.Metrics where
  droppedFrames := j.droppedFrames
  playerTime := j.playerTime
  bufferLevel := j.bufferLevel
  segments := toSchemas j.segments

/-! ## `StatsController` and the tracker callback -/

structure StatsController where
  metrics : Metrics := {}

namespace StatsController

/-- Discard all information before `timestamp`, inclusively. -/
def advance (c : StatsController) (timestamp : ℤ) : StatsController where
  metrics := ({} : Metrics).withMetrics c.metrics fun t => timestamp < t

def getMetrics (c : StatsController) : Option ℤ → Metrics
  | none => (({} : Metrics).withMetrics c.metrics).sorted
  | some timestamp => (({} : Metrics).withMetrics c.metrics fun t => t ≤ timestamp).sorted

def addMetrics (c : StatsController) (metrics : Metrics) : StatsController where
  metrics := c.metrics.withMetrics metrics

end StatsController

/-- The timestamp a tick advances to: the last player time's, or a later report's. -/
def advanceTimestamp (allMetrics : Metrics) : ℤ :=
  let timestamp := (allMetrics.playerTime.getLast?.map Value.timestamp).getD 0
  allMetrics.segments.foldl (fun t s => max t s.timestamp) timestamp

/-- The player with the bodies of the metrics requests it has sent. -/
structure FrontEnd where
  statsController : StatsController := {}
  posted : List MetricsJson := []

namespace FrontEnd

/-- The callback `server_side.ts` registers with the tracker. -/
def trackerCallback (f : FrontEnd) (metrics : Metrics) : FrontEnd :=
  let statsController := f.statsController.addMetrics metrics
  let allMetrics := statsController.getMetrics none
  { statsController := statsController.advance (advanceTimestamp allMetrics)
    posted := f.posted ++ [allMetrics.serialize] }

/-- Reports are added by the request handlers, and by every tick of the tracker. -/
inductive Event where
  | add (metrics : Metrics)
  | tick (metrics : Metrics)

def Event.metrics : Event → Metrics
  | .add metrics => metrics
  | .tick metrics => metrics

def step (f : FrontEnd) : Event → FrontEnd
  | .add metrics => { f with statsController := f.statsController.addMetrics metrics }
  | .tick metrics => f.trackerCallback metrics

/-- The player after a sequence of reports and ticks. -/
def after (es : List Event) : FrontEnd := run step {} es

/-- Every report produced, in order. -/
def reports (es : List Event) : List Segment := es.flatMap fun e => e.metrics.segments

end FrontEnd

/-! ## What the operations do to the segments -/

namespace Metrics

theorem run_withSegment (m : Metrics) {l : List Segment} (hl : ∀ s ∈ l, s.index ≠ none) :
    (run withSegment m l).segments = m.segments ++ l := by
  induction l generalizing m with
  | nil => simp
  | cons s l ih =>
    have hs : s.index ≠ none := hl s (List.mem_cons_self ..)
    have hpush : (m.withSegment s).segments = m.segments ++ [s] := by
      rw [withSegment, dif_pos hs]
    rw [run_cons, ih _ fun t ht => hl t (List.mem_cons_of_mem _ ht), hpush,
      List.append_assoc, List.singleton_append]

/-- Merging appends the other collection's reports that pass the filter. -/
theorem withMetrics_segments (m metrics : Metrics) (filter : ℤ → Bool) :
    (m.withMetrics metrics filter).segments =
      m.segments ++ metrics.segments.filter fun s => filter s.timestamp := by
  have hdropped : ∀ m l, (run withDroppedFrames m l).segments = m.segments :=
    run_frame fun _ _ => rfl
  have hplayer : ∀ m l, (run withPlayerTime m l).segments = m.segments :=
    run_frame fun _ _ => rfl
  have hbuffer : ∀ m l, (run withBufferLevel m l).segments = m.segments :=
    run_frame fun _ _ => rfl
  unfold withMetrics applyAll
  rw [run_withSegment, hbuffer, hplayer, hdropped]
  exact fun s hs => metrics.indexed s (List.mem_filter.mp hs).1

theorem mem_groupKeys {segments : List Segment} {k : ℤ} :
    k ∈ groupKeys segments ↔ ∃ s ∈ segments, s.index = some k := by
  have hkeys : k ∈ (segments.filterMap Segment.index).eraseDups ↔
      ∃ s ∈ segments, s.index = some k := by
    rw [List.mem_eraseDups, List.mem_filterMap]
  rw [← hkeys]
  simp only [groupKeys, List.mem_append, mem_sortOn, List.mem_filter]
  cases isArrayIndex k <;> simp

/-- Compaction only selects. -/
theorem mem_of_mem_compacted {noProgress : Bool} {segments : List Segment} {s : Segment}
    (h : s ∈ compacted noProgress segments) : s ∈ segments := by
  rcases List.mem_append.mp h with h | h
  · exact (List.mem_filter.mp h).1
  · unfold prepareLoading at h
    split at h
    · cases h
    · obtain ⟨k, -, hlast⟩ := List.mem_filterMap.mp h
      have hgroup := mem_sortOn.mp (List.mem_of_getLast? hlast)
      exact (List.mem_filter.mp (List.mem_filter.mp hgroup).1).1

/-- Every report has a representative of its index and state that is at least as new. -/
theorem exists_newer_compacted {segments : List Segment} {s : Segment} (hs : s ∈ segments)
    (hindex : s.index ≠ none) : ∃ t ∈ compacted false segments,
      t.index = s.index ∧ t.state = s.state ∧ s.timestamp ≤ t.timestamp := by
  by_cases hstate : s.state = .progress
  · -- the newest PROGRESS of the index stands for the others
    obtain ⟨k, hk⟩ := Option.ne_none_iff_exists'.mp hindex
    set progress := segments.filter fun s => s.state = .progress with hprogress
    set group := progress.filter fun s => s.index = some k with hgroup
    have hsp : s ∈ progress := List.mem_filter.mpr ⟨hs, by simp [hstate]⟩
    have hsg : s ∈ group := List.mem_filter.mpr ⟨hsp, by simp [hk]⟩
    obtain ⟨t, ht, hlast⟩ := exists_getLast?_sortOn Segment.timestamp hsg
    obtain ⟨htp, htk⟩ := List.mem_filter.mp ht
    obtain ⟨-, htstate⟩ := List.mem_filter.mp htp
    refine ⟨t, List.mem_append_right _ ?_, ?_, ?_, le_getLast?_sortOn hlast hsg⟩
    · show t ∈ prepareLoading false progress
      rw [prepareLoading, if_neg Bool.false_ne_true]
      exact List.mem_filterMap.mpr ⟨k, mem_groupKeys.mpr ⟨s, hsp, hk⟩, hlast⟩
    · rw [hk]
      exact of_decide_eq_true htk
    · rw [hstate]
      exact of_decide_eq_true htstate
  · have hkept : s ∈ segments.filter fun s => s.state ≠ .progress :=
      List.mem_filter.mpr ⟨hs, by simp [hstate]⟩
    exact ⟨s, List.mem_append_left _ hkept, rfl, rfl, le_refl _⟩

theorem mem_prepareSegments {noProgress : Bool} {segments : List Segment} {j : SegmentJson} :
    j ∈ prepareSegments noProgress segments ↔
      ∃ s ∈ compacted noProgress segments, s.serialize noProgress = j := by
  rw [prepareSegments, mem_sortOn, List.mem_eraseDups, List.mem_map]

end Metrics

@[simp] theorem StatsController.getMetrics_none_segments (c : StatsController) :
    (c.getMetrics none).segments = sortOn Segment.timestamp c.metrics.segments := by
  simp [getMetrics, Metrics.sorted, Metrics.withMetrics_segments]

/-- No report of the snapshot is newer than the timestamp a tick advances to. -/
theorem timestamp_le_advanceTimestamp {m : Metrics} {s : Segment} (hs : s ∈ m.segments) :
    s.timestamp ≤ advanceTimestamp m :=
  ((le_foldl_max _ _).mp (le_refl (advanceTimestamp m))).2 s hs

/-- A tick leaves no report behind. -/
theorem FrontEnd.trackerCallback_segments (f : FrontEnd) (m : Metrics) :
    (f.trackerCallback m).statsController.metrics.segments = [] := by
  have hall : ∀ s ∈ (f.statsController.addMetrics m).metrics.segments, s.timestamp ≤
      advanceTimestamp ((f.statsController.addMetrics m).getMetrics none) := by
    intro s hs
    apply timestamp_le_advanceTimestamp
    rw [StatsController.getMetrics_none_segments]
    exact mem_sortOn.mpr hs
  show (Metrics.withMetrics _ _ _).segments = []
  rw [Metrics.withMetrics_segments, List.nil_append, List.filter_eq_nil_iff]
  intro s hs
  have hle := hall s hs
  simpa using hle

end Dash
end LiveStream
