import LiveStream.Abr.ReportMerge
import LiveStream.Dash.Stats

/-!
# The reports survive the trip to the back-end

Between player and back-end reports are batched, compacted, deduplicated and sorted, and
the POSTs may arrive in any order. `FrontEnd.covers_after` is the invariant: what has been
POSTed together with what is still held covers every report produced. After a tick nothing
is held, and `reports_survive` follows with the merge rules of `SegmentProgressAbr`.
-/

namespace LiveStream
namespace Dash

open Lib
open AbrSchema (State)
open Abr (SegmentProgressAbr)
open Abr.SegmentProgressAbr (Older Unambiguous registerSegment registered_eq)

/-! ## Reports as the back-end reads them -/

/-- The report the back-end reads when `s` is sent by itself; a `NaN` index is unreadable. -/
def Segment.received (s : Segment) : Option AbrSchema.Segment := (s.serialize false).toSchema

theorem Segment.received_eq_some {s : Segment} {g : AbrSchema.Segment}
    (h : s.received = some g) :
    s.index = some g.index ∧ s.state = g.state ∧ s.timestamp = g.timestamp := by
  obtain ⟨i, hi, rfl⟩ := Option.map_eq_some_iff.mp h
  rw [serialize_index] at hi
  simp [hi]

/-- Where no conversion fails, none is cut off. -/
theorem toSchemas_eq_filterMap {js : List SegmentJson} (h : ∀ j ∈ js, j.index ≠ none) :
    toSchemas js = js.filterMap SegmentJson.toSchema := by
  induction js with
  | nil => rfl
  | cons j js ih =>
    obtain ⟨i, hi⟩ := Option.ne_none_iff_exists'.mp (h j (List.mem_cons_self ..))
    have htail := ih fun j' hj' => h j' (List.mem_cons_of_mem _ hj')
    simp [toSchemas, SegmentJson.toSchema, hi, htail]

/-- A batch covers the reports it was compacted from. -/
theorem covers_prepareSegments (m : Metrics) :
    Covers Older (toSchemas (Metrics.prepareSegments false m.segments))
      (m.segments.filterMap Segment.received) := by
  have hindexed : ∀ j ∈ Metrics.prepareSegments false m.segments, j.index ≠ none := by
    intro j hj
    obtain ⟨s, hs, rfl⟩ := Metrics.mem_prepareSegments.mp hj
    rw [Segment.serialize_index]
    exact m.indexed s (Metrics.mem_of_mem_compacted hs)
  rw [toSchemas_eq_filterMap hindexed]
  constructor
  · intro g hg
    obtain ⟨j, hj, hjg⟩ := List.mem_filterMap.mp hg
    obtain ⟨s, hs, rfl⟩ := Metrics.mem_prepareSegments.mp hj
    exact List.mem_filterMap.mpr ⟨s, Metrics.mem_of_mem_compacted hs, hjg⟩
  · intro g hg
    obtain ⟨s, hs, hsg⟩ := List.mem_filterMap.mp hg
    obtain ⟨hsi, hss, hst⟩ := Segment.received_eq_some hsg
    obtain ⟨t, ht, hti, hts, htt⟩ := Metrics.exists_newer_compacted hs (m.indexed s hs)
    have hmem : t.serialize false ∈ Metrics.prepareSegments false m.segments :=
      Metrics.mem_prepareSegments.mpr ⟨t, ht, rfl⟩
    have hreceived : t.received ≠ none := by
      simp [Segment.received, SegmentJson.toSchema, hti, hsi]
    obtain ⟨g', hg'⟩ := Option.ne_none_iff_exists'.mp hreceived
    obtain ⟨hi, hs', ht'⟩ := Segment.received_eq_some hg'
    refine ⟨g', List.mem_filterMap.mpr ⟨_, hmem, hg'⟩, ?_, ?_, ?_⟩
    · rw [hti, hsi] at hi
      exact (Option.some.inj hi).symm
    · rw [← hs', hts, hss]
    · rw [← hst, ← ht']
      exact htt

/-! ## The front-end's invariant -/

namespace FrontEnd

/-- The reports in the batches POSTed so far. -/
def sent (posted : List MetricsJson) : List AbrSchema.Segment :=
  posted.flatMap fun j => toSchemas j.segments

/-- The reports still held by the controller, as they would be read. -/
def held (f : FrontEnd) : List AbrSchema.Segment :=
  f.statsController.metrics.segments.filterMap Segment.received

theorem held_add (f : FrontEnd) (m : Metrics) :
    (f.step (.add m)).held = f.held ++ m.segments.filterMap Segment.received := by
  simp [held, step, StatsController.addMetrics, Metrics.withMetrics_segments]

theorem held_tick (f : FrontEnd) (m : Metrics) : (f.step (.tick m)).held = [] := by
  show List.filterMap _ (f.trackerCallback m).statsController.metrics.segments = []
  rw [trackerCallback_segments, List.filterMap_nil]

/-- A tick POSTs a batch that covers what is held when the snapshot is added. -/
theorem sent_tick (f : FrontEnd) (m : Metrics) :
    ∃ batch, Covers Older batch (f.step (.add m)).held ∧
      sent (f.step (.tick m)).posted = sent f.posted ++ batch := by
  set all := (f.statsController.addMetrics m).getMetrics none
  refine ⟨toSchemas (Metrics.prepareSegments false all.segments), ?_, ?_⟩
  · refine (covers_prepareSegments all).trans Older.trans (Covers.of_mem_iff Older.refl fun g => ?_)
    simp only [all, StatsController.getMetrics_none_segments, List.mem_filterMap, mem_sortOn]
    exact List.mem_filterMap.symm
  · show List.flatMap _ (f.posted ++ [all.serialize]) = _
    rw [List.flatMap_append, List.flatMap_singleton]
    rfl

/-- **Invariant.** What was POSTed and what is held cover every report produced. -/
theorem covers_after (es : List Event) :
    Covers Older (sent (after es).posted ++ (after es).held)
      ((reports es).filterMap Segment.received) := by
  induction es using List.reverseRecOn with
  | nil => exact Covers.of_mem_iff Older.refl fun g => Iff.rfl
  | append_singleton es e ih =>
    have hafter : after (es ++ [e]) = (after es).step e := run_concat _ _ _ _
    have hreports : (reports (es ++ [e])).filterMap Segment.received =
        (reports es).filterMap Segment.received ++
          e.metrics.segments.filterMap Segment.received := by
      simp [reports]
    have hadded : Covers Older
        (sent (after es).posted ++ ((after es).step (.add e.metrics)).held)
        ((reports (es ++ [e])).filterMap Segment.received) := by
      rw [held_add, ← List.append_assoc, hreports]
      exact ih.append (Covers.of_mem_iff Older.refl fun _ => Iff.rfl)
    rw [hafter]
    cases e with
    | add m => exact hadded
    | tick m =>
      -- what was held moves into the batch, compacted
      obtain ⟨batch, hcov, hsent⟩ := sent_tick (after es) m
      rw [held_tick, List.append_nil, hsent]
      have hsame : Covers Older (sent (after es).posted) (sent (after es).posted) :=
        Covers.of_mem_iff Older.refl fun _ => Iff.rfl
      exact (hsame.append hcov).trans Older.trans hadded

end FrontEnd

/-! ## Registering -/

/-- The back-end registers one POSTed batch. -/
def registerBatch (s : SegmentProgressAbr) (j : MetricsJson) : SegmentProgressAbr :=
  s.registerMetrics j.toSchema

/-- The back-end registers one report, sent by itself and uncompacted. -/
def registerReport (s : SegmentProgressAbr) (r : Segment) : SegmentProgressAbr :=
  s.registerMetrics { segments := toSchemas [r.serialize false] }

theorem run_registerBatch (s : SegmentProgressAbr) (posted : List MetricsJson) :
    run registerBatch s posted = run registerSegment s (FrontEnd.sent posted) :=
  List.foldl_flatMap.symm

theorem run_registerReport (s : SegmentProgressAbr) (rs : List Segment) :
    run registerReport s rs = run registerSegment s (rs.filterMap Segment.received) := by
  induction rs generalizing s with
  | nil => rfl
  | cons r rs ih =>
    rw [run_cons, ih, List.filterMap_cons]
    cases hr : r.received with
    | none =>
      have hnone : (r.serialize false).toSchema = none := hr
      simp [registerReport, SegmentProgressAbr.registerMetrics, toSchemas, hnone]
    | some g =>
      have hsome : (r.serialize false).toSchema = some g := hr
      simp [registerReport, SegmentProgressAbr.registerMetrics, toSchemas, hsome]

/-! ## The main result -/

/-- The reports of segment `i` in a given state. -/
def reportsOf (rs : List Segment) (i : ℤ) (state : State) : List Segment :=
  rs.filter fun r => r.index = some i ∧ r.state = state

/-- Per segment, PROGRESS timestamps are distinct and DOWNLOADED is reported at most once. -/
def DistinctReports (rs : List Segment) : Prop :=
  ∀ i, ((reportsOf rs i .progress).map Segment.timestamp).Nodup ∧
    (reportsOf rs i .downloaded).length ≤ 1

theorem DistinctReports.unambiguous {rs : List Segment} (h : DistinctReports rs) :
    Unambiguous (rs.filterMap Segment.received) := by
  intro g hg g' hg' hindex hstate hloading htimestamp
  obtain ⟨r, hr, hrg⟩ := List.mem_filterMap.mp hg
  obtain ⟨r', hr', hrg'⟩ := List.mem_filterMap.mp hg'
  obtain ⟨hri, hrs, hrt⟩ := Segment.received_eq_some hrg
  obtain ⟨hri', hrs', hrt'⟩ := Segment.received_eq_some hrg'
  have hmem : r ∈ reportsOf rs g.index g.state :=
    List.mem_filter.mpr ⟨hr, by simp [hri, hrs]⟩
  have hmem' : r' ∈ reportsOf rs g.index g.state :=
    List.mem_filter.mpr ⟨hr', by simp [hri', hrs', hindex, hstate]⟩
  -- the two reports are one, so they are read as one
  have hsame : r = r' := by
    cases hs : g.state with
    | loading => exact absurd hs hloading
    | progress =>
      rw [hs] at hmem hmem'
      refine List.inj_on_of_nodup_map (h g.index).1 hmem hmem' ?_
      rw [hrt, hrt', htimestamp hs]
    | downloaded =>
      rw [hs] at hmem hmem'
      have hone := (h g.index).2
      rcases hlist : reportsOf rs g.index .downloaded with _ | ⟨a, _ | ⟨b, l⟩⟩
      · rw [hlist] at hmem
        cases hmem
      · rw [hlist, List.mem_singleton] at hmem hmem'
        rw [hmem, hmem']
      · rw [hlist, List.length_cons, List.length_cons] at hone
        omega
  rw [hsame, hrg'] at hrg
  exact (Option.some.inj hrg).symm

/-- **The reports survive.** After a run of the player that ends with a tick, the batches it
POSTed leave the back-end, in whatever order they arrive, with the table of newest reports
and the newest timestamp that registering every report by itself and in order gives. -/
theorem reports_survive (es : List FrontEnd.Event) (m : Metrics)
    (hdistinct : DistinctReports (FrontEnd.reports (es ++ [.tick m])))
    (arrived : List MetricsJson)
    (harrived : arrived.Perm (FrontEnd.after (es ++ [.tick m])).posted) :
    let merged := run registerBatch .init arrived
    let direct := run registerReport .init (FrontEnd.reports (es ++ [.tick m]))
    merged.lastSegment = direct.lastSegment ∧ merged.lastTimestamp = direct.lastTimestamp := by
  intro merged direct
  have hheld : (FrontEnd.after (es ++ [.tick m])).held = [] := by
    rw [FrontEnd.after, run_concat]
    exact FrontEnd.held_tick _ m
  have hcov := FrontEnd.covers_after (es ++ [.tick m])
  rw [hheld, List.append_nil] at hcov
  -- the order of arrival does not change which reports arrive
  have horder : Covers Older (FrontEnd.sent arrived)
      (FrontEnd.sent (FrontEnd.after (es ++ [.tick m])).posted) :=
    Covers.of_mem_iff Older.refl fun g => (harrived.flatMap_right _).mem_iff
  simp only [merged, direct, run_registerBatch, run_registerReport]
  exact registered_eq (horder.trans Older.trans hcov) hdistinct.unambiguous

/-- A tick between two PROGRESS reports of segment 1, then a late older one, its DOWNLOADED
report and a second tick. -/
def twoTicks : List FrontEnd.Event :=
  [.add { segments := [⟨10, none, some 1, .progress, some 100, some 900⟩] },
    .tick { playerTime := [⟨0, 12⟩], indexed := Metrics.indexed_nil },
    .add { segments := [⟨30, none, some 1, .progress, some 700, some 900⟩,
      ⟨20, none, some 1, .progress, some 400, some 900⟩] },
    .add { segments := [⟨40, none, some 1, .downloaded, none, none⟩] }]

/-- The second batch overtakes the first. -/
theorem reports_survive_reversed :
    let es := twoTicks ++ [.tick {}]
    let posted := (FrontEnd.after es).posted
    DistinctReports (FrontEnd.reports es) ∧ posted.length = 2 ∧
      (run registerBatch .init posted.reverse).lastSegment =
        (run registerReport .init (FrontEnd.reports es)).lastSegment ∧
      (run registerBatch .init posted.reverse).lastTimestamp =
        (run registerReport .init (FrontEnd.reports es)).lastTimestamp := by
  have hdistinct : DistinctReports (FrontEnd.reports (twoTicks ++ [.tick {}])) := by
    intro i
    by_cases hi : 1 = i
    · simp [FrontEnd.reports, twoTicks, FrontEnd.Event.metrics, reportsOf, hi]
    · simp [FrontEnd.reports, twoTicks, FrontEnd.Event.metrics, reportsOf, hi]
  have hlength : (FrontEnd.after (twoTicks ++ [.tick {}])).posted.length = 2 := by decide +kernel
  exact ⟨hdistinct, hlength, reports_survive twoTicks {} hdistinct _ (List.reverse_perm _)⟩

end Dash
end LiveStream
