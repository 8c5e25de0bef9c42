import LiveStream.Exp.Monitor

/-!
# Which records the monitor yields

`Reported` says once what the loop body can do with a report. From it:

* `one_record_each`, that a stream which skips no segment gets one record per segment, with the
  segment's own index;
* `last_quality_recorded`, that the records carry the last reported qualities as long as no
  recorded segment is reported with another one.
-/

namespace LiveStream
namespace Exp

open Lib
open AbrSchema (State)
open Video (DashBackendConfig VmafJson exportConfig)

variable {config : DashBackendConfig}

/-! ## What a report can do -/

namespace MetricsProcessor

variable {p p' : MetricsProcessor} {segment : Segment}

/-- Whatever `advance` returns, the counter moves on and an interval is closed. -/
theorem advance_frame {result : Option Record} (h : p.advance config segment = (p', result)) :
    p'.index = p.index + 1 ∧ p'.metrics = p.metrics ∧
      p'.timestamps = p.timestamps ++ [segment.timestamp] := by
  rw [show p' = (p.advance config segment).1 by rw [h]]
  unfold advance
  dsimp only
  split
  · split
    · split
      · exact ⟨rfl, rfl, rfl⟩
      · exact ⟨rfl, rfl, rfl⟩
    · exact ⟨rfl, rfl, rfl⟩
  · exact ⟨rfl, rfl, rfl⟩

/-- The record of a report. -/
theorem advance_record {record : Record} (h : p.advance config segment = (p', some record)) :
    record.index = p.index + 1 ∧ getVideoBitRate config segment.quality = some record.quality ∧
      record.rebuffer =
        rebufferTime (getValues p.playerTimes p.lastTimestamp segment.timestamp)
          (getValues p.bufferLevels p.lastTimestamp segment.timestamp) ∧
      p'.segments = p.segments ++ [segment] := by
  unfold advance at h
  dsimp only at h
  split at h
  · rename_i quality switch hquality hswitch
    split at h
    · split at h
      · obtain ⟨rfl, hrecord⟩ := Prod.mk.injEq .. ▸ h
        obtain rfl := Option.some.inj hrecord
        exact ⟨rfl, hquality, rfl, rfl⟩
      · cases h
    · cases h
  · cases h

/-- `check_quality` touches the last segment and the last VMAF only. -/
theorem checkQuality_frame {result : Option (Option Correction)}
    (h : p.checkQuality config segment = (p', result)) :
    p'.index = p.index ∧ p'.metrics = p.metrics ∧ p'.timestamps = p.timestamps := by
  rw [show p' = (p.checkQuality config segment).1 by rw [h]]
  unfold checkQuality
  split
  · exact ⟨rfl, rfl, rfl⟩
  · split
    · exact ⟨rfl, rfl, rfl⟩
    · split
      · dsimp only
        split
        · split
          · exact ⟨rfl, rfl, rfl⟩
          · exact ⟨rfl, rfl, rfl⟩
        · exact ⟨rfl, rfl, rfl⟩
      · exact ⟨rfl, rfl, rfl⟩

/-- The last segment is kept or gets the reported quality. -/
theorem checkQuality_segments {result : Option (Option Correction)}
    (h : p.checkQuality config segment = (p', result)) :
    p'.segments = p.segments ∨ ∃ last : Segment,
      p'.segments = p.segments.dropLast ++ [{ last with quality := segment.quality }] := by
  rw [show p' = (p.checkQuality config segment).1 by rw [h]]
  unfold checkQuality
  split
  · exact Or.inl rfl
  · rename_i last hlast
    split
    · exact Or.inl rfl
    · split
      · right
        refine ⟨last, ?_⟩
        dsimp only
        split
        · split
          · rfl
          · rfl
        · rfl
      · exact Or.inl rfl

end MetricsProcessor

/-- The stream after one report. -/
inductive Reported (config : DashBackendConfig) (s : QoeStream) (segment : Segment) :
    QoeStream → Prop
  /-- The rest of a batch after an exception, or not a segment being loaded. -/
  | skipped (h : s.halted = true ∨ segment.loading = false) : Reported config s segment s
  | recorded (p : MetricsProcessor) (record : Record) (hhalted : s.halted = false)
      (hloading : segment.loading = true) (hindex : s.processor.index + 1 ≤ segment.index)
      (hadvance : s.processor.advance config segment = (p, some record)) :
      Reported config s segment
        { s with
          processor := p
          emitted := s.emitted ++ [(segment, record)]
          processed := s.processed ++ [segment] }
  | checked (p : MetricsProcessor) (correction : Option Correction) (hhalted : s.halted = false)
      (hloading : segment.loading = true) (hindex : segment.index ≤ s.processor.index)
      (hcheck : s.processor.checkQuality config segment = (p, some correction)) :
      Reported config s segment { s with processor := p, processed := s.processed ++ [segment] }
  | failed (p : MetricsProcessor) (hhalted : s.halted = false) (hloading : segment.loading = true)
      (hfail : s.processor.index + 1 ≤ segment.index ∧
          s.processor.advance config segment = (p, none) ∨
        segment.index ≤ s.processor.index ∧
          s.processor.checkQuality config segment = (p, none)) :
      Reported config s segment (s.throw p)

theorem reported (config : DashBackendConfig) (s : QoeStream) (segment : Segment) :
    Reported config s segment (s.report config segment) := by
  unfold QoeStream.report
  split
  · rename_i hhalted
    exact .skipped (Or.inl hhalted)
  · rename_i hhalted
    rw [Bool.not_eq_true] at hhalted
    split
    · rename_i hnew
      split
      · rename_i hadvance
        exact .recorded _ _ hhalted hnew.2 hnew.1 hadvance
      · rename_i hadvance
        exact .failed _ hhalted hnew.2 (Or.inl ⟨hnew.1, hadvance⟩)
    · rename_i hold
      split
      · rename_i hloading
        have hindex : segment.index ≤ s.processor.index := by
          by_contra hlt
          exact hold ⟨by omega, hloading⟩
        split
        · rename_i hcheck
          exact .checked _ _ hhalted hloading hindex hcheck
        · rename_i hcheck
          exact .failed _ hhalted hloading (Or.inr ⟨hindex, hcheck⟩)
      · rename_i hloading
        exact .skipped (Or.inr (by simpa using hloading))

/-- The batches are kept as they came. -/
theorem metrics_report (config : DashBackendConfig) (s : QoeStream) (segment : Segment) :
    (s.report config segment).processor.metrics = s.processor.metrics := by
  have hreported := reported config s segment
  generalize s.report config segment = s' at hreported ⊢
  cases hreported with
  | skipped _ => rfl
  | recorded _ _ _ _ _ hadvance => exact (MetricsProcessor.advance_frame hadvance).2.1
  | checked _ _ _ _ _ hcheck => exact (MetricsProcessor.checkQuality_frame hcheck).2.1
  | failed _ _ _ hfail =>
    rcases hfail with ⟨-, hadvance⟩ | ⟨-, hcheck⟩
    · exact (MetricsProcessor.advance_frame hadvance).2.1
    · exact (MetricsProcessor.checkQuality_frame hcheck).2.1

/-! ## One record per segment -/

/-- Every record carries the index of the segment it was yielded for, and no two were yielded
for the same one. -/
def OneRecordEach (emitted : List (Segment × Record)) : Prop :=
  (∀ e ∈ emitted, e.2.index = e.1.index) ∧ (emitted.map fun e => e.1.index).Nodup

/-- A report that is handled is of a segment already counted or of the next one. -/
def NoSkip (s : QoeStream) : Event → Prop
  | .call _ => True
  | .report segment =>
    s.halted = false → segment.loading = true → segment.index ≤ s.processor.index + 1

instance (s : QoeStream) : (e : Event) → Decidable (NoSkip s e)
  | .call _ => isTrue trivial
  | .report _ => inferInstanceAs (Decidable (_ → _ → _))

/-- The counter is past every recorded segment. -/
structure Counted (s : QoeStream) : Prop where
  each : OneRecordEach s.emitted
  emitted_le : ∀ e ∈ s.emitted, e.1.index ≤ s.processor.index
  processed_le : ∀ r ∈ s.processed, r.index ≤ s.processor.index

theorem Counted.step {s : QoeStream} {e : Event} (h : Counted s) (hskip : NoSkip s e) :
    Counted (e.step config s) := by
  cases e with
  | call metrics => exact ⟨h.each, h.emitted_le, h.processed_le⟩
  | report segment =>
    show Counted (s.report config segment)
    have hreported := reported config s segment
    generalize s.report config segment = s' at hreported ⊢
    cases hreported with
    | skipped _ => exact h
    | failed p hhalted hloading hfail =>
      have hindex : s.processor.index ≤ p.index := by
        rcases hfail with ⟨-, hadvance⟩ | ⟨-, hcheck⟩
        · have hcounter := (MetricsProcessor.advance_frame hadvance).1
          omega
        · exact (MetricsProcessor.checkQuality_frame hcheck).1.ge
      exact ⟨h.each, fun e he => (h.emitted_le e he).trans hindex,
        fun r hr => (h.processed_le r hr).trans hindex⟩
    | checked p _ hhalted hloading hindex hcheck =>
      have hcounter := (MetricsProcessor.checkQuality_frame hcheck).1.ge
      refine ⟨h.each, fun e he => (h.emitted_le e he).trans hcounter, ?_⟩
      exact List.forall_mem_append.mpr ⟨fun r hr => (h.processed_le r hr).trans hcounter,
        List.forall_mem_singleton.mpr (hindex.trans hcounter)⟩
    | recorded p record hhalted hloading hindex hadvance =>
      have hframe := (MetricsProcessor.advance_frame hadvance).1
      have hnext : segment.index = s.processor.index + 1 := by
        have := hskip hhalted hloading
        omega
      have hrecord := (MetricsProcessor.advance_record hadvance).1
      have hcounter : s.processor.index ≤ p.index := by omega
      have hnew : segment.index ≤ p.index := by omega
      have hfresh : segment.index ∉ s.emitted.map fun e => e.1.index := by
        intro hmem
        obtain ⟨e, he, heq⟩ := List.mem_map.mp hmem
        have hle := h.emitted_le e he
        omega
      refine ⟨⟨?_, ?_⟩, ?_, ?_⟩
      · exact List.forall_mem_append.mpr
          ⟨h.each.1, List.forall_mem_singleton.mpr (hrecord.trans hnext.symm)⟩
      · show ((s.emitted ++ [(segment, record)]).map fun e => e.1.index).Nodup
        rw [List.map_append, List.map_singleton]
        exact List.nodup_append.mpr ⟨h.each.2, List.nodup_singleton _, fun a ha b hb hab =>
          hfresh (List.mem_singleton.mp hb ▸ hab ▸ ha)⟩
      · exact List.forall_mem_append.mpr ⟨fun e he => (h.emitted_le e he).trans hcounter,
          List.forall_mem_singleton.mpr hnew⟩
      · exact List.forall_mem_append.mpr ⟨fun r hr => (h.processed_le r hr).trans hcounter,
          List.forall_mem_singleton.mpr hnew⟩

theorem Counted.init : Counted {} :=
  ⟨⟨by simp, by simp⟩, by simp, by simp⟩

/-- **One record per segment.** If no handled report skips a segment, every record carries the
index of its own segment, and no segment has two. -/
theorem one_record_each (config : DashBackendConfig) (ms : List Metrics)
    (h : EveryStep (Event.step config) NoSkip {} (events ms)) :
    OneRecordEach (QoeStream.after config ms).emitted := by
  rw [after_eq_run]
  have hcounted : Counted (run (Event.step config) {} (events ms)) :=
    h.invariant Counted.init fun _ _ hs hskip => hs.step hskip
  exact hcounted.each

/-- A video in two qualities. -/
def twoTracks : VmafJson where
  tracks := [(1000, List.replicate 6 ⟨0, 80, 500⟩), (2000, List.replicate 6 ⟨0, 90, 900⟩)]
  nonempty := by decide
  distinct := by decide
  segments := 6
  equallyLong := by decide

/-- Segment `index` starts to load in quality `quality`. -/
def load (index quality timestamp : ℤ) : Segment := ⟨index, State.loading, quality, timestamp⟩

instance (emitted : List (Segment × Record)) : Decidable (OneRecordEach emitted) :=
  inferInstanceAs (Decidable (_ ∧ _))

/-- Reports of segments 2 and 3, the second one twice. -/
theorem one_record_each_repeated :
    OneRecordEach (QoeStream.after (exportConfig twoTracks)
      [⟨[], [], [load 2 0 10, load 3 1 20]⟩, ⟨[], [], [load 3 1 30]⟩]).emitted :=
  one_record_each _ _ (by decide +kernel)

/-- Without a report of segment 3, the first report of segment 4 is recorded as segment 3 and
the second one as another record of segment 4. -/
theorem skipped_segment_recorded_twice :
    ¬OneRecordEach (QoeStream.after (exportConfig twoTracks)
      [⟨[], [], [load 2 0 10, load 4 0 20, load 4 0 30]⟩]).emitted := by
  decide +kernel

/-! ## Corrections -/

/-- Of the records of an index, the one with the largest timestamp carries the bitrate of the
latest report of that index. -/
def LastQualityRecorded (config : DashBackendConfig) (emitted : List (Segment × Record))
    (reports : List Segment) : Prop :=
  ∀ e ∈ emitted,
    (∀ e' ∈ emitted, e'.2.index = e.2.index → e'.2.timestamp ≤ e.2.timestamp) →
    (∃ r ∈ reports, r.index = e.2.index) ∧
      ∀ r ∈ reports, r.index = e.2.index →
        (∀ r' ∈ reports, r'.index = r.index → r'.timestamp ≤ r.timestamp) →
        getVideoBitRate config r.quality = some e.2.quality

/-- A handled report of a recorded segment is older than the recorded one or has its
quality. -/
def NoRevision (s : QoeStream) : Event → Prop
  | .call _ => True
  | .report segment =>
    s.halted = false → segment.loading = true → ∀ e ∈ s.emitted, e.1.index = segment.index →
      segment.timestamp < e.1.timestamp ∨ segment.quality = e.1.quality

instance (s : QoeStream) : (e : Event) → Decidable (NoRevision s e)
  | .call _ => isTrue trivial
  | .report _ => inferInstanceAs (Decidable (_ → _ → ∀ e ∈ s.emitted, _))

/-- The recorded qualities are those of the latest handled reports. -/
structure Latest (config : DashBackendConfig) (s : QoeStream) : Prop extends Counted s where
  mem : ∀ e ∈ s.emitted, e.1 ∈ s.processed
  quality : ∀ e ∈ s.emitted, getVideoBitRate config e.1.quality = some e.2.quality
  latest : ∀ e ∈ s.emitted, ∀ r ∈ s.processed, r.index = e.1.index →
    r.timestamp < e.1.timestamp ∨ r.quality = e.1.quality

theorem Latest.init : Latest config {} where
  toCounted := Counted.init
  mem := by simp
  quality := by simp
  latest := by simp

theorem Latest.step {s : QoeStream} {e : Event} (h : Latest config s) (hskip : NoSkip s e)
    (hrevision : NoRevision s e) : Latest config (e.step config s) := by
  cases e with
  | call metrics => exact ⟨h.toCounted.step hskip, h.mem, h.quality, h.latest⟩
  | report segment =>
    have hcounted : Counted (s.report config segment) := h.toCounted.step hskip
    show Latest config (s.report config segment)
    have hreported := reported config s segment
    generalize s.report config segment = s' at hcounted hreported ⊢
    cases hreported with
    | skipped _ => exact h
    | failed _ _ _ _ => exact ⟨hcounted, h.mem, h.quality, h.latest⟩
    | checked p _ hhalted hloading hindex hcheck =>
      refine ⟨hcounted, fun e he => List.mem_append_left _ (h.mem e he), h.quality, ?_⟩
      intro e he
      refine List.forall_mem_append.mpr ⟨h.latest e he, List.forall_mem_singleton.mpr ?_⟩
      exact fun heq => hrevision hhalted hloading e he heq.symm
    | recorded p record hhalted hloading hindex hadvance =>
      have hquality := (MetricsProcessor.advance_record hadvance).2.1
      refine ⟨hcounted, ?_, ?_, ?_⟩
      · exact List.forall_mem_append.mpr ⟨fun e he => List.mem_append_left _ (h.mem e he),
          List.forall_mem_singleton.mpr (List.mem_append_right _ (List.mem_singleton_self _))⟩
      · exact List.forall_mem_append.mpr ⟨h.quality, List.forall_mem_singleton.mpr hquality⟩
      · refine List.forall_mem_append.mpr ⟨fun e he => ?_, List.forall_mem_singleton.mpr ?_⟩
        · refine List.forall_mem_append.mpr ⟨h.latest e he, List.forall_mem_singleton.mpr ?_⟩
          exact fun heq => hrevision hhalted hloading e he heq.symm
        · refine List.forall_mem_append.mpr ⟨fun r hr heq => ?_,
            List.forall_mem_singleton.mpr fun _ => Or.inr rfl⟩
          -- the segment is past the counter, so this is its first handled report
          have hle := h.processed_le r hr
          dsimp only at heq
          omega

/-- A record of a segment is the only one of its index, and no other report of the segment is
later with another quality. -/
theorem Latest.lastQualityRecorded {s : QoeStream} (h : Latest config s) :
    LastQualityRecorded config s.emitted s.processed := by
  intro e he _
  have hindex : e.2.index = e.1.index := h.each.1 e he
  refine ⟨⟨e.1, h.mem e he, hindex.symm⟩, fun r hr heq hmax => ?_⟩
  have hsame : r.index = e.1.index := heq.trans hindex
  have hle : e.1.timestamp ≤ r.timestamp := hmax e.1 (h.mem e he) hsame.symm
  rcases h.latest e he r hr hsame with hlt | hquality
  · omega
  · rw [hquality]
    exact h.quality e he

/-! ## Which reports are handled -/

/-- The reports of segments being loaded among the steps. -/
def loadingEvents (es : List Event) : List Segment :=
  es.flatMap fun
    | .call _ => []
    | .report segment => [segment].filter Segment.loading

theorem loadingEvents_append (es fs : List Event) :
    loadingEvents (es ++ fs) = loadingEvents es ++ loadingEvents fs := List.flatMap_append ..

theorem loadingEvents_report {segment : Segment} (h : segment.loading = true) :
    loadingEvents [Event.report segment] = [segment] := by
  simp [loadingEvents, h]

theorem loadingEvents_other {segment : Segment} (h : segment.loading = false) :
    loadingEvents [Event.report segment] = [] := by
  simp [loadingEvents, h]

theorem mem_loadingEvents_report {r segment : Segment} :
    r ∈ loadingEvents [Event.report segment] ↔ r = segment ∧ segment.loading = true := by
  cases hloading : segment.loading with
  | true => simp [loadingEvents_report hloading]
  | false => simp [loadingEvents_other hloading]

theorem loadingEvents_events (ms : List Metrics) :
    loadingEvents (events ms) = loadingReports ms := by
  have hreports (segments : List Segment) :
      loadingEvents (segments.map Event.report) = segments.filter Segment.loading := by
    induction segments with
    | nil => rfl
    | cons segment segments ih =>
      rw [List.map_cons, List.filter_cons, ← ih]
      show [segment].filter Segment.loading ++ loadingEvents (segments.map Event.report) = _
      cases hloading : segment.loading <;> simp [hloading]
  rw [events, loadingReports, loadingEvents, List.flatMap_assoc]
  apply List.flatMap_congr
  intro m _
  exact hreports m.segments

/-- Until a call raises, every report is handled. -/
theorem processed_of_not_raised (es : List Event)
    (h : (run (Event.step config) {} es).raised = false) :
    (run (Event.step config) {} es).processed = loadingEvents es ∧
      (run (Event.step config) {} es).halted = false := by
  induction es using List.reverseRecOn with
  | nil => exact ⟨rfl, rfl⟩
  | append_singleton es e ih =>
    rw [run_concat] at h ⊢
    rw [loadingEvents_append]
    generalize run (Event.step config) {} es = s at h ih ⊢
    cases e with
    | call metrics =>
      obtain ⟨hprocessed, -⟩ := ih h
      exact ⟨hprocessed.trans (List.append_nil _).symm, rfl⟩
    | report segment =>
      have hreported := reported config s segment
      rw [Event.step] at h ⊢
      generalize s.report config segment = s' at h hreported ⊢
      cases hreported with
      | skipped hskipped =>
        obtain ⟨hprocessed, hhalted⟩ := ih h
        have hloading : segment.loading = false := by simpa [hhalted] using hskipped
        rw [loadingEvents_other hloading, List.append_nil]
        exact ⟨hprocessed, hhalted⟩
      | failed _ _ _ _ => cases h
      | checked _ _ hhalted hloading _ _ =>
        rw [loadingEvents_report hloading, ← (ih h).1]
        exact ⟨rfl, hhalted⟩
      | recorded _ _ hhalted hloading _ _ =>
        rw [loadingEvents_report hloading, ← (ih h).1]
        exact ⟨rfl, hhalted⟩

/-- **Corrections.** If no handled report skips a segment and none revises the quality of a
recorded one, the records carry the latest reported qualities. -/
theorem last_quality_recorded (config : DashBackendConfig) (ms : List Metrics)
    (hraised : (QoeStream.after config ms).raised = false)
    (h : EveryStep (Event.step config) (fun s e => NoSkip s e ∧ NoRevision s e) {} (events ms)) :
    LastQualityRecorded config (QoeStream.after config ms).emitted (loadingReports ms) := by
  rw [after_eq_run] at hraised ⊢
  have hlatest : Latest config (run (Event.step config) {} (events ms)) :=
    h.invariant Latest.init fun _ _ hs hstep => hs.step hstep.1 hstep.2
  rw [← loadingEvents_events, ← (processed_of_not_raised (events ms) hraised).1]
  exact hlatest.lastQualityRecorded

instance (config : DashBackendConfig) (emitted : List (Segment × Record))
    (reports : List Segment) : Decidable (LastQualityRecorded config emitted reports) :=
  inferInstanceAs (Decidable (∀ e ∈ emitted, _))

/-- Segment 2 is reported again with its quality, and by a late message with another one. -/
theorem last_quality_recorded_repeated :
    LastQualityRecorded (exportConfig twoTracks)
      (QoeStream.after (exportConfig twoTracks)
        [⟨[], [], [load 2 1 10, load 2 1 20]⟩, ⟨[], [], [load 2 0 5, load 3 0 30]⟩]).emitted
      (loadingReports
        [⟨[], [], [load 2 1 10, load 2 1 20]⟩, ⟨[], [], [load 2 0 5, load 3 0 30]⟩]) :=
  last_quality_recorded _ _ (by decide +kernel) (by decide +kernel)

/-- Segment 2 is aborted and loaded again in quality 1. The processor notices, but the consumer
keeps the record with the bitrate of quality 0. -/
theorem correction_not_recorded :
    (QoeStream.after (exportConfig twoTracks)
        [⟨[], [], [load 2 0 10]⟩, ⟨[], [], [load 2 1 20]⟩]).raised = false ∧
      ¬LastQualityRecorded (exportConfig twoTracks)
        (QoeStream.after (exportConfig twoTracks)
          [⟨[], [], [load 2 0 10]⟩, ⟨[], [], [load 2 1 20]⟩]).emitted
        (loadingReports [⟨[], [], [load 2 0 10]⟩, ⟨[], [], [load 2 1 20]⟩]) := by
  decide +kernel

end Exp
end LiveStream
