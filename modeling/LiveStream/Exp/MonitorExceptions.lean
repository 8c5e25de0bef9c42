import LiveStream.Exp.MonitorTheorems

/-!
# When the monitor raises

With a file of `export.py` and the qualities of its tracks, every lookup of the processor
succeeds (`Sound.exists_record`, `Sound.exists_correction`), so only the last recorded segment
can be missing. `Phase` follows a stream through its first report, which decides, and
`processes_every_report_iff` says when no call raises.
-/

namespace LiveStream
namespace Exp

open Lib
open Video (DashBackendConfig VideoInfo VmafJson exportConfig getField getVmaf subscript)

variable {config : DashBackendConfig}

/-! ## Lookups -/

/-- The number of a track of the video. -/
def ValidQuality (vmaf : VmafJson) (quality : ℤ) : Prop :=
  0 ≤ quality ∧ quality < vmaf.tracks.length

instance (vmaf : VmafJson) (quality : ℤ) : Decidable (ValidQuality vmaf quality) :=
  inferInstanceAs (Decidable (_ ∧ _))

variable {vmaf : VmafJson}

theorem exists_videoBitRate {quality : ℤ} (h : ValidQuality vmaf quality) :
    ∃ t ∈ vmaf.tracks, getVideoBitRate (exportConfig vmaf) quality = some t.1 := by
  have hlt : quality.toNat < vmaf.tracks.length := by
    have := h.1
    have := h.2
    omega
  obtain ⟨t, ht, hbyrate⟩ := Video.exists_byBitRate hlt
  refine ⟨t, ht, ?_⟩
  have hread := Video.getVideoBitRate_exportConfig vmaf quality.toNat
  rw [hbyrate, Option.map_some] at hread
  rw [getVideoBitRate, subscript, if_pos h.1]
  exact hread

/-- The recorded segments have valid qualities. -/
structure Sound (vmaf : VmafJson) (p : MetricsProcessor) : Prop where
  index : 1 ≤ p.index
  quality : ∀ t ∈ p.segments, ValidQuality vmaf t.quality

namespace Sound

variable {p : MetricsProcessor} {segment : Segment}

theorem exists_switch (h : Sound vmaf p) :
    ∃ switch, p.switch (exportConfig vmaf) = some switch := by
  unfold MetricsProcessor.switch
  split
  · rename_i hlen
    have hread (k : ℕ) (hk : 1 ≤ k ∧ k ≤ 2) :
        ∃ t ∈ p.segments, subscript p.segments (-k) = some t := by
      have hlt : ((p.segments.length : ℤ) + -k).toNat < p.segments.length := by omega
      refine ⟨p.segments[((p.segments.length : ℤ) + -k).toNat], List.getElem_mem hlt, ?_⟩
      rw [subscript, if_neg (by omega), if_pos (by omega), List.getElem?_eq_getElem hlt]
    obtain ⟨last, hlast, hlast'⟩ := hread 1 (by omega)
    obtain ⟨before, hbefore, hbefore'⟩ := hread 2 (by omega)
    obtain ⟨t, -, ht⟩ := exists_videoBitRate (h.quality last hlast)
    obtain ⟨t', -, ht'⟩ := exists_videoBitRate (h.quality before hbefore)
    refine ⟨|t.1 - t'.1|, ?_⟩
    rw [Nat.cast_one] at hlast'
    rw [Nat.cast_ofNat] at hbefore'
    simp only [hlast', hbefore', ht, ht', Option.bind_eq_bind, Option.bind_some]
    rfl
  · exact ⟨0, rfl⟩

/-- A report of a valid quality is recorded. -/
theorem exists_record (h : Sound vmaf p) (hquality : ValidQuality vmaf segment.quality) :
    ∃ p' record, p.advance (exportConfig vmaf) segment = (p', some record) := by
  have hopen : Sound vmaf (p.openRecord segment) := ⟨by
    have := h.index
    show 1 ≤ p.index + 1
    omega, h.quality⟩
  obtain ⟨t, ht, hrate⟩ := exists_videoBitRate hquality
  obtain ⟨switch, hswitch⟩ := hopen.exists_switch
  obtain ⟨a, ha⟩ := Video.exists_getField VideoInfo.vmaf ht (.inl hopen.index)
  have hprevious : 1 ≤ (p.openRecord segment).index - 1 := by
    have := h.index
    show 1 ≤ p.index + 1 - 1
    omega
  obtain ⟨size, hsize⟩ := Video.exists_getField VideoInfo.size ht (.inl hprevious)
  simp only [MetricsProcessor.advance, hrate, hswitch, getVmaf, ha, getChunkSize, hsize]
  exact ⟨_, _, rfl⟩

/-- Once a segment is recorded, a report of a valid quality can be checked against it. -/
theorem exists_correction (h : Sound vmaf p) (hquality : ValidQuality vmaf segment.quality)
    (hne : p.segments ≠ []) :
    ∃ p' correction, p.checkQuality (exportConfig vmaf) segment = (p', some correction) := by
  obtain ⟨t, ht, hrate⟩ := exists_videoBitRate hquality
  obtain ⟨a, ha⟩ := Video.exists_getField VideoInfo.vmaf ht (.inl h.index)
  simp only [MetricsProcessor.checkQuality, List.getLast?_eq_some_getLast hne, hrate, getVmaf, ha]
  split
  · exact ⟨_, _, rfl⟩
  · split
    · exact ⟨_, _, rfl⟩
    · exact ⟨_, _, rfl⟩

/-- An exception leaves the processor as it was, and only the check against a recorded segment
that does not exist raises one. -/
theorem eq_of_failed {p' : MetricsProcessor} (h : Sound vmaf p)
    (hquality : ValidQuality vmaf segment.quality)
    (hfail : p.index + 1 ≤ segment.index ∧ p.advance (exportConfig vmaf) segment = (p', none) ∨
      segment.index ≤ p.index ∧ p.checkQuality (exportConfig vmaf) segment = (p', none)) :
    p' = p ∧ p.segments = [] ∧ segment.index ≤ p.index := by
  rcases hfail with ⟨-, hadvance⟩ | ⟨hindex, hcheck⟩
  · obtain ⟨q, record, hrecord⟩ := h.exists_record hquality
    rw [hrecord] at hadvance
    cases hadvance
  · by_cases hempty : p.segments = []
    · simp only [MetricsProcessor.checkQuality, hempty, List.getLast?_nil] at hcheck
      exact ⟨(congrArg Prod.fst hcheck).symm, hempty, hindex⟩
    · obtain ⟨q, correction, hcorrection⟩ := h.exists_correction hquality hempty
      rw [hcorrection] at hcheck
      cases hcheck

theorem step {s : QoeStream} {e : Event} (h : Sound vmaf s.processor)
    (hquality : ∀ r ∈ loadingEvents [e], ValidQuality vmaf r.quality) :
    Sound vmaf (e.step (exportConfig vmaf) s).processor := by
  cases e with
  | call metrics => exact ⟨h.index, h.quality⟩
  | report segment =>
    have hvalid (hloading : segment.loading = true) : ValidQuality vmaf segment.quality :=
      hquality segment (mem_loadingEvents_report.mpr ⟨rfl, hloading⟩)
    show Sound vmaf (s.report (exportConfig vmaf) segment).processor
    have hreported := reported (exportConfig vmaf) s segment
    generalize s.report (exportConfig vmaf) segment = s' at hreported ⊢
    cases hreported with
    | skipped _ => exact h
    | failed p _ hloading hfail =>
      obtain ⟨rfl, -⟩ := h.eq_of_failed (hvalid hloading) hfail
      exact h
    | checked p _ _ hloading _ hcheck =>
      refine ⟨(MetricsProcessor.checkQuality_frame hcheck).1.ge.trans' h.index, ?_⟩
      show ∀ t ∈ p.segments, ValidQuality vmaf t.quality
      rcases MetricsProcessor.checkQuality_segments hcheck with hsame | ⟨last, hlast⟩
      · rw [hsame]
        exact h.quality
      · rw [hlast]
        exact List.forall_mem_append.mpr ⟨fun t ht => h.quality t (List.mem_of_mem_dropLast ht),
          List.forall_mem_singleton.mpr (hvalid hloading)⟩
    | recorded p _ _ hloading _ hadvance =>
      have hcounter := (MetricsProcessor.advance_frame hadvance).1
      have hindex := h.index
      refine ⟨?_, ?_⟩
      · show 1 ≤ p.index
        omega
      · show ∀ t ∈ p.segments, ValidQuality vmaf t.quality
        rw [(MetricsProcessor.advance_record hadvance).2.2.2]
        exact List.forall_mem_append.mpr
          ⟨h.quality, List.forall_mem_singleton.mpr (hvalid hloading)⟩

end Sound

/-! ## The first report -/

/-- What the first report of a segment being loaded decides. -/
inductive Phase : List Segment → QoeStream → Prop
  | fresh {s : QoeStream} (hraised : s.raised = false) (hhalted : s.halted = false)
      (hempty : s.processor.segments = []) (hindex : s.processor.index = 1) : Phase [] s
  | recording {first : Segment} {rest : List Segment} {s : QoeStream} (hfirst : 2 ≤ first.index)
      (hraised : s.raised = false) (hhalted : s.halted = false)
      (hne : s.processor.segments ≠ []) : Phase (first :: rest) s
  | raised {first : Segment} {rest : List Segment} {s : QoeStream} (hfirst : first.index < 2)
      (hraised : s.raised = true) : Phase (first :: rest) s

theorem raised_step {s : QoeStream} (h : s.raised = true) (e : Event) :
    (e.step config s).raised = true := by
  cases e with
  | call metrics => exact h
  | report segment =>
    show (s.report config segment).raised = true
    have hreported := reported config s segment
    generalize s.report config segment = s' at hreported ⊢
    cases hreported with
    | skipped _ => exact h
    | failed _ _ _ _ => rfl
    | checked _ _ _ _ _ _ => exact h
    | recorded _ _ _ _ _ _ => exact h

/-- Once a segment is recorded, no report raises. -/
theorem report_of_recorded {s : QoeStream} {segment : Segment} (hsound : Sound vmaf s.processor)
    (hquality : segment.loading = true → ValidQuality vmaf segment.quality)
    (hraised : s.raised = false) (hhalted : s.halted = false) (hne : s.processor.segments ≠ []) :
    (s.report (exportConfig vmaf) segment).raised = false ∧
      (s.report (exportConfig vmaf) segment).halted = false ∧
      (s.report (exportConfig vmaf) segment).processor.segments ≠ [] := by
  have hreported := reported (exportConfig vmaf) s segment
  generalize s.report (exportConfig vmaf) segment = s' at hreported ⊢
  cases hreported with
  | skipped _ => exact ⟨hraised, hhalted, hne⟩
  | failed _ _ hloading hfail =>
    exact absurd (hsound.eq_of_failed (hquality hloading) hfail).2.1 hne
  | checked p _ _ _ _ hcheck =>
    refine ⟨hraised, hhalted, ?_⟩
    show p.segments ≠ []
    rcases MetricsProcessor.checkQuality_segments hcheck with hsame | ⟨last, hlast⟩
    · rw [hsame]
      exact hne
    · rw [hlast]
      exact List.append_ne_nil_of_right_ne_nil _ (List.cons_ne_nil _ _)
  | recorded p _ _ _ _ hadvance =>
    refine ⟨hraised, hhalted, ?_⟩
    show p.segments ≠ []
    rw [(MetricsProcessor.advance_record hadvance).2.2.2]
    exact List.append_ne_nil_of_right_ne_nil _ (List.cons_ne_nil _ _)

/-- The first report of a segment being loaded is recorded or raises. -/
theorem report_first {s : QoeStream} {segment : Segment} (hsound : Sound vmaf s.processor)
    (hloading : segment.loading = true) (hquality : ValidQuality vmaf segment.quality)
    (h : Phase [] s) : Phase [segment] (s.report (exportConfig vmaf) segment) := by
  cases h with
  | fresh hraised hhalted hempty hindex =>
    have hreported := reported (exportConfig vmaf) s segment
    generalize s.report (exportConfig vmaf) segment = s' at hreported ⊢
    cases hreported with
    | skipped hskipped => simp [hhalted, hloading] at hskipped
    | failed _ _ _ hfail =>
      have hle := (hsound.eq_of_failed hquality hfail).2.2
      exact .raised (by omega) rfl
    | checked _ _ _ _ _ hcheck => simp [MetricsProcessor.checkQuality, hempty] at hcheck
    | recorded p _ _ _ hnew hadvance =>
      refine .recording (by omega) hraised hhalted ?_
      show p.segments ≠ []
      rw [(MetricsProcessor.advance_record hadvance).2.2.2]
      exact List.append_ne_nil_of_right_ne_nil _ (List.cons_ne_nil _ _)

theorem Phase.step {s : QoeStream} {reports : List Segment} {e : Event}
    (hsound : Sound vmaf s.processor)
    (hquality : ∀ r ∈ loadingEvents [e], ValidQuality vmaf r.quality) (h : Phase reports s) :
    Phase (reports ++ loadingEvents [e]) (e.step (exportConfig vmaf) s) := by
  cases e with
  | call metrics =>
    have hnone : loadingEvents [Event.call metrics] = [] := rfl
    rw [hnone, List.append_nil]
    cases h with
    | fresh hraised _ hempty hindex => exact .fresh hraised rfl hempty hindex
    | recording hfirst hraised _ hne => exact .recording hfirst hraised rfl hne
    | raised hfirst hraised => exact .raised hfirst hraised
  | report segment =>
    have hvalid (hloading : segment.loading = true) : ValidQuality vmaf segment.quality :=
      hquality segment (mem_loadingEvents_report.mpr ⟨rfl, hloading⟩)
    cases reports with
    | nil =>
      cases hloading : segment.loading with
      | false =>
        have hsame : s.report (exportConfig vmaf) segment = s := by
          simp [QoeStream.report, hloading]
        rw [loadingEvents_other hloading]
        show Phase [] (s.report (exportConfig vmaf) segment)
        rw [hsame]
        exact h
      | true =>
        rw [loadingEvents_report hloading]
        exact report_first hsound hloading (hvalid hloading) h
    | cons first rest =>
      cases h with
      | recording hfirst hraised hhalted hne =>
        obtain ⟨hraised', hhalted', hne'⟩ := report_of_recorded hsound hvalid hraised hhalted hne
        exact .recording hfirst hraised' hhalted' hne'
      | raised hfirst hraised => exact .raised hfirst (raised_step hraised _)

theorem phase_run (es : List Event)
    (hquality : ∀ r ∈ loadingEvents es, ValidQuality vmaf r.quality) :
    Sound vmaf (run (Event.step (exportConfig vmaf)) {} es).processor ∧
      Phase (loadingEvents es) (run (Event.step (exportConfig vmaf)) {} es) := by
  induction es using List.reverseRecOn with
  | nil => exact ⟨⟨le_refl _, by simp⟩, .fresh rfl rfl rfl rfl⟩
  | append_singleton es e ih =>
    rw [loadingEvents_append] at hquality ⊢
    obtain ⟨hbefore, hnow⟩ := List.forall_mem_append.mp hquality
    obtain ⟨hsound, hphase⟩ := ih hbefore
    rw [run_concat]
    exact ⟨hsound.step hnow, hphase.step hsound hnow⟩

/-- **Exceptions.** With the qualities of the video's tracks, no call raises and every report of
a segment being loaded is handled exactly if the first of them is not of the first segment. -/
theorem processes_every_report_iff (vmaf : VmafJson) (ms : List Metrics)
    (hquality : ∀ r ∈ loadingReports ms, ValidQuality vmaf r.quality) :
    ((QoeStream.after (exportConfig vmaf) ms).raised = false ∧
        (QoeStream.after (exportConfig vmaf) ms).processed = loadingReports ms) ↔
      ∀ r, (loadingReports ms).head? = some r → 2 ≤ r.index := by
  rw [← loadingEvents_events] at hquality ⊢
  rw [after_eq_run]
  have hphase := (phase_run (events ms) hquality).2
  generalize hreports : loadingEvents (events ms) = reports at hphase ⊢
  have hiff : (run (Event.step (exportConfig vmaf)) {} (events ms)).raised = false ↔
      ∀ r, reports.head? = some r → 2 ≤ r.index := by
    cases hphase with
    | fresh hraised _ _ _ => simp [hraised]
    | recording hfirst hraised _ _ => simp [hraised, hfirst]
    | raised hfirst hraised =>
      simp [hraised, hfirst]
  rw [← hiff]
  constructor
  · exact fun h => h.1
  · exact fun hraised =>
      ⟨hraised, (processed_of_not_raised (events ms) hraised).1.trans hreports⟩

/-- Segment 2 comes first, then a late report of segment 1. -/
theorem processes_every_report_late :
    (QoeStream.after (exportConfig twoTracks) [⟨[], [], [load 2 0 10, load 1 1 5]⟩]).raised = false
      ∧ (QoeStream.after (exportConfig twoTracks)
          [⟨[], [], [load 2 0 10, load 1 1 5]⟩]).processed =
        loadingReports [⟨[], [], [load 2 0 10, load 1 1 5]⟩] :=
  (processes_every_report_iff twoTracks [⟨[], [], [load 2 0 10, load 1 1 5]⟩]
    (by decide +kernel)).mpr (by decide +kernel)

/-- The report of segment 1 raises, and that of segment 2 in the same batch is lost. -/
theorem first_segment_raises :
    (QoeStream.after (exportConfig twoTracks) [⟨[], [], [load 1 0 5, load 2 0 10]⟩]).raised = true
      ∧ (QoeStream.after (exportConfig twoTracks)
          [⟨[], [], [load 1 0 5, load 2 0 10]⟩]).processed = [] := by
  decide +kernel

end Exp
end LiveStream
