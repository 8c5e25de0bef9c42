import LiveStream.Exp.MonitorExceptions
import LiveStream.Lib.Neighbours

/-!
# Conservation of stall time

The records' `rebuffer` times against the stall time between the first and the last sample of
the player's clock. A record adds up the differences between neighbouring samples inside its own
interval (`rebufferTime_getValues`), so a difference between the last sample of one interval and
the first one of the next is in no record. `stall_conserved_iff` says for which streams nothing
is lost or counted twice.
-/

namespace LiveStream
namespace Exp

open Lib
open Video (DashBackendConfig VmafJson exportConfig)

/-! ## Stall time of a list of samples -/

/-- Samples in order of time whose player time advances no faster than the clock. -/
structure Steady (samples : List Value) : Prop where
  increasing : samples.Pairwise fun a b => a.timestamp < b.timestamp
  slower : ∀ p ∈ neighbours samples, 0 ≤ playerDifference p.1 p.2

/-- Wall-clock minus player time, in seconds, between the first and the last sample up to
`now`. -/
def stallUpTo (samples : List Value) (now : ℤ) : ℚ :=
  let upTo := samples.filter fun v => v.timestamp ≤ now
  match upTo.head?, upTo.getLast? with
  | some first, some last => playerDifference first last / 1000
  | _, _ => 0

/-- The stall between two samples, in seconds. -/
def stall (p : Value × Value) : ℚ := playerDifference p.1 p.2 / 1000

theorem Steady.stall_nonneg {samples : List Value} (h : Steady samples) :
    ∀ p ∈ neighbours samples, 0 ≤ stall p :=
  fun p hp => div_nonneg (h.slower p hp) (by norm_num)

theorem Steady.of_append {samples more : List Value} (h : Steady (samples ++ more)) :
    Steady samples :=
  ⟨(List.pairwise_append.mp h.increasing).1, fun p hp => h.slower p (mem_neighbours_append hp)⟩

/-- The stalls between neighbours add up to the stall between the ends. -/
theorem sum_stall {l : List Value} {first last : Value} (hfirst : l.head? = some first)
    (hlast : l.getLast? = some last) :
    ((neighbours l).map stall).sum = playerDifference first last / 1000 := by
  have hsum := sum_neighbours (fun v : Value => ((v.timestamp : ℚ) - v.value) / 1000) hfirst hlast
  have hstall : stall = fun p : Value × Value =>
      ((p.2.timestamp : ℚ) - p.2.value) / 1000 - ((p.1.timestamp : ℚ) - p.1.value) / 1000 := by
    funext p
    unfold stall playerDifference
    ring
  rw [hstall, hsum]
  unfold playerDifference
  ring

theorem stallUpTo_eq {samples : List Value} (h : Steady samples) (now : ℤ) :
    stallUpTo samples now =
      (((neighbours samples).filter fun p => p.2.timestamp ≤ now).map stall).sum := by
  have hupTo : neighbours (samples.filter fun v => v.timestamp ≤ now) =
      (neighbours samples).filter fun p => p.2.timestamp ≤ now := by
    rw [neighbours_filter _ h.increasing]
    · apply List.filter_congr
      intro p hp
      have hlt : p.1.timestamp < p.2.timestamp := rel_of_mem_neighbours h.increasing hp
      rw [← Bool.decide_and, decide_eq_decide]
      omega
    · intro a b c _ hbc _ hc
      rw [decide_eq_true_eq] at hc ⊢
      omega
  rw [← hupTo, stallUpTo]
  generalize (samples.filter fun v => decide (v.timestamp ≤ now)) = upTo
  cases upTo with
  | nil => rfl
  | cons first rest =>
    obtain ⟨last, hlast⟩ : ∃ last, (first :: rest).getLast? = some last :=
      ⟨_, List.getLast?_eq_some_getLast (List.cons_ne_nil _ _)⟩
    rw [sum_stall rfl hlast]
    simp only [List.head?_cons, hlast]

/-! ## The rebuffer time of a record -/

/-- Without a negative difference the clamp of the loop does nothing. -/
theorem foldl_addDifference {l : List (Value × Value)} (hl : ∀ p ∈ l, 0 ≤ stall p) {rebuffer : ℚ}
    (h : 0 ≤ rebuffer) : l.foldl addDifference rebuffer = rebuffer + (l.map stall).sum := by
  induction l generalizing rebuffer with
  | nil => simp
  | cons p l ih =>
    have hp : 0 ≤ stall p := hl p (List.mem_cons_self ..)
    have hstep : addDifference rebuffer p = rebuffer + stall p :=
      if_neg (not_lt.mpr (add_nonneg h hp))
    rw [List.foldl_cons, hstep, ih (fun q hq => hl q (List.mem_cons_of_mem _ hq))
      (add_nonneg h hp), List.map_cons, List.sum_cons, add_assoc]

/-- The correction for the variance does nothing either. -/
theorem adjustVariance_sum (l : List Value) :
    adjustVariance l ((neighbours l).map stall).sum = ((neighbours l).map stall).sum := by
  unfold adjustVariance
  split
  · rename_i first last hfirst hlast
    rw [sum_stall hfirst hlast, sub_self, abs_zero, add_zero, ite_self]
  · rfl

theorem rebufferTime_eq {l : List Value} (hl : ∀ p ∈ neighbours l, 0 ≤ stall p) :
    rebufferTime l [] = ((neighbours l).map stall).sum := by
  unfold rebufferTime
  rw [dropLast_zip_tail, foldl_addDifference hl (le_refl 0), zero_add]
  simp only [adjustVariance_sum, ne_eq, not_true_eq_false, false_and, if_false]

/-- A record's rebuffer time is the stall between the neighbours inside its interval. -/
theorem rebufferTime_getValues {samples : List Value} (h : Steady samples) (last now : ℤ) :
    rebufferTime (getValues samples last now) [] =
      (((neighbours samples).filter fun p =>
        last < p.1.timestamp ∧ p.2.timestamp ≤ now).map stall).sum := by
  have hsorted : getValues samples last now =
      samples.filter fun v => last < v.timestamp ∧ v.timestamp ≤ now := by
    have hinside := h.increasing.filter fun v => decide (last < v.timestamp ∧ v.timestamp ≤ now)
    exact List.Pairwise.insertionSort_eq (hinside.imp fun hlt => hlt.le)
  have hneighbours : neighbours (getValues samples last now) =
      (neighbours samples).filter fun p => last < p.1.timestamp ∧ p.2.timestamp ≤ now := by
    rw [hsorted, neighbours_filter _ h.increasing]
    · apply List.filter_congr
      intro p hp
      have hlt : p.1.timestamp < p.2.timestamp := rel_of_mem_neighbours h.increasing hp
      rw [← Bool.decide_and, decide_eq_decide]
      omega
    · intro a b c hab hbc ha hc
      rw [decide_eq_true_eq] at ha hc ⊢
      omega
  rw [rebufferTime_eq, hneighbours]
  intro p hp
  rw [hneighbours] at hp
  exact h.stall_nonneg p (List.mem_filter.mp hp).1

/-! ## Conservation over a stream -/

/-- After every record, the rebuffer times so far are the stall time up to its segment. -/
def StallConserved (emitted : List (Segment × Record)) (samples : List Value) : Prop :=
  ∀ records ∈ emitted.inits, ∀ e ∈ records.getLast?,
    (records.map fun e => e.2.rebuffer).sum = stallUpTo samples e.1.timestamp

instance (emitted : List (Segment × Record)) (samples : List Value) :
    Decidable (StallConserved emitted samples) :=
  inferInstanceAs (Decidable (∀ records ∈ emitted.inits, ∀ e ∈ records.getLast?, _))

theorem stallConserved_congr {emitted : List (Segment × Record)} {samples samples' : List Value}
    (h : ∀ e ∈ emitted, stallUpTo samples e.1.timestamp = stallUpTo samples' e.1.timestamp) :
    StallConserved emitted samples ↔ StallConserved emitted samples' := by
  refine forall₄_congr fun records hrecords e he => ?_
  have hmem : e ∈ emitted :=
    ((List.mem_inits _ _).mp hrecords).subset (List.mem_of_getLast? he)
  rw [h e hmem]

theorem stallConserved_concat {emitted : List (Segment × Record)} {samples : List Value}
    {e : Segment × Record} :
    StallConserved (emitted ++ [e]) samples ↔ StallConserved emitted samples ∧
      (emitted.map fun e => e.2.rebuffer).sum + e.2.rebuffer =
        stallUpTo samples e.1.timestamp := by
  have hsum : ((emitted ++ [e]).map fun e => e.2.rebuffer).sum =
      (emitted.map fun e => e.2.rebuffer).sum + e.2.rebuffer := by
    simp
  constructor
  · intro h
    constructor
    · intro records hrecords
      exact h records ((List.mem_inits _ _).mpr
        (List.prefix_concat_iff.mpr (Or.inr ((List.mem_inits _ _).mp hrecords))))
    · rw [← hsum]
      exact h _ ((List.mem_inits _ _).mpr (List.prefix_refl _)) e List.getLast?_concat
  · rintro ⟨h, hlast⟩ records hrecords
    rcases List.prefix_concat_iff.mp ((List.mem_inits _ _).mp hrecords) with rfl | hprefix
    · intro e' he'
      obtain rfl : e = e' := Option.some.inj (List.getLast?_concat.symm.trans he')
      rw [hsum, hlast]
    · exact h records ((List.mem_inits _ _).mpr hprefix)

/-- The samples of a batch are later than every record: they come before the report that closes
their interval. -/
def Delivered (s : QoeStream) : Event → Prop
  | .call metrics => ∀ v ∈ metrics.playerTime, ∀ e ∈ s.emitted, e.1.timestamp < v.timestamp
  | .report _ => True

/-- When a report is recorded, a stall between two neighbouring samples is up to its timestamp
exactly if it was up to that of the last record or lies inside the interval that is closed. -/
def StallCovered (s : QoeStream) : Event → Prop
  | .call _ => True
  | .report segment =>
    s.halted = false → segment.loading = true → s.processor.index + 1 ≤ segment.index →
      ∀ p ∈ neighbours s.processor.playerTimes, playerDifference p.1 p.2 ≠ 0 →
        (s.emitted ≠ [] ∧ p.2.timestamp ≤ s.processor.lastTimestamp ∨
            s.processor.lastTimestamp < p.1.timestamp ∧ p.2.timestamp ≤ segment.timestamp ↔
          p.2.timestamp ≤ segment.timestamp)

/-- What a step may bring. -/
def Admissible (vmaf : VmafJson) (s : QoeStream) : Event → Prop
  | .call metrics =>
    metrics.bufferLevel = [] ∧ Steady (s.processor.playerTimes ++ metrics.playerTime) ∧
      ∀ v ∈ metrics.playerTime, ∀ e ∈ s.emitted, e.1.timestamp < v.timestamp
  | .report segment => segment.loading = true → ValidQuality vmaf segment.quality

/-- Every closed interval has its record. -/
structure Ledger (vmaf : VmafJson) (s : QoeStream) : Prop where
  sound : Sound vmaf s.processor
  closed : s.processor.timestamps = 0 :: s.emitted.map fun e => e.1.timestamp
  noBuffer : s.processor.bufferLevels = []
  steady : Steady s.processor.playerTimes

namespace Ledger

variable {vmaf : VmafJson} {s : QoeStream}

theorem lastTimestamp_eq (h : Ledger vmaf s) {e : Segment × Record}
    (he : s.emitted.getLast? = some e) : s.processor.lastTimestamp = e.1.timestamp := by
  obtain ⟨records, hrecords⟩ := List.getLast?_eq_some_iff.mp he
  rw [MetricsProcessor.lastTimestamp, h.closed, hrecords, List.map_append, List.map_singleton,
    ← List.cons_append, List.getLastD_concat]

/-- The rebuffer times so far are the stalls up to the last record. -/
theorem sum_emitted (h : Ledger vmaf s)
    (hconserved : StallConserved s.emitted s.processor.playerTimes) :
    (s.emitted.map fun e => e.2.rebuffer).sum =
      (((neighbours s.processor.playerTimes).filter fun p =>
        s.emitted ≠ [] ∧ p.2.timestamp ≤ s.processor.lastTimestamp).map stall).sum := by
  by_cases hempty : s.emitted = []
  · simp [hempty]
  · have hlast : s.emitted.getLast? = some (s.emitted.getLast hempty) :=
      List.getLast?_eq_some_getLast hempty
    rw [hconserved s.emitted ((List.mem_inits _ _).mpr (List.prefix_refl _)) _ hlast,
      stallUpTo_eq h.steady, h.lastTimestamp_eq hlast]
    simp only [ne_eq, hempty, not_false_eq_true, true_and]

/-- A new record keeps the balance exactly if it covers the stalls up to its segment. -/
theorem balance_iff (h : Ledger vmaf s)
    (hconserved : StallConserved s.emitted s.processor.playerTimes) (now : ℤ) :
    (s.emitted.map fun e => e.2.rebuffer).sum +
        rebufferTime (getValues s.processor.playerTimes s.processor.lastTimestamp now) [] =
      stallUpTo s.processor.playerTimes now ↔
    ∀ p ∈ neighbours s.processor.playerTimes, playerDifference p.1 p.2 ≠ 0 →
      (s.emitted ≠ [] ∧ p.2.timestamp ≤ s.processor.lastTimestamp ∨
          s.processor.lastTimestamp < p.1.timestamp ∧ p.2.timestamp ≤ now ↔
        p.2.timestamp ≤ now) := by
  have horder : ∀ p ∈ neighbours s.processor.playerTimes, p.1.timestamp < p.2.timestamp :=
    fun p hp => rel_of_mem_neighbours h.steady.increasing hp
  rw [h.sum_emitted hconserved, rebufferTime_getValues h.steady, stallUpTo_eq h.steady,
    sum_filter_or, sum_filter_eq_iff h.steady.stall_nonneg]
  · refine forall₂_congr fun p _ => ?_
    have hne : stall p ≠ 0 ↔ playerDifference p.1 p.2 ≠ 0 := by
      simp [stall]
    rw [hne]
  · -- a report that goes back in time covers less than before, any other one at most all
    by_cases hback : s.emitted ≠ [] ∧ now < s.processor.lastTimestamp
    · right
      intro p _ hle
      exact Or.inl ⟨hback.1, by omega⟩
    · left
      rintro p _ (⟨hne, hle⟩ | hinside)
      · have : s.processor.lastTimestamp ≤ now := by
          by_contra hlt
          exact hback ⟨hne, by omega⟩
        omega
      · exact hinside.2
  · intro p hp hbefore hinside
    have := horder p hp
    omega

theorem step {e : Event} (h : Ledger vmaf s) (hadmissible : Admissible vmaf s e) :
    Ledger vmaf (e.step (exportConfig vmaf) s) := by
  have hsound : Sound vmaf (e.step (exportConfig vmaf) s).processor := by
    apply h.sound.step
    intro r hr
    cases e with
    | call metrics => cases hr
    | report segment =>
      obtain ⟨rfl, hloading⟩ := mem_loadingEvents_report.mp hr
      exact hadmissible hloading
  cases e with
  | call metrics =>
    obtain ⟨hbuffer, hsteady, -⟩ := hadmissible
    refine ⟨hsound, h.closed, ?_, ?_⟩
    · show (s.processor.metrics ++ [metrics]).flatMap Metrics.bufferLevel = []
      rw [List.flatMap_append, List.flatMap_singleton, hbuffer, List.append_nil]
      exact h.noBuffer
    · show Steady ((s.processor.metrics ++ [metrics]).flatMap Metrics.playerTime)
      rw [List.flatMap_append, List.flatMap_singleton]
      exact hsteady
  | report segment =>
    have hmetrics := metrics_report (exportConfig vmaf) s segment
    have hbuffers : (s.report (exportConfig vmaf) segment).processor.bufferLevels = [] :=
      (congrArg (List.flatMap Metrics.bufferLevel) hmetrics).trans h.noBuffer
    have hsamples : (s.report (exportConfig vmaf) segment).processor.playerTimes =
        s.processor.playerTimes := congrArg (List.flatMap Metrics.playerTime) hmetrics
    refine ⟨hsound, ?_, hbuffers, hsamples ▸ h.steady⟩
    show (s.report (exportConfig vmaf) segment).processor.timestamps =
      0 :: (s.report (exportConfig vmaf) segment).emitted.map fun e => e.1.timestamp
    have hreported := reported (exportConfig vmaf) s segment
    generalize s.report (exportConfig vmaf) segment = s' at hreported ⊢
    cases hreported with
    | skipped _ => exact h.closed
    | failed p _ hloading hfail =>
      obtain ⟨rfl, -⟩ := h.sound.eq_of_failed (hadmissible hloading) hfail
      exact h.closed
    | checked p _ _ _ _ hcheck =>
      exact (MetricsProcessor.checkQuality_frame hcheck).2.2.trans h.closed
    | recorded p record _ _ _ hadvance =>
      show p.timestamps = 0 :: (s.emitted ++ [(segment, record)]).map _
      rw [(MetricsProcessor.advance_frame hadvance).2.2, h.closed, List.map_append]
      rfl

/-- A step keeps the stall time conserved exactly if it covers the stalls. -/
theorem conserved_step_iff {e : Event} (h : Ledger vmaf s) (hadmissible : Admissible vmaf s e) :
    StallConserved (e.step (exportConfig vmaf) s).emitted
        (e.step (exportConfig vmaf) s).processor.playerTimes ↔
      StallConserved s.emitted s.processor.playerTimes ∧ StallCovered s e := by
  cases e with
  | call metrics =>
    rw [StallCovered, and_true]
    apply stallConserved_congr
    intro e he
    -- the new samples are later than the record
    have hnone : (metrics.playerTime.filter fun v => v.timestamp ≤ e.1.timestamp) = [] := by
      rw [List.filter_eq_nil_iff]
      intro v hv
      have := hadmissible.2.2 v hv e he
      simpa using this
    have happend : (Event.step (exportConfig vmaf) s (.call metrics)).processor.playerTimes =
        s.processor.playerTimes ++ metrics.playerTime := by
      show (s.processor.metrics ++ [metrics]).flatMap Metrics.playerTime = _
      rw [List.flatMap_append, List.flatMap_singleton]
      rfl
    rw [happend, stallUpTo, stallUpTo, List.filter_append, hnone, List.append_nil]
  | report segment =>
    have hsamples : (s.report (exportConfig vmaf) segment).processor.playerTimes =
        s.processor.playerTimes :=
      congrArg (List.flatMap Metrics.playerTime) (metrics_report (exportConfig vmaf) s segment)
    show StallConserved (s.report (exportConfig vmaf) segment).emitted
      (s.report (exportConfig vmaf) segment).processor.playerTimes ↔ _
    rw [hsamples]
    have hreported := reported (exportConfig vmaf) s segment
    generalize s.report (exportConfig vmaf) segment = s' at hreported ⊢
    -- only a recorded report yields a record, and only there is a condition
    cases hreported with
    | skipped hskipped =>
      refine (and_iff_left ?_).symm
      intro hhalted hloading
      simp [hhalted, hloading] at hskipped
    | failed p _ hloading hfail =>
      have hold := (h.sound.eq_of_failed (hadmissible hloading) hfail).2.2
      refine (and_iff_left ?_).symm
      intro _ _ hnew
      omega
    | checked p _ _ _ hold _ =>
      refine (and_iff_left ?_).symm
      intro _ _ hnew
      omega
    | recorded p record hhalted hloading hnew hadvance =>
      have hrebuffer : record.rebuffer = rebufferTime
          (getValues s.processor.playerTimes s.processor.lastTimestamp segment.timestamp) [] := by
        rw [(MetricsProcessor.advance_record hadvance).2.2.1, h.noBuffer]
        rfl
      show StallConserved (s.emitted ++ [(segment, record)]) s.processor.playerTimes ↔ _
      rw [stallConserved_concat, hrebuffer]
      refine and_congr_right fun hconserved => ?_
      rw [h.balance_iff hconserved]
      exact ⟨fun hcovered _ _ _ => hcovered, fun hcovered => hcovered hhalted hloading hnew⟩

end Ledger

/-! ## Whole streams -/

theorem metrics_computeQoe (config : DashBackendConfig) (s : QoeStream) (metrics : Metrics) :
    (s.computeQoe config metrics).processor.metrics = s.processor.metrics ++ [metrics] :=
  run_frame (g := fun t : QoeStream => t.processor.metrics)
    (fun t segment => metrics_report config t segment) (s.call metrics) metrics.segments

theorem metrics_run (config : DashBackendConfig) (s : QoeStream) (ms : List Metrics) :
    (run (QoeStream.computeQoe config) s ms).processor.metrics = s.processor.metrics ++ ms := by
  induction ms generalizing s with
  | nil => exact (List.append_nil _).symm
  | cons m ms ih => rw [run_cons, ih, metrics_computeQoe, List.append_assoc, List.singleton_append]

theorem admissible_events {vmaf : VmafJson} {ms : List Metrics} {s : QoeStream}
    (hbuffer : ∀ m ∈ ms, m.bufferLevel = [])
    (hquality : ∀ r ∈ loadingReports ms, ValidQuality vmaf r.quality)
    (hsteady : Steady (s.processor.playerTimes ++ ms.flatMap Metrics.playerTime))
    (hdelivered : EveryStep (Event.step (exportConfig vmaf)) Delivered s (events ms)) :
    EveryStep (Event.step (exportConfig vmaf)) (Admissible vmaf) s (events ms) := by
  induction ms generalizing s with
  | nil => trivial
  | cons m ms ih =>
    have hevents : events (m :: ms) =
        Event.call m :: (m.segments.map Event.report ++ events ms) := rfl
    rw [hevents] at hdelivered ⊢
    rw [List.flatMap_cons, ← List.append_assoc] at hsteady
    obtain ⟨hcall, hdelivered⟩ := hdelivered
    obtain ⟨-, hrest⟩ := everyStep_append.mp hdelivered
    have hqualities := List.forall_mem_append.mp
      (show ∀ r ∈ m.segments.filter Segment.loading ++ loadingReports ms, _ from hquality)
    refine ⟨⟨hbuffer m (List.mem_cons_self ..), hsteady.of_append, hcall⟩,
      everyStep_append.mpr ⟨everyStep_of_forall ?_, ?_⟩⟩
    · intro e he t
      obtain ⟨segment, hsegment, rfl⟩ := List.mem_map.mp he
      exact fun hloading => hqualities.1 segment (List.mem_filter.mpr ⟨hsegment, hloading⟩)
    · apply ih (fun m' hm' => hbuffer m' (List.mem_cons_of_mem _ hm')) hqualities.2 _ hrest
      rw [run_reports]
      have hsamples : (s.computeQoe (exportConfig vmaf) m).processor.playerTimes =
          s.processor.playerTimes ++ m.playerTime := by
        rw [MetricsProcessor.playerTimes, metrics_computeQoe, List.flatMap_append,
          List.flatMap_singleton]
        rfl
      show Steady ((s.computeQoe (exportConfig vmaf) m).processor.playerTimes ++ _)
      rw [hsamples]
      exact hsteady

/-- **Conservation of stall time.** For samples in order of time whose player time is no faster
than the clock, without buffer levels and each delivered before its interval is closed, and for
reports of the video's qualities, the rebuffer times add up to the stall time after every record
exactly if every recorded report covers the stalls. -/
theorem stall_conserved_iff (vmaf : VmafJson) (ms : List Metrics)
    (hsteady : Steady (ms.flatMap Metrics.playerTime)) (hbuffer : ∀ m ∈ ms, m.bufferLevel = [])
    (hdelivered : EveryStep (Event.step (exportConfig vmaf)) Delivered {} (events ms))
    (hquality : ∀ r ∈ loadingReports ms, ValidQuality vmaf r.quality) :
    StallConserved (QoeStream.after (exportConfig vmaf) ms).emitted
        (ms.flatMap Metrics.playerTime) ↔
      EveryStep (Event.step (exportConfig vmaf)) StallCovered {} (events ms) := by
  have hadmissible : EveryStep (Event.step (exportConfig vmaf)) (Admissible vmaf) {} (events ms) :=
    admissible_events hbuffer hquality hsteady hdelivered
  have hsamples : (QoeStream.after (exportConfig vmaf) ms).processor.playerTimes =
      ms.flatMap Metrics.playerTime :=
    congrArg (List.flatMap Metrics.playerTime) (metrics_run (exportConfig vmaf) {} ms)
  have hinit : Ledger vmaf {} :=
    { sound := ⟨le_refl _, fun t ht => absurd ht List.not_mem_nil⟩
      closed := rfl
      noBuffer := rfl
      steady := ⟨List.Pairwise.nil, fun p hp => absurd hp List.not_mem_nil⟩ }
  have hempty : StallConserved [] [] := by decide
  rw [← hsamples, after_eq_run]
  have hledger := run_iff_everyStep
    (P := fun s : QoeStream => StallConserved s.emitted s.processor.playerTimes) hadmissible hinit
    (fun _ _ hs hstep => hs.step hstep) fun _ _ hs hstep => hs.conserved_step_iff hstep
  rw [hledger]
  exact and_iff_right hempty

instance (s : QoeStream) : (e : Event) → Decidable (Delivered s e)
  | .call metrics => inferInstanceAs (Decidable (∀ v ∈ metrics.playerTime, ∀ e ∈ s.emitted, _))
  | .report _ => isTrue trivial

instance (s : QoeStream) : (e : Event) → Decidable (StallCovered s e)
  | .call _ => isTrue trivial
  | .report _ => inferInstanceAs
    (Decidable (_ → _ → _ → ∀ p ∈ neighbours s.processor.playerTimes, _ → (_ ↔ _)))

/-- The player stalls inside the intervals of segments 2 and 3 only. -/
def stallsInside : List Metrics :=
  [⟨[⟨0, 10⟩, ⟨5, 20⟩], [], [load 2 0 25]⟩, ⟨[⟨15, 30⟩, ⟨20, 45⟩], [], [load 3 0 50]⟩]

theorem stall_conserved_inside :
    StallConserved (QoeStream.after (exportConfig twoTracks) stallsInside).emitted
      (stallsInside.flatMap Metrics.playerTime) :=
  (stall_conserved_iff twoTracks stallsInside ⟨by decide +kernel, by decide +kernel⟩ (by decide)
    (by decide +kernel) (by decide +kernel)).mpr (by decide +kernel)

/-- The player stalls for 20 ms while segment 2 starts to load. -/
def stallsAcross : List Metrics :=
  [⟨[⟨0, 10⟩, ⟨10, 20⟩], [], [load 2 0 25]⟩, ⟨[⟨10, 40⟩, ⟨20, 50⟩], [], [load 3 0 55]⟩]

/-- The stall is in neither record. -/
theorem stall_lost_between_records :
    Steady (stallsAcross.flatMap Metrics.playerTime) ∧
      EveryStep (Event.step (exportConfig twoTracks)) Delivered {} (events stallsAcross) ∧
      (QoeStream.after (exportConfig twoTracks) stallsAcross).emitted.map
        (fun e => e.2.rebuffer) = [0, 0] ∧
      stallUpTo (stallsAcross.flatMap Metrics.playerTime) 55 = 20 / 1000 ∧
      ¬StallConserved (QoeStream.after (exportConfig twoTracks) stallsAcross).emitted
        (stallsAcross.flatMap Metrics.playerTime) :=
  ⟨⟨by decide +kernel, by decide +kernel⟩, by decide +kernel, by decide +kernel, by decide +kernel,
    by decide +kernel⟩

end Exp
end LiveStream
