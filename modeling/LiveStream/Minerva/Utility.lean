import LiveStream.Lib.Playout
import LiveStream.Lib.Run
import LiveStream.Minerva.MinervaAbr
import LiveStream.Minerva.PlannerTheorems

/-!
# Minerva's utility

`computeUtility` looks at the last segment that was loading, the one before and the ones after.

* `utility_reads_iff`, when everything it reads exists: not for the last two segments of a video;
* `utility_weighted_iff`, the weight of the past is an integer quotient, and 0;
* `rebuffer_eq_stallTime_iff`, the planner is given milliseconds as seconds and kbps as Mbps, and
  so its stall time is right only where there is nothing to wait for.
-/

namespace LiveStream
namespace Minerva

open Lib MinervaConstants
open AbrSchema (Metrics Segment Value)
open Abr (Tables Ladder)

/-! ## Reports -/

/-- The front-end has reported that this segment is loading. -/
def Reported (es : List System.Event) (segment : Segment) : Prop :=
  ∃ metrics, System.Event.registerMetrics metrics ∈ es ∧ segment ∈ metrics.segments ∧
    segment.state = .loading

/-- What the object knows of the reports. -/
structure Reports (es : List System.Event) (s : MinervaAbr) : Prop where
  entries : ∀ i g, s.lastSegment i = some g → g.index = i ∧ Reported es g
  last : (s.lastIndex = -1 ∧ s.lastQuality = some (-1)) ∨
    (s.lastSegment s.lastIndex).isSome = true ∧
      ∃ g, Reported es g ∧ g.index = s.lastIndex ∧ s.lastQuality = g.quality

namespace Reports

variable {es : List System.Event} {s t : MinervaAbr}

theorem new (now : ℚ) : Reports es (MinervaAbr.new now) where
  entries := fun _ _ h => nomatch h
  last := Or.inl ⟨rfl, rfl⟩

/-- Only three members matter. -/
theorem congr (h : Reports es s) (hsegment : t.lastSegment = s.lastSegment)
    (hindex : t.lastIndex = s.lastIndex) (hquality : t.lastQuality = s.lastQuality) :
    Reports es t := by
  refine ⟨?_, ?_⟩
  · rw [hsegment]
    exact h.entries
  · rw [hsegment, hindex, hquality]
    exact h.last

theorem registerLoading (h : Reports es s) {g : Segment} (hg : Reported es g) :
    Reports es (s.registerLoading g) := by
  have hentries : ∀ i g', Function.update s.lastSegment g.index (some g) i = some g' →
      g'.index = i ∧ Reported es g' := by
    intro i g' hi
    by_cases heq : i = g.index
    · subst heq
      rw [Function.update_self, Option.some.injEq] at hi
      subst hi
      exact ⟨rfl, hg⟩
    · rw [Function.update_of_ne heq] at hi
      exact h.entries i g' hi
  unfold MinervaAbr.registerLoading
  dsimp only
  split
  · refine ⟨hentries, Or.inr ⟨?_, g, hg, rfl, rfl⟩⟩
    simp
  · refine ⟨hentries, ?_⟩
    rcases h.last with hnone | ⟨hsome, g', hg', hindex, hquality⟩
    · exact Or.inl hnone
    · refine Or.inr ⟨?_, g', hg', hindex, hquality⟩
      by_cases heq : s.lastIndex = g.index
      · simp [heq]
      · dsimp only
        rw [Function.update_of_ne heq]
        exact hsome

theorem registerMetrics (h : Reports es s) {m : Metrics}
    (hm : System.Event.registerMetrics m ∈ es) : Reports es (s.registerMetrics m) := by
  have hbuffers : Reports es (run MinervaAbr.registerBuffer s m.bufferLevel) := by
    refine run_invariant h fun t ht b _ => ?_
    unfold MinervaAbr.registerBuffer
    split
    · exact ht.congr rfl rfl rfl
    · exact ht
  have hsegments : Reports es (run MinervaAbr.registerSegment
      (run MinervaAbr.registerBuffer s m.bufferLevel) m.segments) := by
    refine run_invariant hbuffers fun t ht g hg => ?_
    unfold MinervaAbr.registerSegment
    dsimp only
    split
    · next hloading =>
      have htime : Reports es { t with lastTimestamp := max t.lastTimestamp g.timestamp } :=
        ht.congr rfl rfl rfl
      exact htime.registerLoading ⟨m, hm, hg, hloading⟩
    · exact ht.congr rfl rfl rfl
  exact hsegments

theorem step (c : Settings) {sys : System} (h : Reports es sys.abr) {e : System.Event}
    (he : e ∈ es) : Reports es (sys.step c e).abr := by
  cases e with
  | registerMetrics m => exact h.registerMetrics he
  | addAckedBytes bytes => exact h
  | decide call =>
    -- the clock does not touch the reports
    have hframe : ∀ sys' actions, sys.decide c call = (sys', actions) → Reports es sys'.abr := by
      intro sys' actions hdecide
      unfold System.decide System.finish System.halfway at hdecide
      split at hdecide
      · rw [Prod.mk.injEq] at hdecide
        rw [← hdecide.1]
        exact h
      · rw [Prod.mk.injEq] at hdecide
        rw [← hdecide.1]
        exact h.congr rfl rfl rfl
      · dsimp only at hdecide
        rw [Prod.mk.injEq] at hdecide
        rw [← hdecide.1]
        split <;> split <;> exact h.congr rfl rfl rfl
    exact hframe _ _ rfl

theorem run (c : Settings) (now : ℚ) (es : List System.Event) :
    Reports es (Lib.run (System.step c) (System.new now) es).abr :=
  run_invariant (P := fun sys : System => Reports es sys.abr) (new now) fun _ h _ he => h.step c he

end Reports

/-! ## Reads -/

section Reads

variable {v : Ladder}

theorem getQoe_isSome_iff {index quality lastQuality rebuffer : ℤ} (h1 : 1 ≤ index) :
    (getQoe v.toTables index quality lastQuality rebuffer).isSome ↔
      v.IsTrack quality ∧ index < v.length ∧ (lastQuality = -1 ∨ v.IsTrack lastQuality) := by
  constructor
  · intro h
    obtain ⟨qoe, hqoe⟩ := Option.isSome_iff_exists.mp h
    simp only [getQoe, Option.bind_eq_bind, Option.bind_eq_some_iff] at hqoe
    obtain ⟨info, hinfo, lastVmaf, hlast, -⟩ := hqoe
    obtain ⟨hq, -, hL⟩ := Ladder.isTrack_of_infoAt hinfo
    refine ⟨hq, hL, ?_⟩
    by_cases hne : lastQuality = -1
    · exact Or.inl hne
    · rw [readLastVmaf, if_neg hne, Option.map_eq_some_iff] at hlast
      obtain ⟨last, hread, -⟩ := hlast
      exact Or.inr (Ladder.isTrack_of_infoAt hread).1
  · rintro ⟨hq, hL, hlast⟩
    have hvmaf : ∃ x, readLastVmaf v.toTables index lastQuality = some x := by
      unfold readLastVmaf
      split
      · exact ⟨none, rfl⟩
      · next hne =>
        have htrack := hlast.resolve_left hne
        rw [Ladder.infoAt_eq htrack (by omega) (by omega)]
        exact ⟨_, rfl⟩
    obtain ⟨x, hx⟩ := hvmaf
    rw [getQoe, Ladder.infoAt_eq hq (by omega) hL, hx]
    rfl

/-- The first quality of a sequence is a track, and so is 0. -/
theorem isTrack_bestRate {index lastQuality : ℤ} {buffer downloadRate : ℚ} {c : Choice}
    (h : getBestRate v.toTables index lastQuality buffer downloadRate = some c) :
    v.IsTrack c.bestRate := by
  have hpos := List.length_pos_iff.mpr v.nonempty
  have hsim := simulate_of_getBestRate h
  by_cases hreward : ∃ combo ∈ Sequences v.toTables,
      0 < (simulated v.toTables index lastQuality buffer downloadRate combo).reward
  · obtain ⟨combo, hcombo, -, -, -, hbest⟩ := getBestRate_of_pos hsim hreward
    rw [h, Option.some.injEq] at hbest
    rw [hbest]
    cases combo with
    | nil => exact absurd hcombo.1 (by decide)
    | cons q combo => exact hcombo.2 q (List.mem_cons_self ..)
  · have hbest := getBestRate_of_nonpos hsim fun combo hcombo =>
      not_lt.mp fun hlt => hreward ⟨combo, hcombo, hlt⟩
    rw [h, Option.some.injEq] at hbest
    rw [hbest]
    exact ⟨le_rfl, Int.natCast_pos.mpr hpos⟩

/-- Everything `computeUtility` reads exists. -/
structure ReadsInBounds (v : Ladder) (s : MinervaAbr) : Prop where
  hasNext : s.lastIndex + 1 < v.length
  lastReport : ∃ g q, s.lastSegment s.lastIndex = some g ∧ g.quality = some q ∧ v.IsTrack q
  prevReport : ∃ q, s.prevSegmentQuality = some q ∧ (q = -1 ∨ v.IsTrack q)
  lastQuality : ∃ q, s.lastQuality = some q ∧ v.IsTrack q
  fewTracks : (v.length : ℤ) ≤ s.lastIndex + 6 → v.segments.length ≤ v.length

theorem terms_isSome_iff {s : MinervaAbr} (h2 : 2 ≤ s.lastIndex) :
    (s.terms v.toTables).isSome ↔ ReadsInBounds v s := by
  have hwindow : s.lastIndex + 1 + (horizon : ℕ) = s.lastIndex + 6 := by
    unfold horizon
    push_cast
    ring
  constructor
  · intro h
    obtain ⟨t, ht⟩ := Option.isSome_iff_exists.mp h
    simp only [MinervaAbr.terms, MinervaAbr.bestRate, Option.bind_eq_bind,
      Option.bind_eq_some_iff] at ht
    obtain ⟨g, hg, q, hq, prev, hprev, past, hpast, best, ⟨lastQuality, hlast, hbest⟩, current,
      hcurrent, -⟩ := ht
    obtain ⟨hqtrack, -, hprevtrack⟩ :=
      (getQoe_isSome_iff (by omega)).mp (Option.isSome_iff_exists.mpr ⟨past, hpast⟩)
    obtain ⟨-, hnext, -⟩ :=
      (getQoe_isSome_iff (by omega)).mp (Option.isSome_iff_exists.mpr ⟨current, hcurrent⟩)
    obtain ⟨hlasttrack, hbounds⟩ := (getBestRate_isSome_iff (by omega) hnext).mp
      (Option.isSome_iff_exists.mpr ⟨best, hbest⟩)
    exact ⟨hnext, ⟨g, q, hg, hq, hqtrack⟩, ⟨prev, hprev, hprevtrack⟩,
      ⟨lastQuality, hlast, hlasttrack⟩, hwindow ▸ hbounds⟩
  · rintro ⟨hnext, ⟨g, q, hg, hq, hqtrack⟩, ⟨prev, hprev, hprevtrack⟩,
      ⟨lastQuality, hlast, hlasttrack⟩, hbounds⟩
    obtain ⟨past, hpast⟩ : ∃ x, getQoe v.toTables s.lastIndex q prev 0 = some x :=
      Option.isSome_iff_exists.mp
        ((getQoe_isSome_iff (by omega)).mpr ⟨hqtrack, by omega, hprevtrack⟩)
    obtain ⟨best, hbest⟩ : ∃ x, getBestRate v.toTables (s.lastIndex + 1) lastQuality
        s.lastBuffer.value (truncate s.movingAverageRate) = some x :=
      Option.isSome_iff_exists.mp ((getBestRate_isSome_iff (by omega) hnext).mpr
        ⟨hlasttrack, fun hle => hbounds (hwindow ▸ hle)⟩)
    obtain ⟨current, hcurrent⟩ : ∃ x, getQoe v.toTables (s.lastIndex + 1) best.bestRate q
        (Cc.toInt best.rebuffer) = some x :=
      Option.isSome_iff_exists.mp
        ((getQoe_isSome_iff (by omega)).mpr ⟨isTrack_bestRate hbest, hnext, Or.inr hqtrack⟩)
    simp [MinervaAbr.terms, MinervaAbr.bestRate, hg, hq, hprev, hpast, hlast, hbest, hcurrent]

/-- With tracks in all reports, only the end of the video and the number of tracks matter. -/
theorem readsInBounds_of_reports {es : List System.Event} {s : MinervaAbr} (h : Reports es s)
    (htracks : ∀ g, Reported es g → ∃ q, g.quality = some q ∧ v.IsTrack q) (h2 : 2 ≤ s.lastIndex) :
    ReadsInBounds v s ↔ s.lastIndex + 1 < v.length ∧
      ((v.length : ℤ) ≤ s.lastIndex + 6 → v.segments.length ≤ v.length) := by
  obtain ⟨hsome, g', hg', -, hquality⟩ := h.last.resolve_left fun hnone => by omega
  obtain ⟨g, hg⟩ := Option.isSome_iff_exists.mp hsome
  obtain ⟨q, hq, htrack⟩ := htracks g (h.entries _ g hg).2
  obtain ⟨q', hq', htrack'⟩ := htracks g' hg'
  have hprev : ∃ q, s.prevSegmentQuality = some q ∧ (q = -1 ∨ v.IsTrack q) := by
    unfold MinervaAbr.prevSegmentQuality
    cases hread : s.lastSegment (s.lastIndex - 1) with
    | none => exact ⟨-1, rfl, Or.inl rfl⟩
    | some prev =>
      obtain ⟨p, hp, htrackp⟩ := htracks prev (h.entries _ prev hread).2
      exact ⟨p, hp, Or.inr htrackp⟩
  constructor
  · intro hreads
    exact ⟨hreads.hasNext, hreads.fewTracks⟩
  · rintro ⟨hnext, hfew⟩
    exact ⟨hnext, ⟨g, q, hg, hq, htrack⟩, hprev, ⟨q', hquality.trans hq', htrack'⟩, hfew⟩

/-- **Reads.** In every state a run reaches, `computeUtility` reads only what exists exactly if it
has too few segments to look at, or `ReadsInBounds`; the last segment it looks at was reported.
With tracks in all reports that leaves out the last two segments. -/
theorem utility_reads_iff (v : Ladder) (c : Settings) (now : ℚ) (es : List System.Event)
    (s : MinervaAbr) (hs : s = (Lib.run (System.step c) (System.new now) es).abr) :
    ((s.lastIndex ≤ 1 ∨ (s.terms v.toTables).isSome = true) ↔
      s.lastIndex ≤ 1 ∨ ReadsInBounds v s) ∧
    (2 ≤ s.lastIndex → ∃ g, s.lastSegment s.lastIndex = some g ∧ Reported es g) ∧
    ((∀ g, Reported es g → ∃ q, g.quality = some q ∧ v.IsTrack q) → 2 ≤ s.lastIndex →
      ((s.terms v.toTables).isSome = true ↔ s.lastIndex + 1 < v.length ∧
        ((v.length : ℤ) ≤ s.lastIndex + 6 → v.segments.length ≤ v.length))) := by
  have hreports : Reports es s := hs ▸ Reports.run c now es
  refine ⟨?_, ?_, ?_⟩
  · by_cases h2 : 2 ≤ s.lastIndex
    · rw [terms_isSome_iff h2]
    · have hle : s.lastIndex ≤ 1 := by omega
      exact iff_of_true (Or.inl hle) (Or.inl hle)
  · intro h2
    obtain ⟨hsome, -⟩ := hreports.last.resolve_left fun hnone => by omega
    obtain ⟨g, hg⟩ := Option.isSome_iff_exists.mp hsome
    exact ⟨g, hg, (hreports.entries _ g hg).2⟩
  · intro htracks h2
    rw [terms_isSome_iff h2, readsInBounds_of_reports hreports htracks h2]

end Reads

/-! ## Weights -/

theorem phi1_eq_zero {index : ℤ} (h : 2 ≤ index) : MinervaAbr.phi1 index = 0 := by
  have hquot : Int.tdiv 1 (index + 1) = 0 := Int.tdiv_eq_zero_of_lt (by norm_num) (by omega)
  rw [MinervaAbr.phi1, hquot, Int.cast_zero]

theorem computeUtility_eq {c : Settings} (hoff : c.shouldNormalize = false) {s : MinervaAbr}
    (h2 : 2 ≤ s.lastIndex) {t : MinervaAbr.Terms} (ht : s.terms c.tables = some t) :
    s.computeUtility c = some ((t.currentQoe + t.vh) / 2) := by
  rw [MinervaAbr.computeUtility, if_neg (by omega), ht, Option.bind_eq_bind, Option.bind_some,
    hoff, if_neg Bool.false_ne_true, phi1_eq_zero h2, MinervaAbr.weightedUtility, MinervaAbr.phi2]
  congr 1
  ring

/-- The weighted average with a positive weight of the past is the plain one exactly if the past
was as good as that. -/
theorem weightedUtility_eq_iff {phi1 : ℚ} (hphi : 0 < phi1) (t : MinervaAbr.Terms) :
    (t.currentQoe + t.vh) / 2 = MinervaAbr.weightedUtility phi1 t ↔
      2 * t.pastQoe = t.currentQoe + t.vh := by
  have hsum : 1 + phi1 + MinervaAbr.phi2 ≠ 0 := by
    unfold MinervaAbr.phi2
    positivity
  rw [MinervaAbr.weightedUtility, div_eq_div_iff two_ne_zero hsum, MinervaAbr.phi2]
  constructor
  · intro h
    have hprod : phi1 * (2 * t.pastQoe) = phi1 * (t.currentQoe + t.vh) := by linarith
    exact mul_left_cancel₀ hphi.ne' hprod
  · intro h
    linear_combination -phi1 * h

/-- **Weights.** The utility is the average with the weight `1 / (last_index + 1)` for the past
only if the past was as good as what comes; the past itself makes no difference. -/
theorem utility_weighted_iff {c : Settings} (hoff : c.shouldNormalize = false) {s : MinervaAbr}
    (h2 : 2 ≤ s.lastIndex) {t : MinervaAbr.Terms} (ht : s.terms c.tables = some t) :
    ∃ u, s.computeUtility c = some u ∧
      (u = MinervaAbr.weightedUtility (1 / (s.lastIndex + 1)) t ↔
        2 * t.pastQoe = t.currentQoe + t.vh) ∧
      ∀ (s' : MinervaAbr) (t' : MinervaAbr.Terms), s'.lastIndex = s.lastIndex →
        s'.terms c.tables = some t' → t'.currentQoe = t.currentQoe → t'.vh = t.vh →
          s'.computeUtility c = some u := by
  refine ⟨_, computeUtility_eq hoff h2 ht, ?_, ?_⟩
  · have hpos : (0 : ℚ) < s.lastIndex + 1 := by exact_mod_cast (by omega : 0 < s.lastIndex + 1)
    exact weightedUtility_eq_iff (by positivity) t
  · intro s' t' hindex ht' hcurrent hvh
    rw [computeUtility_eq hoff (hindex ▸ h2) ht', hcurrent, hvh]

/-! ## Units -/

/-- Download times and durations of segments at a rate in kbps, in seconds. -/
def secondsAt (rate : ℚ) (chunks : List Chunk) : List (ℚ × ℚ) :=
  chunks.map fun chunk => (8 * chunk.size / (1000 * rate), chunk.duration)

theorem advance_rebuffer {downloadRate : ℚ} (hrate : downloadRate ≠ 0) {s : Simulation}
    {buffer rebuffer : ℚ} (hbuffer : s.buffer = some buffer)
    (hrebuffer : s.rebuffer = some rebuffer)
    (chunk : Chunk) :
    ∃ buffer' wait, (s.advance downloadRate chunk).buffer = some buffer' ∧
      (s.advance downloadRate chunk).rebuffer = some (rebuffer + wait) ∧
      ∀ chunks, stallTime buffer ((8 * chunk.size / 1000 / 1000 / downloadRate, chunk.duration) ::
        chunks) = wait + stallTime buffer' chunks := by
  set time := 8 * (chunk.size : ℚ) / 1000 / 1000 / downloadRate
  have htime : Simulation.downloadTime chunk.size downloadRate = .finite time :=
    Double.div_of_ne_zero _ hrate
  simp only [Simulation.advance, Simulation.download, htime, hbuffer, stallTime]
  by_cases hstall : buffer < time
  · simp only [if_pos hstall, hrebuffer, Option.map_some]
    exact ⟨_, _, rfl, rfl, fun chunks => by rw [zero_add]⟩
  · simp only [if_neg hstall, hrebuffer, Option.map_some]
    exact ⟨_, 0, rfl, by rw [add_zero], fun chunks => by rw [zero_add]⟩

/-- The stall time of the simulation, with the buffer in seconds and the rate in Mbps. -/
theorem play_rebuffer {downloadRate : ℚ} (hrate : downloadRate ≠ 0) (buffer : ℚ)
    (chunks : List Chunk) :
    (play downloadRate buffer chunks).rebuffer = some (stallTime buffer
      (chunks.map fun chunk => (8 * chunk.size / 1000 / 1000 / downloadRate, chunk.duration))) := by
  have hloop : ∀ (chunks : List Chunk) (s : Simulation) (buffer rebuffer : ℚ),
      s.buffer = some buffer → s.rebuffer = some rebuffer →
      (chunks.foldl (Simulation.advance downloadRate) s).rebuffer =
        some (rebuffer + stallTime buffer (chunks.map fun chunk =>
          (8 * chunk.size / 1000 / 1000 / downloadRate, chunk.duration))) := by
    intro chunks
    induction chunks with
    | nil =>
      intro s buffer rebuffer _ hrebuffer
      rw [List.foldl_nil, hrebuffer, List.map_nil, stallTime, add_zero]
    | cons chunk chunks ih =>
      intro s buffer rebuffer hbuffer hrebuffer
      obtain ⟨buffer', wait, hbuffer', hrebuffer', hstall⟩ :=
        advance_rebuffer hrate hbuffer hrebuffer chunk
      rw [List.foldl_cons, ih _ _ _ hbuffer' hrebuffer', List.map_cons, hstall, add_assoc]
  rw [play, hloop chunks _ buffer 0 rfl rfl, zero_add]

/-- **Units.** The stall time the planner predicts for the sequence it chooses is that of a buffer
of `B` ms and a rate of `r` kbps exactly if that player never waits, unless the buffer was empty
and no segment so far had any bytes. -/
theorem rebuffer_eq_stallTime_iff (v : Tables) {s : MinervaAbr} {q : ℤ}
    (hq : s.lastQuality = some q) {B r : ℤ} (hB : s.lastBuffer.value = B) (hB0 : 0 ≤ B)
    (hr : truncate s.movingAverageRate = r) (hr0 : 0 < r) {choice : Choice}
    (hchoice : s.bestRate v = some choice)
    (hpos : ∃ combo ∈ Sequences v, ∃ o,
      simulate v (s.lastIndex + 1) q B r combo = some o ∧ 0 < o.reward) :
    ∃ combo chunks, chosenSequence v (s.lastIndex + 1) q B r = some combo ∧
      choice.bestRate = combo.headD 0 ∧
      readChunks v q combo (s.lastIndex + 1) = some chunks ∧
      (choice.rebuffer = some (stallTime ((B : ℚ) / 1000) (secondsAt r chunks)) ↔
        WaitsOnlyWhile (B = 0) ((B : ℚ) / 1000) (secondsAt r chunks)) := by
  have hr' : (0 : ℚ) < r := by exact_mod_cast hr0
  have hB' : (0 : ℚ) ≤ B := by exact_mod_cast hB0
  simp only [MinervaAbr.bestRate, hq, Option.bind_eq_bind, Option.bind_some, hB, hr] at hchoice
  have hsim := simulate_of_getBestRate hchoice
  have hreward : ∃ combo ∈ Sequences v,
      0 < (simulated v (s.lastIndex + 1) q B r combo).reward := by
    obtain ⟨combo, hcombo, o, ho, hlt⟩ := hpos
    rw [hsim combo hcombo, Option.some.injEq] at ho
    exact ⟨combo, hcombo, ho ▸ hlt⟩
  obtain ⟨combo, hcombo, hchosen, -, -, hc⟩ := getBestRate_of_pos hsim hreward
  rw [hchoice, Option.some.injEq] at hc
  have hplayed := hsim combo hcombo
  rw [simulate, Option.map_eq_some_iff] at hplayed
  obtain ⟨chunks, hread, hplay⟩ := hplayed
  refine ⟨combo, chunks, hchosen, by rw [hc]; rfl, hread, ?_⟩
  -- the simulation is that of a buffer and a rate a thousand times as large
  have hscaled : (chunks.map fun chunk => ((8 * chunk.size / 1000 / 1000 / r : ℚ), chunk.duration))
      = speedUp 1000 (secondsAt r chunks) := by
    rw [speedUp, secondsAt, List.map_map]
    apply List.map_congr_left
    intro chunk _
    simp only [Function.comp_apply, Prod.mk.injEq, and_true]
    field_simp
  have htimes : ∀ chunk ∈ secondsAt r chunks, 0 ≤ chunk.1 := by
    intro chunk hchunk
    obtain ⟨x, -, rfl⟩ := List.mem_map.mp hchunk
    positivity
  have hbuffers : (B : ℚ) / 1000 = B ↔ B = 0 := by
    constructor
    · intro h
      have hzero := eq_zero_of_div_eq (by norm_num) h
      exact_mod_cast hzero
    · intro h
      rw [h, Int.cast_zero, zero_div]
  have hrebuffer : choice.rebuffer = (simulated v (s.lastIndex + 1) q B r combo).rebuffer := by
    rw [hc]
    rfl
  rw [hrebuffer, ← hplay, play_rebuffer hr'.ne', hscaled, Option.some.injEq,
    stallTime_speedUp_eq_iff (by norm_num) htimes (div_le_self hB' (by norm_num))]
  exact waitsOnlyWhile_congr hbuffers

/-! ## A session -/

/-- A player of a video whose tracks are equally long, without normalisation. -/
def settingsOf (v : Ladder) : Settings := ⟨v.toTables, false, [], id⟩

/-- A report that a segment is loading. -/
def loading (index quality : ℤ) : Segment where
  index := index
  timestamp := index
  quality := some quality
  state := .loading

/-- Segments are reported with a buffer level; then an interval of 500 ms passes with 62500 bytes
in its second half, which is a rate of 2000 kbps, and 1600 when cautious. -/
def session (buffer : ℤ) (segments : List Segment) : List System.Event :=
  [.registerMetrics ⟨[], [], [⟨buffer, 1⟩], segments⟩, .decide ⟨some 20, some 20, 0, 0, none⟩,
    .decide ⟨some 20, some 20, 300, 300, none⟩, .addAckedBytes 62500,
    .decide ⟨some 20, some 20, 600, 600, none⟩]

/-- The object after a session. -/
def afterSession (v : Ladder) (buffer : ℤ) (segments : List Segment) : MinervaAbr :=
  (run (System.step (settingsOf v)) (System.new 0) (session buffer segments)).abr

theorem utility_reads_second_segment :
    ((afterSession steadyVideo 9000 [loading 1 0, loading 2 1]).terms steadyVideo.toTables).isSome
      = true := by
  have hreads := (utility_reads_iff steadyVideo (settingsOf steadyVideo) 0
    (session 9000 [loading 1 0, loading 2 1]) _ rfl).2.2
  refine (hreads ?_ (by decide +kernel)).mpr ⟨by decide +kernel, fun _ => by decide⟩
  rintro g ⟨m, hm, hg, -⟩
  simp only [session, List.mem_cons, System.Event.registerMetrics.injEq, reduceCtorEq, or_false,
    List.not_mem_nil] at hm
  subst hm
  rcases List.mem_cons.mp hg with rfl | hg
  · exact ⟨0, rfl, by decide, by decide⟩
  · rw [List.mem_singleton.mp hg]
    exact ⟨1, rfl, by decide, by decide⟩

/-- While the fifth of six segments is loading, the next one is read past the end of its track. -/
theorem utility_reads_past_end :
    (afterSession steadyVideo 9000 [loading 4 0, loading 5 0]).lastIndex = 5 ∧
      (afterSession steadyVideo 9000 [loading 4 0, loading 5 0]).terms steadyVideo.toTables =
        none := by
  refine ⟨by decide +kernel, ?_⟩
  rw [← Option.not_isSome_iff_eq_none]
  decide +kernel

/-- The first two segments were loading in the better quality, and the next one will. -/
theorem utility_weighted_steady :
    (afterSession steadyVideo 9000 [loading 1 1, loading 2 1]).computeUtility
      (settingsOf steadyVideo) = some (MinervaAbr.weightedUtility (1 / (2 + 1)) ⟨80, 80, 80⟩) := by
  have hindex : (afterSession steadyVideo 9000 [loading 1 1, loading 2 1]).lastIndex = 2 := by
    decide +kernel
  have hterms : (afterSession steadyVideo 9000 [loading 1 1, loading 2 1]).terms
      (settingsOf steadyVideo).tables = some ⟨80, 80, 80⟩ := by
    decide +kernel
  obtain ⟨u, hu, hiff, -⟩ := utility_weighted_iff rfl (by rw [hindex]) hterms
  rw [hindex, Int.cast_ofNat] at hiff
  rw [hu, hiff.mpr (by norm_num)]

/-- The first segment was loading in the worse quality, which made the past worse by 100. The
utility is still 80, and not 460/7. -/
theorem utility_ignores_past :
    (afterSession steadyVideo 9000 [loading 1 0, loading 2 1]).terms steadyVideo.toTables =
        some ⟨-20, 80, 80⟩ ∧
      (afterSession steadyVideo 9000 [loading 1 1, loading 2 1]).terms steadyVideo.toTables =
        some ⟨80, 80, 80⟩ ∧
      (afterSession steadyVideo 9000 [loading 1 0, loading 2 1]).computeUtility
        (settingsOf steadyVideo) = some 80 ∧
      (afterSession steadyVideo 9000 [loading 1 1, loading 2 1]).computeUtility
        (settingsOf steadyVideo) = some 80 ∧
      MinervaAbr.weightedUtility (1 / (2 + 1)) ⟨-20, 80, 80⟩ = 460 / 7 := by
  decide +kernel

theorem rebuffer_stallTime_full_buffer :
    ∃ combo chunks,
      chosenSequence unevenVideo.toTables (2 + 1) 0 (9000 : ℤ) (1600 : ℤ) = some combo ∧
      0 = combo.headD 0 ∧ readChunks unevenVideo.toTables 0 combo (2 + 1) = some chunks ∧
      (some 0 = some (stallTime (((9000 : ℤ) : ℚ) / 1000) (secondsAt (1600 : ℤ) chunks)) ↔
        WaitsOnlyWhile ((9000 : ℤ) = 0) (((9000 : ℤ) : ℚ) / 1000)
          (secondsAt (1600 : ℤ) chunks)) := by
  set s := afterSession unevenVideo 9000 [loading 1 0, loading 2 0] with hs
  have hindex : s.lastIndex = 2 := by
    rw [hs]
    decide +kernel
  have hchoice : s.bestRate unevenVideo.toTables = some ⟨0, some 0, 60⟩ := by
    rw [hs]
    decide +kernel
  have hreward :
      ∃ o ∈ simulate unevenVideo.toTables (2 + 1) 0 (9000 : ℤ) (1600 : ℤ) [0, 0, 0, 0, 0],
        0 < o.reward := by
    decide +kernel
  have hstall := rebuffer_eq_stallTime_iff unevenVideo.toTables (s := s) (q := 0)
    (B := 9000) (r := 1600) (by rw [hs]; decide +kernel) (by rw [hs]; decide +kernel) (by norm_num)
    (by rw [hs]; decide +kernel) (by norm_num) hchoice
  rw [hindex] at hstall
  exact hstall ⟨[0, 0, 0, 0, 0], ⟨by decide, by decide⟩, hreward⟩

/-- With a buffer of one second and 1600 kbps, the next segment takes 25/8 seconds; the planner
does not see the player wait. -/
theorem rebuffer_unaware_of_stall :
    (afterSession unevenVideo 1000 [loading 1 0, loading 2 0]).lastBuffer.value = 1000 ∧
      (afterSession unevenVideo 1000 [loading 1 0, loading 2 0]).movingAverageRate = 1600 ∧
      (afterSession unevenVideo 1000 [loading 1 0, loading 2 0]).bestRate unevenVideo.toTables =
        some ⟨0, some 0, 60⟩ ∧
      chosenSequence unevenVideo.toTables 3 0 1000 1600 = some [0, 0, 0, 0, 0] ∧
      0 < (simulated unevenVideo.toTables 3 0 1000 1600 [0, 0, 0, 0, 0]).reward ∧
      (readChunks unevenVideo.toTables 0 [0, 0, 0, 0, 0] 3).map
        (fun chunks => stallTime (1000 / 1000) (secondsAt 1600 chunks)) = some (17 / 8) := by
  decide +kernel

end Minerva
end LiveStream
