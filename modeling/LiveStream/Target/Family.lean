import LiveStream.Target.GapAbr

/-!
# Quality changes of the target family

Runs of `TargetAbr`, `TargetAbr2`, `TargetAbr3`, `GapAbr` and `RemoteAbr` under any metrics,
aborts and readings. Whatever target they compute, all five take the quality from the
planner, which goes up by at most one and down by at most two from the quality decided last.

* `Algorithm.decideQuality_spec`, the one fact about the five `decideQuality` bodies;
* `Steady` and `steady_after`, the invariant that carries the bound through a run;
* `quality_changes_bounded`, the bound for all decisions of a run.
-/

namespace LiveStream
namespace Target

open Lib AbrSchema
open Abr (SegmentProgressAbr)

inductive Algorithm where
  | targetAbr
  | targetAbr2
  | targetAbr3
  | gapAbr
  | remoteAbr
deriving DecidableEq

/-- `localQoe`, which the subclasses other than `TargetAbr3` inherit. -/
def Algorithm.localQoe : Algorithm → ℤ → ℤ → ℤ → ℤ → ℚ
  | .targetAbr => TargetAbr.localQoe
  | .targetAbr2 | .gapAbr | .remoteAbr => TargetAbr2.localQoe
  | .targetAbr3 => TargetAbr3.localQoe

/-- What a call of `decide` meets: the readings, and the server of `RemoteAbr`. -/
structure Surroundings where
  readings : Readings
  answer : RemoteAbr.Request → ℤ

/-- An algorithm and the video it runs on. -/
structure Stream where
  algorithm : Algorithm
  video : TrackTable

def Stream.scenario (m : Stream) : Scenario := ⟨m.video, m.algorithm.localQoe⟩

/-- The virtual `decideQuality`; `none` where the process is killed. -/
def Stream.decideQuality (m : Stream) (s : TargetAbr) (e : Surroundings) (index : ℤ) :
    Option Outcome :=
  match m.algorithm with
  | .targetAbr =>
    -- this one steers by the pacing cycle and sets no target rate
    let r := s.decideQuality m.scenario e.readings.toEstimates index
    some ⟨r.1, none, r.2⟩
  | .targetAbr2 | .targetAbr3 =>
    let r := s.decideQuality m.scenario e.readings.toEstimates index
    some ⟨r.1, if index ≤ 1 ∨ ((m.video.track 0).length : ℤ) < index then none else some r.1, r.2⟩
  | .gapAbr => GapAbr.decideQuality s m.scenario e.readings index
  | .remoteAbr => some (RemoteAbr.decideQuality s m.scenario e.readings e.answer index)

/-- The object, the target rate its calls have set, and whether the process was killed. -/
structure FamilyAbr where
  abr : TargetAbr
  targetRate : Option ℤ
  killed : Bool

namespace FamilyAbr

def init (bandwidthTarget : ℤ) : FamilyAbr := ⟨TargetAbr.init bandwidthTarget, none, false⟩

/-- `decide()`. The virtual call happens only when a decision is recorded. -/
def decide (s : FamilyAbr) (m : Stream) (e : Surroundings) : FamilyAbr :=
  let base := s.abr.base
  if base.decisions base.decisionIndex = none ∧ base.shouldSend base.decisionIndex then
    match m.decideQuality s.abr e base.decisionIndex with
    | none => { s with killed := true }
    | some outcome =>
      { s with
        abr := { s.abr with
          base := (base.decide fun _ => outcome.quality).1
          bandwidthTarget := outcome.bandwidthTarget }
        targetRate := outcome.targetRate.or s.targetRate }
  else { s with abr := { s.abr with base := (base.decide fun _ => 0).1 } }

inductive Event where
  | registerMetrics (metrics : Metrics)
  | registerAbort (index : ℤ)
  | decide (surroundings : Surroundings)

/-- A call on the interface, of a process that still runs. -/
def step (m : Stream) (s : FamilyAbr) (ev : Event) : FamilyAbr :=
  if s.killed then s
  else match ev with
    | .registerMetrics metrics => { s with abr := s.abr.registerMetrics metrics }
    | .registerAbort index =>
      { s with abr := { s.abr with base := s.abr.base.registerAbort index } }
    | .decide e => s.decide m e

/-- The state after a sequence of calls from the constructor on. -/
def after (m : Stream) (bandwidthTarget : ℤ) (es : List Event) : FamilyAbr :=
  run (step m) (init bandwidthTarget) es

end FamilyAbr

/-! ## One decision -/

/-- All five answer 0 for the first segment and outside the video, and else with a quality the
planner returned for some bandwidth. -/
theorem Stream.decideQuality_spec {m : Stream} {s : TargetAbr} {e : Surroundings} {index : ℤ}
    {o : Outcome} (h : m.decideQuality s e index = some o) :
    ((index ≤ 1 ∨ (m.video.length : ℤ) < index) ∧ o.quality = 0) ∨
      (¬(index ≤ 1 ∨ (m.video.length : ℤ) < index) ∧
        ∃ b, o.quality = s.qoeSecond m.scenario e.readings.toEstimates b) := by
  have hlength : (m.scenario.video.track 0).length = m.video.length :=
    Planner.length_track_zero m.video
  have htarget : ∀ r, TargetAbr.decideQuality s m.scenario e.readings.toEstimates index = r →
      ((index ≤ 1 ∨ (m.video.length : ℤ) < index) ∧ r.2 = 0) ∨
        (¬(index ≤ 1 ∨ (m.video.length : ℤ) < index) ∧
          ∃ b, r.2 = s.qoeSecond m.scenario e.readings.toEstimates b) := by
    intro r hr
    unfold TargetAbr.decideQuality at hr
    rw [hlength] at hr
    by_cases hout : index ≤ 1 ∨ (m.video.length : ℤ) < index
    · rw [if_pos hout] at hr
      exact .inl ⟨hout, by rw [← hr]⟩
    · rw [if_neg hout] at hr
      exact .inr ⟨hout, _, by rw [← hr]⟩
  unfold decideQuality at h
  split at h
  · rw [← Option.some.inj h]
    exact htarget _ rfl
  · rw [← Option.some.inj h]
    exact htarget _ rfl
  · rw [← Option.some.inj h]
    exact htarget _ rfl
  · unfold GapAbr.decideQuality at h
    rw [hlength] at h
    by_cases hout : index ≤ 1 ∨ (m.video.length : ℤ) < index
    · rw [if_pos hout] at h
      exact .inl ⟨hout, by rw [← Option.some.inj h]⟩
    · rw [if_neg hout] at h
      obtain ⟨range, -, h⟩ := Option.bind_eq_some_iff.mp h
      exact .inr ⟨hout, _, by rw [← Option.some.inj h]⟩
  · rw [← Option.some.inj h]
    unfold RemoteAbr.decideQuality
    rw [hlength]
    by_cases hout : index ≤ 1 ∨ (m.video.length : ℤ) < index
    · rw [if_pos hout]
      exact .inl ⟨hout, rfl⟩
    · rw [if_neg hout]
      dsimp only
      exact .inr ⟨hout, _, rfl⟩

/-- From quality `q` the next one goes up by at most one and down by at most two. -/
def Reachable (m : Stream) (q q' : ℤ) : Prop :=
  max 0 (q - 2) ≤ q' ∧ q' ≤ min ((m.video.segments.length : ℤ) - 1) (q + 1)

/-- What every run keeps true. -/
structure Steady (m : Stream) (s : FamilyAbr) : Prop where
  inv : TargetAbr.Inv m.scenario s.abr
  first : ∀ d, s.abr.base.decisions 1 = some d → d.quality = 0
  next : ∀ (i : ℤ) d d', 2 ≤ i → i ≤ m.video.length → s.abr.base.decisions (i - 1) = some d →
    s.abr.base.decisions i = some d' → Reachable m d.quality d'.quality

variable {m : Stream} {s : FamilyAbr}

/-- The quality the planner returns in a reachable state. -/
theorem TargetAbr.Inv.qoeSecond_reachable {s : TargetAbr} (h : TargetAbr.Inv m.scenario s)
    (h2 : 2 ≤ s.base.decisionIndex) {d : Decision}
    (hd : s.base.decisions (s.base.decisionIndex - 1) = some d) (e : Estimates) (b : ℚ) :
    Reachable m d.quality (s.qoeSecond m.scenario e b) := by
  obtain ⟨r, hr, hquality⟩ := Planner.qoe_mem_qualities (b := b) (e.order b) (h.placed h2)
  have hbounds := Planner.mem_qualities.mp hquality
  have hcurrent : (s.planner m.scenario).startState.quality = d.quality := by
    show ((s.base.decisions (s.base.decisionIndex - 1)).getD Decision.default).quality = _
    rw [hd, Option.getD_some]
  rw [hcurrent] at hbounds
  unfold TargetAbr.qoeSecond
  rw [hr]
  exact hbounds

/-- **Step lemma.** What a call of `decideQuality` answers for the next segment. -/
theorem Steady.decideQuality (h : Steady m s) {e : Surroundings} {o : Outcome}
    (ho : m.decideQuality s.abr e s.abr.base.decisionIndex = some o) :
    (0 ≤ o.quality ∧ o.quality < m.video.segments.length) ∧
      (s.abr.base.decisionIndex = 1 → o.quality = 0) ∧
      ∀ d, s.abr.base.decisionIndex ≤ m.video.length →
        s.abr.base.decisions (s.abr.base.decisionIndex - 1) = some d →
          Reachable m d.quality o.quality := by
  have hpos : (0 : ℤ) < m.video.segments.length := by
    exact_mod_cast Planner.segments_length_pos m.video
  have hone := h.inv.base.one_le
  rcases Stream.decideQuality_spec ho with ⟨hout, hzero⟩ | ⟨hin, b, hb⟩
  · refine ⟨by omega, fun _ => hzero, ?_⟩
    intro d hle hd
    -- only the first segment is left, which has no decision before it
    have hfirst : s.abr.base.decisionIndex = 1 := by omega
    have hrecorded := (h.inv.base.recorded_iff (s.abr.base.decisionIndex - 1)).mp (by rw [hd]; rfl)
    omega
  · have h2 : 2 ≤ s.abr.base.decisionIndex := by omega
    obtain ⟨d, hd⟩ := h.inv.base.latest h2
    have hreach := h.inv.qoeSecond_reachable h2 hd e.readings.toEstimates b
    rw [← hb] at hreach
    refine ⟨?_, by omega, ?_⟩
    · unfold Reachable at hreach
      omega
    · intro d' _ hd'
      obtain rfl : d = d' := Option.some.inj (hd.symm.trans hd')
      exact hreach

/-! ## Whole runs -/

theorem steady_init (m : Stream) (bandwidthTarget : ℤ) :
    Steady m (FamilyAbr.init bandwidthTarget) where
  inv := TargetAbr.inv_init m.scenario bandwidthTarget
  first := fun _ hd => by
    simp [FamilyAbr.init, TargetAbr.init, SegmentProgressAbr.init] at hd
  next := fun _ _ _ _ _ hd => by
    simp [FamilyAbr.init, TargetAbr.init, SegmentProgressAbr.init] at hd

/-- A call that leaves the decisions alone keeps the invariant. -/
theorem Steady.of_decisions_eq (h : Steady m s) {t : FamilyAbr} (hbase : t.abr.base.Inv)
    (heq : t.abr.base.decisions = s.abr.base.decisions) : Steady m t where
  inv := ⟨hbase, by rw [heq]; exact h.inv.quality⟩
  first := by rw [heq]; exact h.first
  next := by rw [heq]; exact h.next

/-- Recording an answer of `decideQuality` keeps the invariant. -/
theorem Steady.record (h : Steady m s) {e : Surroundings} {o : Outcome} {t : FamilyAbr}
    (ho : m.decideQuality s.abr e s.abr.base.decisionIndex = some o)
    (hbase : t.abr.base = (s.abr.base.decide fun _ => o.quality).1) : Steady m t := by
  obtain ⟨hrange, hfirst, hnext⟩ := h.decideQuality ho
  have hinv : t.abr.base.Inv := by
    rw [hbase]
    exact h.inv.base.decide _
  rcases SegmentProgressAbr.decide_cases h.inv.base fun _ => o.quality with
    ⟨-, he⟩ | ⟨-, -, d, -, he⟩
  · have hdecisions : t.abr.base.decisions = Function.update s.abr.base.decisions
        s.abr.base.decisionIndex (some (s.abr.base.newDecision fun _ => o.quality)) := by
      rw [hbase, he]
    -- a recorded decision is an old one or the new one
    have hcases : ∀ i d, t.abr.base.decisions i = some d →
        (i = s.abr.base.decisionIndex ∧ d.quality = o.quality) ∨
          (i ≠ s.abr.base.decisionIndex ∧ s.abr.base.decisions i = some d) := by
      intro i d hd
      by_cases hi : i = s.abr.base.decisionIndex
      · rw [hdecisions, hi, Function.update_self] at hd
        exact .inl ⟨hi, by rw [← Option.some.inj hd]; rfl⟩
      · rw [hdecisions, Function.update_of_ne hi] at hd
        exact .inr ⟨hi, hd⟩
    have hundecided : ∀ i d, s.abr.base.decisions i = some d → i < s.abr.base.decisionIndex :=
      fun i d hd => ((h.inv.base.recorded_iff i).mp (by rw [hd]; rfl)).2
    refine ⟨⟨hinv, ?_⟩, ?_, ?_⟩
    · intro i d hd
      rcases hcases i d hd with ⟨-, hd⟩ | ⟨-, hd⟩
      · rw [hd]
        exact hrange
      · exact h.inv.quality i d hd
    · intro d hd
      rcases hcases 1 d hd with ⟨hi, hd⟩ | ⟨-, hd⟩
      · rw [hd]
        exact hfirst hi.symm
      · exact h.first d hd
    · intro i d d' h2 hL hd hd'
      rcases hcases (i - 1) d hd with ⟨hi, -⟩ | ⟨-, hd⟩
      · -- nothing is recorded after the new decision
        rcases hcases i d' hd' with ⟨hi', -⟩ | ⟨-, hd'⟩
        · omega
        · have := hundecided i d' hd'
          omega
      · rcases hcases i d' hd' with ⟨hi, hd'⟩ | ⟨-, hd'⟩
        · rw [hd']
          subst hi
          exact hnext d hL hd
        · exact h.next i d d' h2 hL hd hd'
  · exact h.of_decisions_eq hinv (by rw [hbase, he])

theorem Steady.decide (h : Steady m s) (e : Surroundings) : Steady m (s.decide m e) := by
  unfold FamilyAbr.decide
  dsimp only
  split
  · split
    · exact h.of_decisions_eq h.inv.base rfl
    · next o ho => exact h.record ho rfl
  · next hskip =>
    -- nothing is recorded, and the latest decision is there
    rcases SegmentProgressAbr.decide_cases h.inv.base fun _ => 0 with ⟨hsend, -⟩ | ⟨-, -, d, -, he⟩
    · exact absurd ⟨h.inv.base.next_undecided, hsend⟩ hskip
    · exact h.of_decisions_eq (h.inv.base.decide _) (by rw [he])

/-- **Step lemma.** Every call keeps the invariant. -/
theorem Steady.step (h : Steady m s) (ev : FamilyAbr.Event) : Steady m (s.step m ev) := by
  unfold FamilyAbr.step
  split
  · exact h
  · cases ev with
    | registerMetrics metrics =>
      exact h.of_decisions_eq (h.inv.base.registerMetrics metrics)
        (SegmentProgressAbr.registerMetrics_frame s.abr.base metrics).1
    | registerAbort index => exact h.of_decisions_eq (h.inv.base.registerAbort index) rfl
    | decide e => exact h.decide e

theorem steady_after (m : Stream) (bandwidthTarget : ℤ) (es : List FamilyAbr.Event) :
    Steady m (FamilyAbr.after m bandwidthTarget es) :=
  run_invariant (steady_init m bandwidthTarget) fun _ ht ev _ => ht.step ev

/-- **Quality changes are bounded over whole runs.** Of all five algorithms, on any video with
equally long tracks: the first decision is for quality 0, and each further one inside the video
comes after one for the segment before, from which it goes up by at most one and down by at
most two. -/
theorem quality_changes_bounded (m : Stream) (bandwidthTarget : ℤ) (es : List FamilyAbr.Event) :
    (∀ d, (FamilyAbr.after m bandwidthTarget es).abr.base.decisions 1 = some d → d.quality = 0) ∧
    ∀ (i : ℤ) d', 2 ≤ i → i ≤ m.video.length →
      (FamilyAbr.after m bandwidthTarget es).abr.base.decisions i = some d' →
      ∃ d, (FamilyAbr.after m bandwidthTarget es).abr.base.decisions (i - 1) = some d ∧
        max 0 (d.quality - 2) ≤ d'.quality ∧
        d'.quality ≤ min ((m.video.segments.length : ℤ) - 1) (d.quality + 1) := by
  have h := steady_after m bandwidthTarget es
  refine ⟨h.first, ?_⟩
  intro i d' h2 hL hd'
  have hlt := ((h.inv.base.recorded_iff i).mp (by rw [hd']; rfl)).2
  have hrecorded := (h.inv.base.recorded_iff (i - 1)).mpr ⟨by omega, by omega⟩
  obtain ⟨d, hd⟩ := Option.isSome_iff_exists.mp hrecorded
  exact ⟨d, hd, h.next i d d' h2 hL hd hd'⟩

end Target
end LiveStream
