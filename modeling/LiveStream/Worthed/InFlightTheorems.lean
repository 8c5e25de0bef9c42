import LiveStream.Abr.BBAbr
import LiveStream.Worthed.WorthedAbr

/-!
# When the buffer level with the segment in flight is defined

`BBAbr` and `WorthedAbr` adjust the buffer level by the segment in flight in every run, whatever
the front-end reports. The block they share reads one entry of the first track too many at the
second to last segment, divides by what the front-end reported, and `WorthedAbr` asks for the
report of segment 0 until the second decision is taken.

* `BBAbr.accesses_iff` and `WorthedAbr.accesses_iff`, when a call is defined, in any run;
* `adjustment_defined_iff`, both together.
-/

namespace LiveStream

open Lib AbrSchema
open Abr (Tables Call Undefined Access Received Adjustable adjustBuffer_wellDefined_iff)

namespace Abr
namespace BBAbr

/-- A call of `decideQuality` that `decide` makes reads the reports of segments that were
decided; what can go wrong is the report in flight. -/
theorem accesses_iff {v : Tables} {s : BBAbr} {calls : List (Call Unit Undefined)}
    (h : SegmentProgressAbr.Mirrors calls s.base) (u : Undefined)
    (hsend : s.base.shouldSend s.base.decisionIndex = true) :
    (∀ a ∈ (s.decideQuality v u s.base.decisionIndex).accesses,
        a.WellDefined v.firstTrack (Received calls)) ↔
      (s.base.decisionIndex ≠ 1 → ∀ g, s.base.lastSegment (s.base.decisionIndex - 1) = some g →
        g.state = .progress → Adjustable v.firstTrack s.base.decisionIndex g) := by
  have hone := h.one_le
  unfold decideQuality
  by_cases hfirst : s.base.decisionIndex = 1
  · rw [if_pos hfirst]
    simp [hfirst]
  · obtain ⟨g, hg, hreceived⟩ :=
      h.stored (i := s.base.decisionIndex - 1) (by omega) (Or.inr (by rwa [sub_add_cancel]))
    rw [if_neg hfirst, adjustBuffer_wellDefined_iff hone]
    · simp [hg, hfirst, hreceived]
    · intro h2
      exact h.stored (by omega) (Or.inl (by omega))

end BBAbr
end Abr

namespace Worthed
namespace WorthedAbr

/-- A call of `adjustedBufferLevel` that `adjustCC` makes. Segment 0 is asked for when only
segment 1 is decided. -/
theorem accesses_iff {v : Tables} {s : WorthedAbr} {calls : List (Call Undefined Readings)}
    (h : Abr.SegmentProgressAbr.Mirrors calls s.base) (u : Undefined)
    (hindex : 1 ≤ s.base.decisionIndex - 1) :
    (∀ a ∈ (s.adjustedBufferLevel v u (s.base.decisionIndex - 1)).accesses,
        a.WellDefined v.firstTrack (Received calls)) ↔
      ∃ g, s.base.lastSegment (s.base.decisionIndex - 1 - 1) = some g ∧
        (s.base.decisionIndex - 1 = 1 → Received calls g) ∧
        (g.state = .progress → Adjustable v.firstTrack (s.base.decisionIndex - 1) g) := by
  unfold adjustedBufferLevel
  rw [adjustBuffer_wellDefined_iff hindex]
  · by_cases hfirst : s.base.decisionIndex - 1 = 1
    · simp [hfirst]
    · obtain ⟨g, hg, hreceived⟩ :=
        h.stored (i := s.base.decisionIndex - 1 - 1) (by omega) (Or.inl (by omega))
      simp [hg, hfirst, hreceived]
  · intro h2
    exact h.stored (by omega) (Or.inl (by omega))

end WorthedAbr

open Abr (BBAbr)

/-- **When the adjustment is defined.** In every run of the two classes on any video: a call of
`BBAbr::decideQuality` that `decide` makes is defined exactly if the segment before is not in
progress, or is reported with bytes loaded and in total and the segment to decide is not the
second to last. A call of `WorthedAbr::adjustedBufferLevel` that `adjustCC` makes needs the same,
and, as long as only segment 1 is decided, a report of segment 0. -/
theorem adjustment_defined_iff (v : Tables) :
    (∀ (timeLength : ℤ) (calls : List (Call Unit Undefined)) (u : Undefined),
      let s := BBAbr.after v timeLength calls
      let index := s.base.decisionIndex
      s.base.shouldSend index = true →
      ((∀ a ∈ (s.decideQuality v u index).accesses,
          a.WellDefined v.firstTrack (Received calls)) ↔
        (index ≠ 1 → ∀ g, s.base.lastSegment (index - 1) = some g → g.state = .progress →
          g.total ≠ 0 ∧ g.loaded ≠ 0 ∧ index + 1 ≠ v.firstTrack.length))) ∧
    ∀ (timeLength : ℤ) (calls : List (Call Undefined Readings)) (m : Metrics) (u : Undefined),
      let s := (WorthedAbr.after v timeLength calls).registerReports m
      let index := s.base.decisionIndex - 1
      let received := Received (calls ++ [.registerMetrics m u])
      1 ≤ index →
      ((∀ a ∈ (s.adjustedBufferLevel v u index).accesses, a.WellDefined v.firstTrack received) ↔
        ∃ g, s.base.lastSegment (index - 1) = some g ∧ (index = 1 → received g) ∧
          (g.state = .progress →
            g.total ≠ 0 ∧ g.loaded ≠ 0 ∧ index + 1 ≠ v.firstTrack.length)) := by
  constructor
  · intro timeLength calls u s index hsend
    exact BBAbr.accesses_iff (BBAbr.mirrors_after v timeLength calls) u hsend
  · intro timeLength calls m u s index received hindex
    have hmirrors := WorthedAbr.mirrors_after v timeLength calls
    exact WorthedAbr.accesses_iff (WorthedAbr.mirrors_registerReports hmirrors m u) u hindex

/-- One track of four segments. -/
def fourSegments : Tables where
  segments := [[⟨0, 80, 100000⟩, ⟨4, 80, 100000⟩, ⟨8, 70, 150000⟩, ⟨12, 80, 100000⟩]]
  bitrateArray := [300]
  nonempty := by decide
  rates := by decide

/-- A report of a segment in progress. -/
def inProgress (index timestamp loaded : ℤ) : Metrics :=
  { segments := [{ index, timestamp, loaded, total := 100, state := .progress }] }

/-- What an `int` that was not set happens to hold. -/
def zeroed : Undefined := ⟨0, 0, .loading, ⟨0, 0, 0⟩, 0⟩

/-- A decision before the planner is asked. -/
def unplanned : Readings := .atBandwidth 0

/-- Segment 2 is decided while segment 1 is at 90%, and metrics come once it is. -/
theorem adjustment_defined_fourSegments :
    (let calls := [.decide zeroed, .registerMetrics (inProgress 1 10 90) ()]
     let s := BBAbr.after fourSegments 0 calls
     s.base.decisionIndex = 2 ∧ ∀ a ∈ (s.decideQuality fourSegments zeroed 2).accesses,
      a.WellDefined fourSegments.firstTrack (Received calls)) ∧
    (let calls := [.decide unplanned, .registerMetrics (inProgress 1 10 90) zeroed,
      .decide unplanned]
     let m := inProgress 1 20 95
     let s := (WorthedAbr.after fourSegments 0 calls).registerReports m
     s.base.decisionIndex = 3 ∧ ∀ a ∈ (s.adjustedBufferLevel fourSegments zeroed 2).accesses,
      a.WellDefined fourSegments.firstTrack (Received (calls ++ [.registerMetrics m zeroed]))) := by
  have hdefined := adjustment_defined_iff fourSegments
  constructor
  · intro calls s
    have hindex : s.base.decisionIndex = 2 := by decide +kernel
    have hsend : s.base.shouldSend s.base.decisionIndex = true := by decide +kernel
    have hstored : s.base.lastSegment (s.base.decisionIndex - 1) =
        some ⟨1, 10, 90, 100, none, .progress⟩ := by decide +kernel
    refine ⟨hindex, ?_⟩
    have hiff := hdefined.1 0 calls zeroed hsend
    rw [← hindex]
    refine hiff.mpr fun _ g hg _ => ?_
    obtain rfl := Option.some.inj (hstored.symm.trans hg)
    exact ⟨by decide, by decide, by decide +kernel⟩
  · intro calls m s
    have hindex : s.base.decisionIndex - 1 = 2 := by decide +kernel
    have hstored : s.base.lastSegment (s.base.decisionIndex - 1 - 1) =
        some ⟨1, 20, 95, 100, none, .progress⟩ := by decide +kernel
    refine ⟨by omega, ?_⟩
    have hiff := hdefined.2 0 calls m zeroed (by show 1 ≤ s.base.decisionIndex - 1; omega)
    rw [← hindex]
    refine hiff.mpr ⟨_, hstored, fun h1 => ?_, fun _ => ⟨by decide, by decide, by decide +kernel⟩⟩
    change s.base.decisionIndex - 1 = 1 at h1
    omega

/-- The second to last segment reads entry 4 of 4, a segment that was aborted without bytes is
divided by, and the entry of segment 0 is created. -/
theorem adjustment_undefined :
    (let calls := [.decide zeroed, .registerMetrics (inProgress 1 10 90) (), .decide zeroed,
      .registerMetrics (inProgress 2 20 90) ()]
     let s := BBAbr.after fourSegments 0 calls
     s.base.decisionIndex = 3 ∧ s.base.shouldSend 3 = true ∧
      ¬∀ a ∈ (s.decideQuality fourSegments zeroed 3).accesses,
        a.WellDefined fourSegments.firstTrack (Received calls)) ∧
    (let calls := [.decide zeroed, .registerMetrics (inProgress 1 10 0) (), .registerAbort 1]
     let s := BBAbr.after fourSegments 0 calls
     s.base.decisionIndex = 2 ∧ s.base.shouldSend 2 = true ∧
      ¬∀ a ∈ (s.decideQuality fourSegments zeroed 2).accesses,
        a.WellDefined fourSegments.firstTrack (Received calls)) ∧
    (let calls := [.decide unplanned]
     let m := inProgress 1 10 50
     let s := (WorthedAbr.after fourSegments 0 calls).registerReports m
     s.base.decisionIndex = 2 ∧
      ¬∀ a ∈ (s.adjustedBufferLevel fourSegments zeroed 1).accesses,
        a.WellDefined fourSegments.firstTrack
          (Received (calls ++ [.registerMetrics m zeroed]))) := by
  refine ⟨?_, ?_, ?_⟩
  · intro calls s
    have hread : .segment 4 ∈ (s.decideQuality fourSegments zeroed 3).accesses := by decide +kernel
    refine ⟨by decide +kernel, by decide +kernel, fun h => ?_⟩
    have hinside : (4 : ℤ) < fourSegments.firstTrack.length := (h _ hread).2
    exact absurd hinside (by decide +kernel)
  · intro calls s
    have hdivided : .divisor 0 ∈ (s.decideQuality fourSegments zeroed 2).accesses := by
      decide +kernel
    exact ⟨by decide +kernel, by decide +kernel, fun h => h _ hdivided rfl⟩
  · intro calls m s
    have hread : .lastSegment none ∈ (s.adjustedBufferLevel fourSegments zeroed 1).accesses := by
      decide +kernel
    refine ⟨by decide +kernel, fun h => ?_⟩
    obtain ⟨g, hg, -⟩ := h _ hread
    cases hg

end Worthed
end LiveStream
