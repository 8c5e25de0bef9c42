import LiveStream.Abr.InFlight
import LiveStream.Worthed.Planner

/-!
# `WorthedAbr` as an object

`WorthedAbr` on top of `SegmentProgressAbr` and `StateTracker`. After each batch of metrics it
adjusts the congestion control by the buffer level with the segment in flight; for a decision it
asks the exhaustive planner, and limits how often and how far the quality goes up.

The average bandwidth a decision reads is an input of that decision. Of what `adjustCC` does to
the congestion control the switch of the RTT probing is kept; the pacing cycle it proposes goes
to the interface only.
-/

namespace LiveStream
namespace Worthed

open Lib AbrSchema WorthedAbrConstants
open Abr (Tables Call Undefined InFlight Access Received SegmentProgressAbr adjustBuffer newestValue
  adjustBuffer_lastSegment)

/-- The members of the class and its base classes that its methods use. -/
structure WorthedAbr where
  base : SegmentProgressAbr
  lastPlayerTime : Value
  lastBufferLevel : Value
  lastSegmentTimeLength : ℤ
  ban : ℤ
  isRttProbing : Bool

/-- What a call of `decideQuality` reads besides the object: the average bandwidth as an `int`,
the random numbers, and what `compute_reward` returns where it is not defined. -/
structure Readings where
  bandwidth : ℤ
  rand : Draws
  undefined : List ℤ → WithBot ℚ

/-- The readings at an average bandwidth, when `rand()` returns 0. -/
def Readings.atBandwidth (bandwidth : ℤ) : Readings := ⟨bandwidth, fun _ => 0, fun _ => ⊥⟩

namespace WorthedAbr

/-- The constructors do not set `last_segment_time_length`. -/
def init (lastSegmentTimeLength : ℤ) : WorthedAbr where
  base := SegmentProgressAbr.init
  lastPlayerTime := ⟨0, 0⟩
  lastBufferLevel := ⟨0, 0⟩
  lastSegmentTimeLength := lastSegmentTimeLength
  ban := 0
  isRttProbing := true

/-! ## Metrics -/

def adjustedBufferLevel (s : WorthedAbr) (v : Tables) (u : Undefined) (index : ℤ) : InFlight :=
  adjustBuffer v.firstTrack u s.base.lastSegment s.lastSegmentTimeLength s.lastBufferLevel.value
    index

/-- The flag is also passed to the interface when it changes. -/
def setRttProbing (s : WorthedAbr) (probe : Bool) : WorthedAbr := { s with isRttProbing := probe }

/-- `adjustCC()`. -/
def adjustCC (s : WorthedAbr) (v : Tables) (u : Undefined) : WorthedAbr :=
  -- adjust CC only after a few segments
  if s.base.decisionIndex ≤ 1 then s
  else
    let r := s.adjustedBufferLevel v u (s.base.decisionIndex - 1)
    let adjusted : WorthedAbr :=
      { s with
        base := { s.base with lastSegment := r.lastSegment }
        lastSegmentTimeLength := r.lastSegmentTimeLength }
    -- for RTT probing we need to have enough pieces downloaded
    if r.bufferLevel ≤ safeToRttProbe ∧ 3 < s.base.decisionIndex then adjusted.setRttProbing false
    else adjusted.setRttProbing true

/-- What `registerMetrics` of the two base classes does. -/
def registerReports (s : WorthedAbr) (metrics : Metrics) : WorthedAbr :=
  { s with
    base := s.base.registerMetrics metrics
    lastPlayerTime := newestValue s.lastPlayerTime metrics.playerTime
    lastBufferLevel := newestValue s.lastBufferLevel metrics.bufferLevel }

def registerMetrics (s : WorthedAbr) (v : Tables) (metrics : Metrics) (u : Undefined) :
    WorthedAbr :=
  (s.registerReports metrics).adjustCC v u

/-! ## Decisions -/

/-- The quality decided for the segment before. -/
def lastQuality (s : WorthedAbr) : ℤ :=
  ((s.base.decisions (s.base.decisionIndex - 1)).getD Decision.default).quality

/-- The quality the planner asks for. It is told a buffer without the reservoir, and three
quarters of the bandwidth. -/
def plannedQuality (s : WorthedAbr) (v : Tables) (e : Readings) : ℤ :=
  let bufferLevel := max (s.lastBufferLevel.value - reservoir) 0
  (computeRewardAndQuality v e.rand e.undefined (s.base.decisionIndex - 1 + 1)
    (truncate (e.bandwidth * safeDownscale)) bufferLevel s.lastQuality false s.lastQuality).2

/-- From the planner's choice to the ban and the quality `decideQuality` leaves. -/
def limitUpjump (ban lastQuality quality : ℤ) : ℤ × ℤ :=
  let ban := if lastQuality ≤ quality then ban - 1 else ban
  -- limit jumping up
  let quality :=
    if lastQuality < quality then if ban ≤ 0 then lastQuality + 1 else lastQuality else quality
  let ban := if quality < lastQuality then segmentsUpjumpBanned else ban
  (ban, quality)

/-- `decideQuality(index)`: the ban it leaves, and the quality. -/
def decideQuality (s : WorthedAbr) (v : Tables) (e : Readings) (index : ℤ) : ℤ × ℤ :=
  if index ≤ 2 ∨ (v.firstTrack.length : ℤ) < index then (s.ban, 0)
  else limitUpjump s.ban s.lastQuality (s.plannedQuality v e)

/-- `decide()`; the virtual call happens only when a decision is recorded. -/
def decide (s : WorthedAbr) (v : Tables) (e : Readings) : WorthedAbr × Decision :=
  if s.base.decisions s.base.decisionIndex = none ∧ s.base.shouldSend s.base.decisionIndex then
    let answer := s.decideQuality v e s.base.decisionIndex
    let r := s.base.decide fun _ => answer.2
    ({ s with base := r.1, ban := answer.1 }, r.2)
  else
    let r := s.base.decide fun _ => 0
    ({ s with base := r.1 }, r.2)

/-! ## Runs -/

def step (v : Tables) (s : WorthedAbr) : Call Undefined Readings → WorthedAbr
  | .registerMetrics metrics u => s.registerMetrics v metrics u
  | .registerAbort index => { s with base := s.base.registerAbort index }
  | .decide e => (s.decide v e).1

/-- The state after a sequence of calls from the constructor on. -/
def after (v : Tables) (lastSegmentTimeLength : ℤ) (calls : List (Call Undefined Readings)) :
    WorthedAbr :=
  run (step v) (init lastSegmentTimeLength) calls

open Abr.SegmentProgressAbr (Mirrors mirrors_init)

variable {v : Tables} {s : WorthedAbr} {calls : List (Call Undefined Readings)}

/-- What `adjustCC` does to the part of the base class, and what it leaves alone. -/
theorem adjustCC_frame (s : WorthedAbr) (v : Tables) (u : Undefined) :
    (s.adjustCC v u).ban = s.ban ∧ ∃ lastSegment,
      (s.adjustCC v u).base = { s.base with lastSegment := lastSegment } ∧
      (lastSegment = s.base.lastSegment ∨ (1 < s.base.decisionIndex ∧
        lastSegment = (s.adjustedBufferLevel v u (s.base.decisionIndex - 1)).lastSegment)) := by
  unfold adjustCC setRttProbing
  split
  · exact ⟨rfl, _, rfl, Or.inl rfl⟩
  · next h1 =>
    dsimp only
    split
    · exact ⟨rfl, _, rfl, Or.inr ⟨by omega, rfl⟩⟩
    · exact ⟨rfl, _, rfl, Or.inr ⟨by omega, rfl⟩⟩

/-- `adjustCC` creates no entry but that of segment 0. -/
theorem mirrors_adjustCC (h : Mirrors calls s.base) (u : Undefined) :
    Mirrors calls (s.adjustCC v u).base := by
  obtain ⟨-, lastSegment, hbase, hentries⟩ := adjustCC_frame s v u
  rw [hbase]
  apply h.of_lastSegment
  intro i hi
  rcases hentries with hsame | ⟨h1, hadjusted⟩
  · rw [hsame]
  · rw [hadjusted]
    refine adjustBuffer_lastSegment (fun h0 => ?_) (fun h2 => ?_) hi
    · exact h.stored_isSome (by omega) (Or.inl (by omega))
    · exact h.stored_isSome (by omega) (Or.inl (by omega))

theorem mirrors_registerReports (h : Mirrors calls s.base) (m : Metrics) (u : Undefined) :
    Mirrors (calls ++ [.registerMetrics m u]) (s.registerReports m).base :=
  h.concat (.registerMetrics m) _ (fun t ht => ht.registerMetrics m)
    fun m' hm' => ⟨u, by rw [SegmentProgressAbr.Op.registerMetrics.inj hm']⟩

/-- **Step lemma.** A call on the object is one on its base class. -/
theorem mirrors_step (h : Mirrors calls s.base) (call : Call Undefined Readings) :
    Mirrors (calls ++ [call]) (s.step v call).base := by
  cases call with
  | registerMetrics m u => exact mirrors_adjustCC (mirrors_registerReports h m u) u
  | registerAbort i =>
    exact h.concat (.registerAbort i) _ (fun t ht => ht.registerAbort i) fun _ hm => by cases hm
  | decide e =>
    show Mirrors _ (s.decide v e).1.base
    unfold decide
    split
    · exact h.concat (.decide _) _ (fun t ht => ht.decide _) fun _ hm => by cases hm
    · exact h.concat (.decide _) _ (fun t ht => ht.decide _) fun _ hm => by cases hm

theorem mirrors_after (v : Tables) (lastSegmentTimeLength : ℤ)
    (calls : List (Call Undefined Readings)) :
    Mirrors calls (after v lastSegmentTimeLength calls).base := by
  apply run_history (P := fun calls (s : WorthedAbr) => Mirrors calls s.base)
  · exact mirrors_init
  · intro calls s call h
    exact mirrors_step h call

end WorthedAbr

end Worthed
end LiveStream
