import LiveStream.Abr.InFlight

/-!
# `BBAbr`: the quality by the buffer level

The buffer-based algorithm on top of `SegmentProgressAbr`. It adjusts the last buffer level by
the segment in flight, maps the result to a bitrate between the lowest and the highest, and
takes the highest quality within it.
-/

namespace LiveStream
namespace Abr

open AbrSchema Lib

def RESERVOIR : ℤ := 5000
def CUSHION : ℤ := 10000

/-- The members of the class and of its base class that its methods use. -/
structure BBAbr where
  base : SegmentProgressAbr
  lastPlayerTime : Value
  lastBufferLevel : Value
  lastSegmentTimeLength : ℤ

namespace BBAbr

/-- The constructor does not set `last_segment_time_length`. -/
def init (lastSegmentTimeLength : ℤ) : BBAbr :=
  ⟨SegmentProgressAbr.init, ⟨0, 0⟩, ⟨0, 0⟩, lastSegmentTimeLength⟩

def registerMetrics (s : BBAbr) (metrics : Metrics) : BBAbr :=
  { s with
    base := s.base.registerMetrics metrics
    lastPlayerTime := newestValue s.lastPlayerTime metrics.playerTime
    lastBufferLevel := newestValue s.lastBufferLevel metrics.bufferLevel }

/-- The bitrate for a buffer level: linear between reservoir and cushion. -/
def bitrateFor (bitrateArray : List ℤ) (bufferLevel : ℤ) : ℚ :=
  let lowest := bitrateArray.getD 0 0
  let highest := bitrateArray.getD (bitrateArray.length - 1) 0
  if bufferLevel ≤ RESERVOIR then lowest
  else if RESERVOIR + CUSHION ≤ bufferLevel then highest
  else lowest + (highest - lowest) * (bufferLevel - RESERVOIR) / CUSHION

/-- The loop `for (int i = n - 1; i >= 0; --i)`, with `n` entries left to look at. -/
def highestWithin (bitrateArray : List ℤ) (bitrate : ℚ) : ℕ → ℤ
  | 0 => 0
  | i + 1 => if bitrateArray.getD i 0 ≤ bitrate then i else highestWithin bitrateArray bitrate i

/-- The quality for a buffer level. -/
def ladderStep (bitrateArray : List ℤ) (bufferLevel : ℤ) : ℤ :=
  highestWithin bitrateArray (bitrateFor bitrateArray bufferLevel) bitrateArray.length

/-- What a call of `decideQuality` leaves and returns, with its reads and divisions. -/
structure Answer where
  abr : BBAbr
  quality : ℤ
  accesses : List Access

def decideQuality (s : BBAbr) (v : Tables) (u : Undefined) (index : ℤ) : Answer :=
  if index = 1 then ⟨s, 0, []⟩
  else
    let r := adjustBuffer v.firstTrack u s.base.lastSegment s.lastSegmentTimeLength
      s.lastBufferLevel.value index
    { abr := { s with
        base := { s.base with lastSegment := r.lastSegment }
        lastSegmentTimeLength := r.lastSegmentTimeLength }
      quality := ladderStep v.bitrateArray r.bufferLevel
      accesses := r.accesses }

/-- `decide()`; the virtual call happens only when a decision is recorded. -/
def decide (s : BBAbr) (v : Tables) (u : Undefined) : BBAbr × Decision :=
  if s.base.decisions s.base.decisionIndex = none ∧ s.base.shouldSend s.base.decisionIndex then
    let answer := s.decideQuality v u s.base.decisionIndex
    let r := s.base.decide fun _ => answer.quality
    ({ answer.abr with base := { r.1 with lastSegment := answer.abr.base.lastSegment } }, r.2)
  else
    let r := s.base.decide fun _ => 0
    ({ s with base := r.1 }, r.2)

/-! ## Runs -/

def step (v : Tables) (s : BBAbr) : Call Unit Undefined → BBAbr
  | .registerMetrics metrics _ => s.registerMetrics metrics
  | .registerAbort index => { s with base := s.base.registerAbort index }
  | .decide u => (s.decide v u).1

/-- The state after a sequence of calls from the constructor on. -/
def after (v : Tables) (lastSegmentTimeLength : ℤ) (calls : List (Call Unit Undefined)) : BBAbr :=
  run (step v) (init lastSegmentTimeLength) calls

open SegmentProgressAbr (Mirrors mirrors_init)

variable {v : Tables} {s : BBAbr} {calls : List (Call Unit Undefined)}

/-- A call of `decideQuality` that `decide` makes creates no entry but that of segment 0. -/
theorem decideQuality_lastSegment (h : Mirrors calls s.base)
    (hsend : s.base.shouldSend s.base.decisionIndex = true) (u : Undefined) {i : ℤ} (hi : i ≠ 0) :
    (s.decideQuality v u s.base.decisionIndex).abr.base.lastSegment i = s.base.lastSegment i := by
  have hone := h.one_le
  unfold decideQuality
  by_cases hfirst : s.base.decisionIndex = 1
  · rw [if_pos hfirst]
  · rw [if_neg hfirst]
    apply adjustBuffer_lastSegment ?_ ?_ hi
    · intro _
      exact h.stored_isSome (by omega) (Or.inr (by rwa [sub_add_cancel]))
    · intro h2
      exact h.stored_isSome (by omega) (Or.inl (by omega))

/-- **Step lemma.** A call on the object is one on its base class. -/
theorem mirrors_step (h : Mirrors calls s.base) (call : Call Unit Undefined) :
    Mirrors (calls ++ [call]) (s.step v call).base := by
  cases call with
  | registerMetrics m r =>
    exact h.concat (.registerMetrics m) _ (fun t ht => ht.registerMetrics m)
      fun m' hm' => ⟨r, by rw [SegmentProgressAbr.Op.registerMetrics.inj hm']⟩
  | registerAbort i =>
    exact h.concat (.registerAbort i) _ (fun t ht => ht.registerAbort i) fun _ hm => by cases hm
  | decide u =>
    show Mirrors _ (s.decide v u).1.base
    unfold decide
    split
    · next hsend =>
      refine (h.concat (.decide _) _ (fun t ht => ht.decide _)
        fun _ hm => by cases hm).of_lastSegment ?_
      intro i hi
      rw [SegmentProgressAbr.decide_lastSegment]
      exact decideQuality_lastSegment h hsend.2 u hi
    · exact h.concat (.decide _) _ (fun t ht => ht.decide _) fun _ hm => by cases hm

theorem mirrors_after (v : Tables) (lastSegmentTimeLength : ℤ)
    (calls : List (Call Unit Undefined)) :
    Mirrors calls (after v lastSegmentTimeLength calls).base := by
  apply run_history (P := fun calls (s : BBAbr) => Mirrors calls s.base)
  · exact mirrors_init
  · intro calls s call h
    exact mirrors_step h call

end BBAbr

end Abr
end LiveStream
