import LiveStream.Abr.SegmentProgressTheorems
import LiveStream.Abr.Tables
import LiveStream.Lib.Truncate

/-!
# The buffer level with the segment in flight

`BBAbr::decideQuality` and `WorthedAbr::adjustedBufferLevel` have one block in common: while
the segment before `index` is still downloaded, they add to the last buffer level what that
segment will bring and take off the time its rest will need. The block reads the reports of up
to two segments and two entries of the first track, and divides twice.

What the block does where the language leaves it open is a parameter (`Undefined`), so that
runs go on; the reads and divisions are listed in `accesses`, and `Access.WellDefined` says
which of them are.

* `adjustBuffer_wellDefined_iff`, when all of them are;
* `Agree` and `Mirrors`, the subscripts create at most an entry of segment 0, so what is known
  of every run of `SegmentProgressAbr` is known of the two classes.
-/

namespace LiveStream
namespace Abr

open AbrSchema Lib
open Video (VideoInfo)

/-! ## Calls -/

/-- A call on an algorithm, with what its `registerMetrics` and `decide` read besides the
object. -/
inductive Call (μ δ : Type) where
  | registerMetrics (metrics : Metrics) (reading : μ)
  | registerAbort (index : ℤ)
  | decide (reading : δ)

/-- The report came with one of the calls. -/
def Received {μ δ : Type} (calls : List (Call μ δ)) (g : Segment) : Prop :=
  ∃ metrics reading, Call.registerMetrics metrics reading ∈ calls ∧ g ∈ metrics.segments

/-- The loops over `playerTime` and `bufferLevel`: the newest value is kept. -/
def newestValue (last : Value) (values : List Value) : Value :=
  values.foldl (fun last value => if last.timestamp < value.timestamp then value else last) last

/-! ## The block -/

/-- What the language leaves open: the members the default constructor of `Segment` does not
set, what is found behind the end of a vector, and the `int` an infinity or NaN converts to. -/
structure Undefined where
  index : ℤ
  timestamp : ℤ
  state : State
  beyond : VideoInfo
  conversion : ℤ

/-- A default-constructed report. -/
def Undefined.segment (u : Undefined) : Segment :=
  { index := u.index, timestamp := u.timestamp, state := u.state }

/-- A read or a division. -/
inductive Access where
  /-- `last_segment[i]`, with the entry found there. -/
  | lastSegment (found : Option Segment)
  /-- `segments[0][i]`. -/
  | segment (index : ℤ)
  | divisor (value : ℚ)
deriving DecidableEq

def Access.WellDefined (track : List VideoInfo) (reported : Segment → Prop) : Access → Prop
  | .lastSegment found => ∃ g, found = some g ∧ reported g
  | .segment index => 0 ≤ index ∧ index < track.length
  | .divisor value => value ≠ 0

/-- What the block leaves: two members, the buffer level, and what it read and divided by. -/
structure InFlight where
  lastSegment : ℤ → Option Segment
  lastSegmentTimeLength : ℤ
  bufferLevel : ℤ
  accesses : List Access

/-- `segments[0][index].start_time`. -/
def startTimeAt (track : List VideoInfo) (u : Undefined) (index : ℤ) : ℚ :=
  ((checkedGet track index).getD u.beyond).startTime

/-- The block. Repeated reads of one entry are listed once. -/
def adjustBuffer (track : List VideoInfo) (u : Undefined) (lastSegment : ℤ → Option Segment)
    (lastSegmentTimeLength bufferLevel index : ℤ) : InFlight :=
  let last := getOrInsert u.segment lastSegment (index - 1)
  let readLast := [Access.lastSegment (lastSegment (index - 1))]
  if last.2.state = .progress then
    let first := getOrInsert u.segment last.1 (index - 2)
    let startTime := if 2 < index then first.2.timestamp else 0
    let readFirst := if 2 < index then [Access.lastSegment (last.1 (index - 2))] else []
    let currentTime := last.2.timestamp
    let proportion : ℚ := last.2.loaded / last.2.total
    let downloadTime :=
      if last.2.total = 0 ∨ last.2.loaded = 0 then u.conversion
      else truncate ((currentTime - startTime) * (1 - proportion) / proportion)
    let timeLength :=
      if index < track.length then
        truncate (1000 * (startTimeAt track u (index + 1) - startTimeAt track u index))
      else lastSegmentTimeLength
    let readTrack :=
      if index < track.length then [Access.segment (index + 1), .segment index] else []
    { lastSegment := if 2 < index then first.1 else last.1
      lastSegmentTimeLength := timeLength
      bufferLevel := bufferLevel + (timeLength - downloadTime)
      accesses := readLast ++ readFirst ++ [.divisor last.2.total, .divisor proportion] ++
        readTrack }
  else
    { lastSegment := last.1
      lastSegmentTimeLength := lastSegmentTimeLength
      bufferLevel := bufferLevel
      accesses := readLast }

section Block

variable {track : List VideoInfo} {u : Undefined} {lastSegment : ℤ → Option Segment}
  {lastSegmentTimeLength bufferLevel index : ℤ} {reported : Segment → Prop}

/-- What the block needs of the report in flight: both divisors, and the length of the segment
to decide, which is not known for the second to last one. -/
def Adjustable (track : List VideoInfo) (index : ℤ) (g : Segment) : Prop :=
  g.total ≠ 0 ∧ g.loaded ≠ 0 ∧ index + 1 ≠ track.length

/-- The reads of the first track. -/
theorem readTrack_wellDefined_iff (h1 : 1 ≤ index) :
    (∀ a ∈ (if index < track.length then [Access.segment (index + 1), .segment index] else []),
        a.WellDefined track reported) ↔ index + 1 ≠ track.length := by
  by_cases hin : index < track.length
  · rw [if_pos hin]
    simp only [List.forall_mem_cons, Access.WellDefined, List.not_mem_nil, false_implies,
      implies_true, and_true]
    omega
  · rw [if_neg hin]
    simp only [List.not_mem_nil, false_implies, implies_true, true_iff]
    omega

/-- The block always reads the report of the segment before. -/
theorem lastSegment_mem_accesses : Access.lastSegment (lastSegment (index - 1)) ∈
    (adjustBuffer track u lastSegment lastSegmentTimeLength bufferLevel index).accesses := by
  unfold adjustBuffer
  dsimp only
  split <;> simp

/-- **When the block is defined.** -/
theorem adjustBuffer_wellDefined_iff (h1 : 1 ≤ index)
    (hfirst : 2 < index → ∃ g, lastSegment (index - 2) = some g ∧ reported g) :
    (∀ a ∈ (adjustBuffer track u lastSegment lastSegmentTimeLength bufferLevel index).accesses,
        a.WellDefined track reported) ↔
      ∃ g, lastSegment (index - 1) = some g ∧ reported g ∧
        (g.state = .progress → Adjustable track index g) := by
  cases hlast : lastSegment (index - 1) with
  | none =>
    -- the first read already creates an entry
    constructor
    · intro h
      obtain ⟨g, hg, -⟩ := h _ lastSegment_mem_accesses
      rw [hlast] at hg
      cases hg
    · rintro ⟨g, hg, -⟩
      cases hg
  | some g =>
    have hsome : (∃ g', some g = some g' ∧ reported g' ∧
        (g'.state = .progress → Adjustable track index g')) ↔
          reported g ∧ (g.state = .progress → Adjustable track index g) := by
      simp
    have hreadLast : Access.WellDefined track reported (.lastSegment (some g)) ↔ reported g := by
      simp [Access.WellDefined]
    rw [hsome]
    unfold adjustBuffer
    rw [getOrInsert_of_some hlast]
    dsimp only
    by_cases hstate : g.state = .progress
    · have hreadFirst : ∀ a ∈ (if 2 < index then [Access.lastSegment (lastSegment (index - 2))]
          else []), a.WellDefined track reported := by
        split
        · next h2 => simpa [Access.WellDefined] using hfirst h2
        · simp
      have hproportion : (g.loaded : ℚ) / g.total ≠ 0 ↔ g.loaded ≠ 0 ∧ g.total ≠ 0 := by
        simp [div_eq_zero_iff]
      rw [if_pos hstate]
      simp only [List.forall_mem_append, readTrack_wellDefined_iff h1, hlast]
      simp only [List.forall_mem_cons, List.not_mem_nil, false_implies, implies_true, and_true,
        hreadLast]
      simp only [Access.WellDefined, hproportion, hstate, Adjustable, Int.cast_ne_zero,
        true_implies]
      constructor
      · rintro ⟨⟨⟨hg, -⟩, htotal, hloaded, -⟩, hlength⟩
        exact ⟨hg, htotal, hloaded, hlength⟩
      · rintro ⟨hg, htotal, hloaded, hlength⟩
        exact ⟨⟨⟨hg, hreadFirst⟩, htotal, hloaded, htotal⟩, hlength⟩
    · rw [if_neg hstate]
      simp only [hlast, List.forall_mem_cons, List.not_mem_nil, false_implies, implies_true,
        and_true, hreadLast, hstate]

/-- The block creates at most the entry of segment 0, if the others it reads are there. -/
theorem adjustBuffer_lastSegment (hlast : index - 1 ≠ 0 → (lastSegment (index - 1)).isSome)
    (hfirst : 2 < index → (lastSegment (index - 2)).isSome) {i : ℤ} (hi : i ≠ 0) :
    (adjustBuffer track u lastSegment lastSegmentTimeLength bufferLevel index).lastSegment i =
      lastSegment i := by
  have hafterLast : ∀ j, j ≠ 0 →
      (getOrInsert u.segment lastSegment (index - 1)).1 j = lastSegment j := by
    intro j hj
    rcases getOrInsert_fst_apply u.segment lastSegment (index - 1) j with h | ⟨rfl, hnone, -⟩
    · exact h
    · have hsome := hlast hj
      rw [hnone] at hsome
      cases hsome
  unfold adjustBuffer
  dsimp only
  split
  · split
    · next h2 =>
      rcases getOrInsert_fst_apply u.segment (getOrInsert u.segment lastSegment (index - 1)).1
        (index - 2) i with h | ⟨rfl, hnone, -⟩
      · exact h.trans (hafterLast i hi)
      · have hsome := hfirst h2
        rw [hafterLast _ hi] at hnone
        rw [hnone] at hsome
        cases hsome
    · exact hafterLast i hi
  · exact hafterLast i hi

end Block

/-! ## Runs that may create the entry of segment 0 -/

namespace SegmentProgressAbr

/-- The two states differ at most in the entry of segment 0. -/
structure Agree (s t : SegmentProgressAbr) : Prop where
  decisions : s.decisions = t.decisions
  aborted : s.aborted = t.aborted
  decisionIndex : s.decisionIndex = t.decisionIndex
  lastTimestamp : s.lastTimestamp = t.lastTimestamp
  lastSegment : ∀ i, i ≠ 0 → s.lastSegment i = t.lastSegment i

variable {s s' t : SegmentProgressAbr}

/-- No decision depends on the entry of segment 0. -/
theorem Agree.shouldSend (h : Agree s t) (index : ℤ) : s.shouldSend index = t.shouldSend index := by
  unfold SegmentProgressAbr.shouldSend
  by_cases h1 : index = 1
  · rw [if_pos h1, if_pos h1]
  · rw [if_neg h1, if_neg h1, h.lastSegment (index - 1) (by omega), h.aborted]

theorem Agree.registerSegment (h : Agree s t) (g : Segment) :
    Agree (s.registerSegment g) (t.registerSegment g) where
  decisions := by simp only [registerSegment_decisions, h.decisions]
  aborted := by simp only [registerSegment_aborted, h.aborted]
  decisionIndex := by simp only [registerSegment_decisionIndex, h.decisionIndex]
  lastTimestamp := by simp only [registerSegment_lastTimestamp, h.lastTimestamp]
  lastSegment := by
    intro i hi
    rw [registerSegment_lastSegment, registerSegment_lastSegment, h.lastSegment i hi]

theorem Agree.registerMetrics (h : Agree s t) (m : Metrics) :
    Agree (s.registerMetrics m) (t.registerMetrics m) :=
  List.foldl_rel h fun g _ _ _ hst => hst.registerSegment g

theorem Agree.registerAbort (h : Agree s t) (index : ℤ) :
    Agree (s.registerAbort index) (t.registerAbort index) :=
  ⟨h.decisions, by simp only [SegmentProgressAbr.registerAbort, h.aborted], h.decisionIndex,
    h.lastTimestamp, h.lastSegment⟩

theorem Agree.decide (h : Agree s t) (q : ℤ → ℤ) : Agree (s.decide q).1 (t.decide q).1 := by
  unfold SegmentProgressAbr.decide newDecision
  dsimp only
  rw [h.decisions, h.decisionIndex, h.shouldSend, h.lastTimestamp]
  split
  · exact ⟨rfl, h.aborted, rfl, rfl, h.lastSegment⟩
  · exact ⟨rfl, h.aborted, rfl, rfl, h.lastSegment⟩

/-- Other entries of segment 0. -/
theorem Agree.of_lastSegment (h : Agree s t) {lastSegment : ℤ → Option Segment}
    (hl : ∀ i, i ≠ 0 → lastSegment i = s.lastSegment i) :
    Agree { s with lastSegment := lastSegment } t :=
  ⟨h.decisions, h.aborted, h.decisionIndex, h.lastTimestamp,
    fun i hi => (hl i hi).trans (h.lastSegment i hi)⟩

/-- The base class part of an object after the calls: apart from the entry of segment 0, what
some calls on the base class with the same reports leave. -/
def Mirrors {μ δ : Type} (calls : List (Call μ δ)) (s : SegmentProgressAbr) : Prop :=
  ∃ ops, Agree s (after ops) ∧
    ∀ m, Op.registerMetrics m ∈ ops → ∃ reading, Call.registerMetrics m reading ∈ calls

section Mirrors

variable {μ δ : Type} {calls : List (Call μ δ)}

theorem mirrors_init : Mirrors ([] : List (Call μ δ)) init :=
  ⟨[], ⟨rfl, rfl, rfl, rfl, fun _ _ => rfl⟩, fun _ h => by cases h⟩

theorem Mirrors.of_lastSegment (h : Mirrors calls s) {lastSegment : ℤ → Option Segment}
    (hl : ∀ i, i ≠ 0 → lastSegment i = s.lastSegment i) :
    Mirrors calls { s with lastSegment := lastSegment } := by
  obtain ⟨ops, hagree, hreports⟩ := h
  exact ⟨ops, hagree.of_lastSegment hl, hreports⟩

/-- One more call, which is one more operation on the base class. -/
theorem Mirrors.concat (h : Mirrors calls s) (op : Op) (call : Call μ δ)
    (hstep : ∀ t, Agree s t → Agree s' (t.step op))
    (hcall : ∀ m, op = .registerMetrics m → ∃ reading, call = .registerMetrics m reading) :
    Mirrors (calls ++ [call]) s' := by
  obtain ⟨ops, hagree, hreports⟩ := h
  refine ⟨ops ++ [op], ?_, ?_⟩
  · rw [after, run_concat]
    exact hstep _ hagree
  · intro m hm
    rcases List.mem_append.mp hm with hold | hnew
    · obtain ⟨reading, hreading⟩ := hreports m hold
      exact ⟨reading, List.mem_append_left _ hreading⟩
    · obtain ⟨reading, rfl⟩ := hcall m (List.mem_singleton.mp hnew).symm
      exact ⟨reading, by simp⟩

/-- The invariant of the base class, for what does not concern segment 0. -/
theorem Mirrors.inv (h : Mirrors calls s) :
    ∃ t, Agree s t ∧ t.Inv := by
  obtain ⟨ops, hagree, -⟩ := h
  exact ⟨after ops, hagree, inv_after ops⟩

theorem Mirrors.one_le (h : Mirrors calls s) : 1 ≤ s.decisionIndex := by
  obtain ⟨t, hagree, hinv⟩ := h.inv
  rw [hagree.decisionIndex]
  exact hinv.one_le

theorem Mirrors.next_undecided (h : Mirrors calls s) : s.decisions s.decisionIndex = none := by
  obtain ⟨t, hagree, hinv⟩ := h.inv
  rw [hagree.decisions, hagree.decisionIndex]
  exact hinv.next_undecided

/-- A call of `decide` that may not send leaves the decisions alone. -/
theorem Mirrors.decide_skip (h : Mirrors calls s) (hsend : s.shouldSend s.decisionIndex = false)
    (q : ℤ → ℤ) :
    (s.decide q).1.decisions = s.decisions ∧ (s.decide q).1.decisionIndex = s.decisionIndex := by
  obtain ⟨t, hagree, hinv⟩ := h.inv
  have hdecide := hagree.decide q
  rw [hagree.shouldSend, hagree.decisionIndex] at hsend
  rcases decide_cases hinv q with ⟨htrue, -⟩ | ⟨-, -, d, -, he⟩
  · rw [hsend] at htrue
    cases htrue
  · rw [he] at hdecide
    exact ⟨hdecide.decisions.trans hagree.decisions.symm,
      hdecide.decisionIndex.trans hagree.decisionIndex.symm⟩

/-- The segment before a decided one, and the one before a segment that may be sent, has a
stored entry, and this is one of the reports. -/
theorem Mirrors.stored (h : Mirrors calls s) {i : ℤ} (hi : 1 ≤ i)
    (hlt : i + 1 < s.decisionIndex ∨ s.shouldSend (i + 1) = true) :
    ∃ g, s.lastSegment i = some g ∧ Received calls g := by
  obtain ⟨ops, hagree, hreports⟩ := h
  have hsome : ((after ops).lastSegment i).isSome := by
    rcases hlt with hdecided | hsend
    · rw [hagree.decisionIndex] at hdecided
      exact stored_of_decided ops hi hdecided
    · rw [hagree.shouldSend] at hsend
      obtain ⟨g, hg, -⟩ := (shouldSend_iff (inv_after ops) hi).mp hsend
      rw [hg]
      rfl
  obtain ⟨g, hg⟩ := Option.isSome_iff_exists.mp hsome
  obtain ⟨m, hm, hmem⟩ := registered_of_stored ops hg
  obtain ⟨reading, hreading⟩ := hreports m hm
  rw [hagree.lastSegment i (by omega)]
  exact ⟨g, hg, m, reading, hreading, hmem⟩

theorem Mirrors.stored_isSome (h : Mirrors calls s) {i : ℤ} (hi : 1 ≤ i)
    (hlt : i + 1 < s.decisionIndex ∨ s.shouldSend (i + 1) = true) : (s.lastSegment i).isSome := by
  obtain ⟨g, hg, -⟩ := h.stored hi hlt
  rw [hg]
  rfl

end Mirrors

end SegmentProgressAbr

end Abr
end LiveStream
