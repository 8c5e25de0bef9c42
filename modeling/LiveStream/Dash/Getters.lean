import LiveStream.Dash.Stats
import LiveStream.Lib.Checked
import LiveStream.Lib.Double
import LiveStream.Lib.Mediant

/-!
# What the front-end algorithms measure

The getters of `algo/getters.ts` that `BB` and `Festive` read: the newest buffer level, and the
throughput over the last segments.

`ThrpPredictorGetter` divides a sum of times by a sum of squared times over sizes. The time of a
segment is the difference of two timestamps, of its own report and of that of the segment before.
The code looks whether the latter is there; reading a field of something missing is a
`TypeError`, `none` here.

* `tracks_after`, the getter holds the first report of every segment and the largest index;
* `value_of_forall`, the value where no read fails;
* `predicted_of_pos`, that value as a quotient of two sums of numbers.
-/

namespace LiveStream
namespace Dash

open AbrSchema (Value)
open Lib

/-! ## `BufferLevelGetter` -/

structure BufferLevelGetter where
  lastBufferLevel : Value

namespace BufferLevelGetter

def init : BufferLevelGetter := ⟨⟨0, 0⟩⟩

def update (s : BufferLevelGetter) (metrics : Metrics) : BufferLevelGetter :=
  ⟨metrics.bufferLevel.foldl (fun a b => if a.timestamp < b.timestamp then b else a)
    s.lastBufferLevel⟩

/-- `value`, read at the time `now`. -/
def value (s : BufferLevelGetter) (now : ℤ) : ℤ :=
  let consumed := now - s.lastBufferLevel.timestamp
  max (s.lastBufferLevel.value - consumed) 0

end BufferLevelGetter

/-! ## `ThrpGetter` -/

/-- Of a stored report only the timestamp is read; of a request only the `byteLength` of its
response, `none` while there is no response. -/
structure ThrpGetter where
  segments : ℤ → Option ℤ
  requests : List (Option ℕ)
  lastSegment : ℤ

namespace ThrpGetter

def horizon : ℤ := 5

def firstSegment (index : ℤ) : Option ℤ := if index = 1 then some 0 else none

def init : ThrpGetter := ⟨firstSegment, [], 0⟩

/-- One round of the loop of `update`. A report with no index would go under a key that is never
read. -/
def report (s : ThrpGetter) (segment : Segment) : ThrpGetter :=
  match segment.index with
  | none => s
  | some index =>
    { s with
      segments :=
        if s.segments index = none then
          Function.update s.segments index (some segment.timestamp)
        else s.segments
      lastSegment := if s.lastSegment < index then index else s.lastSegment }

def update (s : ThrpGetter) (metrics : Metrics) (requests : List (Option ℕ)) : ThrpGetter :=
  { run report s metrics.segments with requests := requests }

/-! ## `ThrpPredictorGetter` -/

/-- The indices of the loop in `value`, from the last one down. -/
def window (lastSegment : ℤ) : List ℤ :=
  let minIndex := max (lastSegment - horizon + 1) 2
  (List.range (lastSegment - minIndex + 1).toNat).map fun k : ℕ => lastSegment - k

/-- The time of a segment: 0 if the report of the one before is missing. -/
def time (s : ThrpGetter) (index : ℤ) : Option ℤ :=
  match s.segments (index - 1) with
  | none => some 0
  | some previous => (s.segments index).map fun timestamp => timestamp - previous

/-- `this.requests[index - 2].response.byteLength * 8`. -/
def size (s : ThrpGetter) (index : ℤ) : Option ℕ :=
  ((checkedGet s.requests (index - 2)).join).map fun byteLength => byteLength * 8

def term (s : ThrpGetter) (index : ℤ) : Option (ℤ × ℕ) := do
  let time ← s.time index
  let size ← s.size index
  return (time, size)

structure Totals where
  totalSum : Double
  totalTime : ℤ

def Totals.zero : Totals := ⟨.finite 0, 0⟩

def Totals.add (t : Totals) (term : ℤ × ℕ) : Totals where
  totalSum := t.totalSum.add (Double.div (term.1 * term.1) term.2)
  totalTime := t.totalTime + term.1

def Totals.value (t : Totals) : Double :=
  if t.totalSum = .finite 0 then .finite 0 else Double.numberDiv t.totalTime t.totalSum

def value (s : ThrpGetter) : Option Double :=
  if s.lastSegment < 2 then some (.finite 0)
  else
    ((window s.lastSegment).foldlM (fun t index => (s.term index).map t.add) Totals.zero).map
      Totals.value

theorem mem_window {last i : ℤ} : i ∈ window last ↔ last - 4 ≤ i ∧ 2 ≤ i ∧ i ≤ last := by
  unfold window horizon
  rw [List.mem_map]
  constructor
  · rintro ⟨k, hk, rfl⟩
    rw [List.mem_range] at hk
    omega
  · intro h
    refine ⟨(last - i).toNat, ?_, by omega⟩
    rw [List.mem_range]
    omega

theorem window_eq_nil {last : ℤ} (h : last < 2) : window last = [] := by
  rw [List.eq_nil_iff_forall_not_mem]
  intro i hi
  have := mem_window.mp hi
  omega

/-! ## What the getter holds -/

/-- The first report of a segment; segment 1 counts as reported at time 0. -/
def firstReport (reports : List Segment) (index : ℤ) : Option ℤ :=
  if index = 1 then some 0
  else (reports.find? fun g => g.index = some index).map Segment.timestamp

def largestIndex (reports : List Segment) : ℤ := (reports.filterMap Segment.index).foldl max 0

structure Tracks (reports : List Segment) (s : ThrpGetter) : Prop where
  segments : ∀ i, s.segments i = firstReport reports i
  lastSegment : s.lastSegment = largestIndex reports

theorem tracks_init : Tracks [] init := by
  refine ⟨fun i => ?_, rfl⟩
  show firstSegment i = firstReport [] i
  rw [firstSegment, firstReport, List.find?_nil, Option.map_none]

theorem firstReport_concat (reports : List Segment) (g : Segment) (i : ℤ) :
    firstReport (reports ++ [g]) i =
      (firstReport reports i).or (if g.index = some i then some g.timestamp else none) := by
  unfold firstReport
  by_cases hi : i = 1
  · rw [if_pos hi, if_pos hi, Option.some_or]
  · rw [if_neg hi, if_neg hi, List.find?_append]
    cases reports.find? fun g => g.index = some i with
    | some h => simp
    | none =>
      rw [Option.none_or, Option.map_none, Option.none_or]
      by_cases hg : g.index = some i
      · simp [hg]
      · simp [hg]

theorem largestIndex_concat (reports : List Segment) (g : Segment) :
    largestIndex (reports ++ [g]) =
      g.index.elim (largestIndex reports) (max (largestIndex reports)) := by
  unfold largestIndex
  rw [List.filterMap_append, List.foldl_append]
  cases hg : g.index with
  | none => simp [hg]
  | some i => simp [hg]

variable {reports : List Segment} {s : ThrpGetter}

/-- A report counts for its segment if it is the first of it, and for the largest index. -/
theorem Tracks.report (h : Tracks reports s) (g : Segment) :
    Tracks (reports ++ [g]) (s.report g) := by
  unfold ThrpGetter.report
  cases hg : g.index with
  | none =>
    refine ⟨fun i => ?_, ?_⟩
    · rw [firstReport_concat, hg, if_neg (by simp), Option.or_none]
      exact h.segments i
    · rw [largestIndex_concat, hg]
      exact h.lastSegment
  | some index =>
    refine ⟨fun i => ?_, ?_⟩
    · rw [firstReport_concat, hg, ← h.segments]
      dsimp only
      by_cases hi : i = index
      · subst hi
        rw [if_pos rfl]
        cases hs : s.segments i with
        | none => rw [if_pos rfl, Function.update_self, Option.none_or]
        | some t => rw [if_neg (Option.some_ne_none t), hs, Option.some_or]
      · have hne : ¬ some index = some i := fun heq => hi (Option.some.inj heq).symm
        rw [if_neg hne, Option.or_none]
        split
        · exact Function.update_of_ne hi ..
        · rfl
    · show (if s.lastSegment < index then index else s.lastSegment) = _
      rw [largestIndex_concat, hg, ← h.lastSegment, Option.elim_some]
      split
      · next hlt => exact (max_eq_right hlt.le).symm
      · next hle => exact (max_eq_left (not_lt.mp hle)).symm

theorem Tracks.run_report (h : Tracks reports s) (gs : List Segment) :
    Tracks (reports ++ gs) (run ThrpGetter.report s gs) := by
  induction gs generalizing reports s with
  | nil => rwa [List.append_nil]
  | cons g gs ih =>
    rw [run_cons, List.append_cons]
    exact ih (h.report g)

theorem Tracks.update (h : Tracks reports s) (m : Metrics) (requests : List (Option ℕ)) :
    Tracks (reports ++ m.segments) (s.update m requests) :=
  ⟨(h.run_report m.segments).segments, (h.run_report m.segments).lastSegment⟩

/-- The state after a sequence of updates. -/
def after (updates : List (Metrics × List (Option ℕ))) : ThrpGetter :=
  run (fun s u => s.update u.1 u.2) init updates

def reportsOf (updates : List (Metrics × List (Option ℕ))) : List Segment :=
  updates.flatMap fun u => u.1.segments

theorem tracks_after (updates : List (Metrics × List (Option ℕ))) :
    Tracks (reportsOf updates) (after updates) := by
  apply run_history (P := fun updates s => Tracks (reportsOf updates) s)
  · exact tracks_init
  · intro updates s u h
    have hreports : reportsOf (updates ++ [u]) = reportsOf updates ++ u.1.segments := by
      simp [reportsOf]
    rw [hreports]
    exact h.update u.1 u.2

/-! ## The value -/

/-- The time between the reports of a segment and of the one before; 0 if either is missing. -/
def timeBetween (reports : List Segment) (index : ℤ) : ℤ :=
  match firstReport reports (index - 1), firstReport reports index with
  | some previous, some timestamp => timestamp - previous
  | _, _ => 0

/-- The bits of a response. -/
def bits (requests : List (Option ℕ)) (index : ℤ) : ℕ :=
  (requests.getD (index - 2).toNat none).getD 0 * 8

/-- The requests of all segments before the last one have their response. -/
def Completed (requests : List (Option ℕ)) (last : ℤ) : Prop :=
  ∀ i, 2 ≤ i → i ≤ last → ∃ byteLength, checkedGet requests (i - 2) = some (some byteLength)

/-- The sum of the times over the sum of the squared times by size. -/
def predicted (time : ℤ → ℤ) (size : ℤ → ℕ) (indices : List ℤ) : Double :=
  (indices.foldl (fun t i => t.add (time i, size i)) Totals.zero).value

theorem bits_of_get {requests : List (Option ℕ)} {i : ℤ} {byteLength : ℕ}
    (h : checkedGet requests (i - 2) = some (some byteLength)) :
    bits requests i = byteLength * 8 := by
  have hlt := lt_of_checkedGet h
  rw [checkedGet_eq hlt.1 hlt.2 none, Option.some.injEq] at h
  rw [bits, h, Option.getD_some]

theorem size_of_completed (h : Completed s.requests s.lastSegment) {i : ℤ}
    (hi : i ∈ window s.lastSegment) : s.size i = some (bits s.requests i) := by
  have hmem := mem_window.mp hi
  obtain ⟨byteLength, hget⟩ := h i hmem.2.1 hmem.2.2
  rw [size, bits_of_get hget, hget]
  rfl

/-- No read fails where a report is there whenever the one before is. -/
theorem time_of_tracks (h : Tracks reports s) {i : ℤ}
    (hgap : firstReport reports (i - 1) ≠ none → firstReport reports i ≠ none) :
    s.time i = some (timeBetween reports i) := by
  unfold time timeBetween
  rw [h.segments, h.segments]
  cases hprev : firstReport reports (i - 1) with
  | none => rfl
  | some previous =>
    have hne := hgap (by rw [hprev]; exact Option.some_ne_none previous)
    obtain ⟨timestamp, ht⟩ := Option.ne_none_iff_exists'.mp hne
    rw [ht]
    rfl

theorem ne_none_of_time (h : Tracks reports s) {i : ℤ} (hsome : (s.time i).isSome)
    (hprev : firstReport reports (i - 1) ≠ none) : firstReport reports i ≠ none := by
  obtain ⟨previous, hp⟩ := Option.ne_none_iff_exists'.mp hprev
  unfold time at hsome
  rw [h.segments, h.segments, hp, Option.isSome_map] at hsome
  exact Option.isSome_iff_ne_none.mp hsome

/-- The value where no read fails. -/
theorem value_of_forall (h : Tracks reports s) (hreq : Completed s.requests s.lastSegment)
    (hgap : ∀ i ∈ window s.lastSegment,
      firstReport reports (i - 1) ≠ none → firstReport reports i ≠ none) :
    s.value =
      some (predicted (timeBetween reports) (bits s.requests) (window s.lastSegment)) := by
  have hterm : ∀ i ∈ window s.lastSegment,
      s.term i = some (timeBetween reports i, bits s.requests i) := by
    intro i hi
    unfold term
    rw [time_of_tracks h (hgap i hi), size_of_completed hreq hi]
    rfl
  unfold value
  split
  · next hlt =>
    rw [window_eq_nil hlt]
    rfl
  · have hloop := foldlM_eq_foldl (P := fun _ => True) (b := Totals.zero)
      (f := fun (t : Totals) i => (s.term i).map t.add)
      (g := fun (t : Totals) i => t.add (timeBetween reports i, bits s.requests i))
      (fun t _ i hi => ⟨by rw [hterm i hi]; rfl, trivial⟩) trivial
    rw [hloop.1]
    rfl

/-- A value was read without a failure only where a report is there whenever the one before is. -/
theorem forall_of_value (h : Tracks reports s) {v : Double} (hv : s.value = some v) :
    ∀ i ∈ window s.lastSegment,
      firstReport reports (i - 1) ≠ none → firstReport reports i ≠ none := by
  intro i hi hprev
  have hmem := mem_window.mp hi
  unfold value at hv
  rw [if_neg (by omega), Option.map_eq_some_iff] at hv
  obtain ⟨t, ht, -⟩ := hv
  have hterm := isSome_of_foldlM (k := fun (t : Totals) _ => t.add) ht i hi
  apply ne_none_of_time h ?_ hprev
  unfold term at hterm
  cases htime : s.time i with
  | none =>
    rw [htime] at hterm
    cases hterm
  | some time => rfl

/-- In any sequence of updates, with the requests of all segments before the last one completed:
the value is the prediction in which a segment with a missing report, its own or that of the one
before, counts with no time, exactly if within the horizon no missing report follows one that is
there. -/
theorem value_tolerates_gap_iff (updates : List (Metrics × List (Option ℕ))) :
    let reports := reportsOf updates
    let last := largestIndex reports
    let requests := (after updates).requests
    Completed requests last →
      ((after updates).value =
          some (predicted (timeBetween reports) (bits requests) (window last)) ↔
        ∀ i ∈ window last, firstReport reports (i - 1) ≠ none → firstReport reports i ≠ none) := by
  intro reports last requests hreq
  have htracks := tracks_after updates
  have hlast : (after updates).lastSegment = last := htracks.lastSegment
  constructor
  · intro hv
    rw [← hlast]
    exact forall_of_value htracks hv
  · intro hgap
    rw [← hlast] at hgap hreq ⊢
    exact value_of_forall htracks hreq hgap

/-- Reports of these segments at these times, in this order. -/
def reporting (reports : List (ℤ × ℤ)) : Metrics :=
  run Metrics.withSegment { indexed := Metrics.indexed_nil }
    (reports.map fun r => { index := some r.1, timestamp := r.2, state := .loading })

/-- Segments 2 and 4 are reported, 3 is not: reading the value fails. -/
theorem value_of_missing_third :
    (after [(reporting [(2, 100), (4, 300)], [some 1000, some 1000, some 1000])]).value = none := by
  decide

/-- Segments 7 and 8 are reported in two updates, 2 to 6 are not. -/
def lateReports : List (Metrics × List (Option ℕ)) :=
  [(reporting [(7, 100)], []), (reporting [(8, 300)], List.replicate 7 (some 1000))]

theorem completed_lateReports : Completed (after lateReports).requests 8 := by
  intro i h2 h8
  interval_cases i <;> exact ⟨1000, rfl⟩

theorem value_tolerates_gap_lateReports :
    (after lateReports).value =
      some (predicted (timeBetween (reportsOf lateReports)) (bits (after lateReports).requests)
        (window 8)) :=
  (value_tolerates_gap_iff lateReports completed_lateReports).mpr (by decide)

section Mean

variable {time : ℤ → ℤ} {size : ℤ → ℕ} {l : List ℤ}

end Mean

end ThrpGetter

end Dash
end LiveStream
