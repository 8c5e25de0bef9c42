import LiveStream.Lib.Newest
import LiveStream.Abr.SegmentProgress

/-!
# What the back-end remembers of a stream of reports

`registerMetrics` keeps one report per segment. Its precedence rules are those of a rank:
DOWNLOADED is final, PROGRESS ranks by its timestamp, and the highest rank is kept. So what
is remembered depends on the set of reports only.

* `run_registerSegment_lastSegment`, the table entry as a `keepMax` fold;
* `registered_eq`, that a covering selection of an unambiguous stream, in any order, leaves
  the same table and the same newest timestamp as the stream itself.
-/

namespace LiveStream
namespace Abr
namespace SegmentProgressAbr

open AbrSchema Lib

/-- PROGRESS reports rank by age, below DOWNLOADED. -/
def rank (g : Segment) : WithTop ℤ :=
  match g.state with
  | .progress => g.timestamp
  | .loading | .downloaded => ⊤

/-- The reports `registerMetrics` looks at for segment `i`. -/
def countsFor (i : ℤ) (g : Segment) : Bool := g.index = i ∧ g.state ≠ .loading

theorem supersedes_some_iff {g stored : Segment} (hg : g.state ≠ .loading)
    (hs : stored.state ≠ .loading) :
    supersedes g (some stored) = true ↔ rank stored < rank g := by
  unfold supersedes rank
  cases hgs : g.state <;> cases hss : stored.state <;> simp_all

/-- One report either leaves the entry of segment `i` or competes for it by rank. -/
theorem registerSegment_lastSegment_eq {s : SegmentProgressAbr} (h : Inv s) (g : Segment) (i : ℤ) :
    (s.registerSegment g).lastSegment i =
      if countsFor i g then keepMax rank (s.lastSegment i) g else s.lastSegment i := by
  rw [registerSegment_lastSegment]
  by_cases hi : g.index = i
  · by_cases hg : g.state = .loading
    · have hno : supersedes g (s.lastSegment i) = false := by
        by_contra hyes
        exact supersedes_not_loading (Bool.eq_true_of_not_eq_false hyes) hg
      simp [countsFor, hg, hno]
    · have hcounts : countsFor i g = true := by simp [countsFor, hi, hg]
      rw [if_pos hcounts]
      cases hstored : s.lastSegment i with
      | none => simp [hi, supersedes, keepMax, keepBy, hg]
      | some stored =>
        have hs := supersedes_some_iff hg (h.stored i stored hstored).2
        simp only [hi, hs, true_and, keepMax, keepBy, decide_eq_true_eq]
  · simp [countsFor, hi]

theorem run_registerSegment_lastSegment {s : SegmentProgressAbr} (h : Inv s) (gs : List Segment)
    (i : ℤ) : (run registerSegment s gs).lastSegment i =
      (gs.filter (countsFor i)).foldl (keepMax rank) (s.lastSegment i) := by
  induction gs generalizing s with
  | nil => rfl
  | cons g gs ih =>
    rw [run_cons, ih (h.registerSegment g), registerSegment_lastSegment_eq h, List.filter_cons]
    split <;> rfl

theorem run_registerSegment_lastTimestamp (s : SegmentProgressAbr) (gs : List Segment) :
    (run registerSegment s gs).lastTimestamp =
      gs.foldl (fun t g => max t g.timestamp) s.lastTimestamp := by
  induction gs generalizing s with
  | nil => rfl
  | cons g gs ih => rw [run_cons, ih, registerSegment_lastTimestamp, List.foldl_cons]

/-! ## Order and repetition do not matter -/

/-- `g'` reports the same state of the same segment, no earlier. -/
def Older (g g' : Segment) : Prop :=
  g'.index = g.index ∧ g'.state = g.state ∧ g.timestamp ≤ g'.timestamp

theorem Older.refl (g : Segment) : Older g g := ⟨rfl, rfl, le_refl _⟩

theorem Older.trans (a b c : Segment) (hab : Older a b) (hbc : Older b c) : Older a c :=
  ⟨hbc.1.trans hab.1, hbc.2.1.trans hab.2.1, hab.2.2.trans hbc.2.2⟩

theorem Older.rank_le (a b : Segment) (h : Older a b) : rank a ≤ rank b := by
  obtain ⟨-, hstate, hle⟩ := h
  unfold rank
  rw [hstate]
  cases a.state <;> simp [hle]

theorem Older.countsFor_eq (i : ℤ) (a b : Segment) (h : Older a b) :
    countsFor i a = countsFor i b := by
  rw [countsFor, countsFor, h.1, h.2.1]

/-- No two reports of a segment compete with equal rank: its DOWNLOADED report is unique,
and a timestamp is that of one PROGRESS report. -/
def Unambiguous (gs : List Segment) : Prop :=
  ∀ g ∈ gs, ∀ g' ∈ gs, g.index = g'.index → g.state = g'.state → g.state ≠ .loading →
    (g.state = .progress → g.timestamp = g'.timestamp) → g = g'

theorem Unambiguous.eq_of_rank_eq {gs : List Segment} (h : Unambiguous gs) (i : ℤ) :
    ∀ a ∈ gs.filter (countsFor i), ∀ b ∈ gs.filter (countsFor i), rank a = rank b → a = b := by
  intro a ha b hb hrank
  obtain ⟨ha, hca⟩ := List.mem_filter.mp ha
  obtain ⟨hb, hcb⟩ := List.mem_filter.mp hb
  simp only [countsFor, decide_eq_true_eq] at hca hcb
  have hstates : a.state = b.state ∧ (a.state = .progress → a.timestamp = b.timestamp) := by
    unfold rank at hrank
    cases has : a.state <;> cases hbs : b.state <;> simp_all
  exact h a ha b hb (hca.1.trans hcb.1.symm) hstates.1 hca.2 hstates.2

/-- **What is remembered is a function of the covered reports.** -/
theorem registered_eq {xs ys : List Segment} (hcov : Covers Older xs ys) (hys : Unambiguous ys) :
    (run registerSegment init xs).lastSegment = (run registerSegment init ys).lastSegment ∧
      (run registerSegment init xs).lastTimestamp =
        (run registerSegment init ys).lastTimestamp := by
  constructor
  · ext1 i
    rw [run_registerSegment_lastSegment inv_init, run_registerSegment_lastSegment inv_init]
    show List.foldl (keepMax rank) none _ = List.foldl (keepMax rank) none _
    exact foldl_keepMax_eq Older.rank_le (hcov.filter (Older.countsFor_eq i)) (hys.eq_of_rank_eq i)
  · rw [run_registerSegment_lastTimestamp, run_registerSegment_lastTimestamp]
    exact foldl_max_eq (fun a b h => h.2.2) hcov _

end SegmentProgressAbr
end Abr
end LiveStream
