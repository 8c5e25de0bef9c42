import LiveStream.Abr.Schema

/-!
# `SegmentProgressAbr`: one decision after the other

The base class of the server-side algorithms. It keeps the newest report of each segment,
the set of aborted segments and the decisions taken so far, and asks the subclass for the
quality of segment `decisionIndex` once the previous segment is (nearly) downloaded.

`decide` calls the virtual `decideQuality` of the subclass. The subclass has a state of its
own, so a call of `decide` carries the function `decideQuality` is at that moment; nothing
is assumed of it.

* `registerSegment_lastSegment`, the one equation later proofs use for `registerMetrics`;
* `decide_cases`, the two things a call of `decide` can do;
* `Inv`, the invariant tying `decisionIndex`, `decisions` and `lastSegment`, and
  `inv_run`, that every sequence of calls keeps it.
-/

namespace LiveStream
namespace Abr

open AbrSchema Lib

/-- The protected members of the class that its own methods use. -/
structure SegmentProgressAbr where
  lastSegment : ℤ → Option Segment
  decisions : ℤ → Option Decision
  aborted : Finset ℤ
  decisionIndex : ℤ
  lastTimestamp : ℤ

namespace SegmentProgressAbr

/-- The state the constructor leaves. -/
def init : SegmentProgressAbr where
  lastSegment := fun _ => none
  decisions := fun _ => none
  aborted := ∅
  decisionIndex := 1
  lastTimestamp := 0

/-! ## The methods -/

def updateSegment (s : SegmentProgressAbr) (segment : Segment) : SegmentProgressAbr :=
  { s with lastSegment := Function.update s.lastSegment segment.index (some segment) }

def registerAbort (s : SegmentProgressAbr) (index : ℤ) : SegmentProgressAbr :=
  { s with aborted := insert index s.aborted }

/-- Whether a stored report gives way to a new one: a first DOWNLOADED replaces PROGRESS,
and PROGRESS replaces only older PROGRESS. -/
def supersedes (segment : Segment) : Option Segment → Bool
  | none => segment.state != .loading
  | some stored =>
    match segment.state with
    | .loading => false
    | .downloaded => stored.state == .progress
    | .progress => stored.state == .progress && decide (stored.timestamp < segment.timestamp)

/-- The loop body of `registerMetrics`. -/
def registerSegment (s : SegmentProgressAbr) (segment : Segment) : SegmentProgressAbr :=
  let stamped := { s with lastTimestamp := max s.lastTimestamp segment.timestamp }
  if supersedes segment (s.lastSegment segment.index) then stamped.updateSegment segment
  else stamped

def registerMetrics (s : SegmentProgressAbr) (metrics : Metrics) : SegmentProgressAbr :=
  metrics.segments.foldl registerSegment s

/-- `1.0 * loaded / total >= 0.8`. A zero `total` divides to an infinity of the sign of
`loaded`, or to NaN, which compares false. -/
def reached80 (loaded total : ℤ) : Bool :=
  if total = 0 then 0 < loaded else (4 / 5 : ℚ) ≤ loaded / total

def shouldSend (s : SegmentProgressAbr) (index : ℤ) : Bool :=
  if index = 1 then true
  else
    match s.lastSegment (index - 1) with
    -- no stats from previous segment
    | none => false
    | some segment =>
      -- segment has already been downloaded or loaded
      if segment.state ≠ .progress then true
      -- segment has been downloaded more than 80%
      else if reached80 segment.loaded segment.total then true
      else if index - 1 ∈ s.aborted then true
      else false

/-- The decision a recording call of `decide` makes. -/
def newDecision (s : SegmentProgressAbr) (decideQuality : ℤ → ℤ) : Decision :=
  ⟨s.decisionIndex, decideQuality s.decisionIndex, s.lastTimestamp⟩

/-- `decide()`: the state left behind and the decision returned. -/
def decide (s : SegmentProgressAbr) (decideQuality : ℤ → ℤ) : SegmentProgressAbr × Decision :=
  let toDecide := s.decisionIndex
  if s.decisions toDecide = none ∧ s.shouldSend toDecide then
    ({ s with
        decisions := Function.update s.decisions toDecide (some (s.newDecision decideQuality))
        decisionIndex := toDecide + 1 },
      s.newDecision decideQuality)
  else
    -- the subscript would insert a default decision here if none were stored
    let r := getOrInsert Decision.default s.decisions (toDecide - 1)
    ({ s with decisions := r.1 }, r.2)

/-! ## Sequences of calls -/

/-- A call on the interface. -/
inductive Op where
  | registerMetrics (metrics : Metrics)
  | registerAbort (index : ℤ)
  | decide (decideQuality : ℤ → ℤ)

def step (s : SegmentProgressAbr) : Op → SegmentProgressAbr
  | .registerMetrics metrics => s.registerMetrics metrics
  | .registerAbort index => s.registerAbort index
  | .decide decideQuality => (s.decide decideQuality).1

/-- The state after a sequence of calls from the constructor on. -/
def after (ops : List Op) : SegmentProgressAbr := run step init ops

/-! ## What the single calls do -/

@[simp] theorem registerSegment_decisions (s : SegmentProgressAbr) (g : Segment) :
    (s.registerSegment g).decisions = s.decisions := by
  unfold registerSegment; dsimp only; split <;> rfl

@[simp] theorem registerSegment_aborted (s : SegmentProgressAbr) (g : Segment) :
    (s.registerSegment g).aborted = s.aborted := by
  unfold registerSegment; dsimp only; split <;> rfl

@[simp] theorem registerSegment_decisionIndex (s : SegmentProgressAbr) (g : Segment) :
    (s.registerSegment g).decisionIndex = s.decisionIndex := by
  unfold registerSegment; dsimp only; split <;> rfl

@[simp] theorem registerSegment_lastTimestamp (s : SegmentProgressAbr) (g : Segment) :
    (s.registerSegment g).lastTimestamp = max s.lastTimestamp g.timestamp := by
  unfold registerSegment; dsimp only; split <;> rfl

/-- A report touches only the entry of its own segment, and only by superseding it. -/
theorem registerSegment_lastSegment (s : SegmentProgressAbr) (g : Segment) (i : ℤ) :
    (s.registerSegment g).lastSegment i =
      if g.index = i ∧ supersedes g (s.lastSegment i) then some g else s.lastSegment i := by
  unfold registerSegment
  dsimp only
  by_cases hi : g.index = i
  · subst hi
    split
    · next hs => simp [updateSegment, hs]
    · next hs => simp [hs]
  · have hother : ¬(g.index = i ∧ supersedes g (s.lastSegment i) = true) := fun h => hi h.1
    rw [if_neg hother]
    split
    · exact Function.update_of_ne (Ne.symm hi) _ _
    · rfl

/-- The fields a batch of reports leaves alone. -/
theorem registerMetrics_frame (s : SegmentProgressAbr) (m : Metrics) :
    (s.registerMetrics m).decisions = s.decisions ∧
      (s.registerMetrics m).aborted = s.aborted ∧
      (s.registerMetrics m).decisionIndex = s.decisionIndex := by
  unfold registerMetrics
  induction m.segments generalizing s with
  | nil => exact ⟨rfl, rfl, rfl⟩
  | cons g gs ih =>
    obtain ⟨h₁, h₂, h₃⟩ := ih (s.registerSegment g)
    simp only [registerSegment_decisions, registerSegment_aborted,
      registerSegment_decisionIndex] at h₁ h₂ h₃
    exact ⟨h₁, h₂, h₃⟩

/-- A report that is stored is not a LOADING one. -/
theorem supersedes_not_loading {g : Segment} {o : Option Segment} (h : supersedes g o = true) :
    g.state ≠ .loading := by
  intro hg
  cases o <;> simp [supersedes, hg] at h

/-! ## The invariant -/

/-- What every sequence of calls keeps true. -/
structure Inv (s : SegmentProgressAbr) : Prop where
  /-- Decisions are taken from segment 1 on. -/
  one_le : 1 ≤ s.decisionIndex
  /-- Exactly the indices below `decisionIndex` are decided. -/
  recorded_iff : ∀ i, (s.decisions i).isSome ↔ 1 ≤ i ∧ i < s.decisionIndex
  /-- A decision is stored under its own index. -/
  recorded_index : ∀ i d, s.decisions i = some d → d.index = i
  /-- A stored report is about its own segment and never a LOADING one. -/
  stored : ∀ i g, s.lastSegment i = some g → g.index = i ∧ g.state ≠ .loading

theorem inv_init : Inv init where
  one_le := le_refl 1
  recorded_iff := by
    intro i
    simp only [init, Option.isSome_none, Bool.false_eq_true, false_iff]
    omega
  recorded_index := by intro i d h; simp [init] at h
  stored := by intro i g h; simp [init] at h

theorem Inv.registerSegment {s : SegmentProgressAbr} (h : Inv s) (g : Segment) :
    Inv (s.registerSegment g) where
  one_le := by rw [registerSegment_decisionIndex]; exact h.one_le
  recorded_iff := by
    intro i
    rw [registerSegment_decisions, registerSegment_decisionIndex]
    exact h.recorded_iff i
  recorded_index := by
    intro i d
    rw [registerSegment_decisions]
    exact h.recorded_index i d
  stored := by
    intro i g' hg'
    rw [registerSegment_lastSegment] at hg'
    split at hg'
    · next hc =>
      cases hg'
      exact ⟨hc.1, supersedes_not_loading hc.2⟩
    · exact h.stored i g' hg'

theorem Inv.registerMetrics {s : SegmentProgressAbr} (h : Inv s) (m : Metrics) :
    Inv (s.registerMetrics m) := by
  show Inv (run SegmentProgressAbr.registerSegment s m.segments)
  exact run_invariant h fun t ht g _ => ht.registerSegment g

theorem Inv.registerAbort {s : SegmentProgressAbr} (h : Inv s) (index : ℤ) :
    Inv (s.registerAbort index) :=
  ⟨h.one_le, h.recorded_iff, h.recorded_index, h.stored⟩

/-- Index `decisionIndex` itself is undecided. -/
theorem Inv.next_undecided {s : SegmentProgressAbr} (h : Inv s) :
    s.decisions s.decisionIndex = none := by
  by_contra hne
  have hsome := (h.recorded_iff s.decisionIndex).mp (Option.isSome_iff_ne_none.mpr hne)
  omega

/-- Past the first decision there is a latest recorded one. -/
theorem Inv.latest {s : SegmentProgressAbr} (h : Inv s) (h2 : 2 ≤ s.decisionIndex) :
    ∃ d, s.decisions (s.decisionIndex - 1) = some d :=
  Option.isSome_iff_exists.mp ((h.recorded_iff _).mpr ⟨by omega, by omega⟩)

/-- **What `decide` can do.** Either it records the decision for `decisionIndex` and returns
it, or it changes nothing and returns the latest recorded decision. -/
theorem decide_cases {s : SegmentProgressAbr} (h : Inv s) (q : ℤ → ℤ) :
    (s.shouldSend s.decisionIndex = true ∧ s.decide q =
        ({ s with
            decisions := Function.update s.decisions s.decisionIndex (some (s.newDecision q))
            decisionIndex := s.decisionIndex + 1 }, s.newDecision q)) ∨
    (s.shouldSend s.decisionIndex = false ∧ 2 ≤ s.decisionIndex ∧
      ∃ d, s.decisions (s.decisionIndex - 1) = some d ∧ s.decide q = (s, d)) := by
  by_cases hs : s.shouldSend s.decisionIndex = true
  · left
    refine ⟨hs, ?_⟩
    unfold decide
    rw [if_pos ⟨h.next_undecided, hs⟩]
  · right
    rw [Bool.not_eq_true] at hs
    -- segment 1 is always sent, so the subscript below never meets an empty table
    have h2 : 2 ≤ s.decisionIndex := by
      have h1 := h.one_le
      have hne : s.decisionIndex ≠ 1 := by
        intro h1
        rw [shouldSend, if_pos h1] at hs
        cases hs
      omega
    obtain ⟨d, hd⟩ := h.latest h2
    refine ⟨hs, h2, d, hd, ?_⟩
    unfold decide
    rw [if_neg (by simp [hs])]
    simp only [getOrInsert_of_some hd]

theorem Inv.decide {s : SegmentProgressAbr} (h : Inv s) (q : ℤ → ℤ) : Inv (s.decide q).1 := by
  rcases decide_cases h q with ⟨-, he⟩ | ⟨-, -, d, -, he⟩
  · rw [he]
    have h1 := h.one_le
    refine ⟨by simp only; omega, ?_, ?_, h.stored⟩
    · intro i
      by_cases hi : i = s.decisionIndex
      · subst hi
        simp only [Function.update_self, Option.isSome_some, true_iff]
        omega
      · simp only [Function.update_of_ne hi]
        rw [h.recorded_iff i]
        omega
    · intro i d hd
      by_cases hi : i = s.decisionIndex
      · subst hi
        simp only [Function.update_self, Option.some.injEq] at hd
        rw [← hd]
        rfl
      · simp only [Function.update_of_ne hi] at hd
        exact h.recorded_index i d hd
  · rw [he]
    exact h

theorem Inv.step {s : SegmentProgressAbr} (h : Inv s) (op : Op) : Inv (s.step op) := by
  cases op with
  | registerMetrics m => exact h.registerMetrics m
  | registerAbort i => exact h.registerAbort i
  | decide q => exact h.decide q

/-- Every sequence of calls keeps the invariant. -/
theorem inv_run {s : SegmentProgressAbr} (h : Inv s) (ops : List Op) : Inv (run step s ops) :=
  run_invariant h fun _ ht op _ => ht.step op

theorem inv_after (ops : List Op) : Inv (after ops) := inv_run inv_init ops

end SegmentProgressAbr

end Abr
end LiveStream
