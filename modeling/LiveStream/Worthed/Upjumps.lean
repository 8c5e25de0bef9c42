import LiveStream.Worthed.PlannerTheorems
import LiveStream.Worthed.WorthedAbr

/-!
# How `WorthedAbr` limits going up

A decision of `WorthedAbr` goes up by at most one, and after a decision that goes down the ban
is to keep the next two from going up. The ban is set to 2 and counted down before it is looked
at, so it keeps one decision from going up, and the second goes up if the planner asks for it.

* `step_cases`, what a call can do to the decisions and the ban;
* `Inv`, which says of every value of the ban how long ago the quality went down;
* `upjumps_limited_iff`, the bound on one step, and when the ban does what it is for.
-/

namespace LiveStream
namespace Worthed
namespace WorthedAbr

open Lib AbrSchema WorthedAbrConstants
open Abr (Tables Call Undefined SegmentProgressAbr)
open Abr.SegmentProgressAbr (Mirrors mirrors_init)

/-! ## The property -/

/-- The quality decided for a segment. -/
def qualityAt (s : WorthedAbr) (i : ℤ) : ℤ := ((s.base.decisions i).getD Decision.default).quality

/-- The quality goes down at segment `i`. -/
def Drop (v : Tables) (s : WorthedAbr) (i : ℤ) : Prop :=
  3 ≤ i ∧ i ≤ v.firstTrack.length ∧ i < s.base.decisionIndex ∧ s.qualityAt i < s.qualityAt (i - 1)

/-- The quality goes up at segment `i`. -/
def Raise (s : WorthedAbr) (i : ℤ) : Prop :=
  2 ≤ i ∧ i < s.base.decisionIndex ∧ s.qualityAt (i - 1) < s.qualityAt i

/-- The two decisions after one that goes down do not go up. -/
def Banned (v : Tables) (s : WorthedAbr) : Prop :=
  ∀ i, Drop v s i → ¬Raise s (i + 1) ∧ ¬Raise s (i + 2)

/-- A decision inside the video that is taken while the ban is 1 is not asked to go up. -/
def Calm (v : Tables) (s : WorthedAbr) : Call Undefined Readings → Prop
  | .decide e =>
    s.base.shouldSend s.base.decisionIndex = true → 3 ≤ s.base.decisionIndex →
      s.base.decisionIndex ≤ v.firstTrack.length → s.ban = 1 →
        s.plannedQuality v e ≤ s.lastQuality
  | _ => True

instance (v : Tables) (s : WorthedAbr) :
    ∀ call : Call Undefined Readings, Decidable (Calm v s call)
  | .registerMetrics _ _ => isTrue trivial
  | .registerAbort _ => isTrue trivial
  | .decide e =>
    inferInstanceAs (Decidable (s.base.shouldSend s.base.decisionIndex = true →
      3 ≤ s.base.decisionIndex → s.base.decisionIndex ≤ v.firstTrack.length → s.ban = 1 →
        s.plannedQuality v e ≤ s.lastQuality))

/-! ## One decision -/

/-- The four outcomes of the rules on the planner's choice. -/
theorem limitUpjump_cases (ban last quality : ℤ) :
    (quality < last ∧ limitUpjump ban last quality = (2, quality)) ∨
    (quality = last ∧ limitUpjump ban last quality = (ban - 1, last)) ∨
    (last < quality ∧ ban ≤ 1 ∧ limitUpjump ban last quality = (ban - 1, last + 1)) ∨
    (last < quality ∧ 1 < ban ∧ limitUpjump ban last quality = (ban - 1, last)) := by
  unfold limitUpjump segmentsUpjumpBanned
  rcases lt_trichotomy quality last with hdown | hsame | hup
  · refine Or.inl ⟨hdown, ?_⟩
    simp [hdown, hdown.not_gt]
  · refine Or.inr (Or.inl ⟨hsame, ?_⟩)
    simp [hsame]
  · by_cases hban : ban ≤ 1
    · refine Or.inr (Or.inr (Or.inl ⟨hup, hban, ?_⟩))
      simp [hup, hup.le, hban]
    · refine Or.inr (Or.inr (Or.inr ⟨hup, not_le.mp hban, ?_⟩))
      simp [hup, hup.le, hban]

/-- The planner asks for a quality, or for the last decision. -/
theorem plannedQuality_nonneg {v : Tables} {s : WorthedAbr} (h : 0 ≤ s.lastQuality)
    (e : Readings) : 0 ≤ s.plannedQuality v e := by
  unfold plannedQuality computeRewardAndQuality
  simp only [Bool.false_eq_true, if_false, cartesian_eq_words]
  refine run_invariant (P := fun best : WithBot ℚ × ℤ => 0 ≤ best.2) le_rfl ?_
  intro best hbest next hnext
  split
  · cases next with
    | nil => exact h
    | cons q plan =>
      have hq := (mem_words.mp hnext).2 q (List.mem_cons_self ..)
      exact (mem_letters.mp hq).1
  · exact hbest

/-! ## What a call can do -/

/-- The decisions and the ban after a call. -/
inductive Outcome (v : Tables) (s : WorthedAbr) : Call Undefined Readings → WorthedAbr → Prop where
  | kept {call : Call Undefined Readings} {s' : WorthedAbr}
      (hskip : ∀ e, call = .decide e → s.base.shouldSend s.base.decisionIndex = false)
      (hdecisions : s'.base.decisions = s.base.decisions)
      (hindex : s'.base.decisionIndex = s.base.decisionIndex) (hban : s'.ban = s.ban) :
      Outcome v s call s'
  | decided {e : Readings} {s' : WorthedAbr}
      (hsend : s.base.shouldSend s.base.decisionIndex = true)
      (hquality : ∀ i, s'.qualityAt i = if i = s.base.decisionIndex then
        (s.decideQuality v e s.base.decisionIndex).2 else s.qualityAt i)
      (hindex : s'.base.decisionIndex = s.base.decisionIndex + 1)
      (hban : s'.ban = (s.decideQuality v e s.base.decisionIndex).1) :
      Outcome v s (.decide e) s'

variable {v : Tables} {s : WorthedAbr}

theorem step_cases {calls : List (Call Undefined Readings)} (h : Mirrors calls s.base)
    (call : Call Undefined Readings) : Outcome v s call (s.step v call) := by
  cases call with
  | registerMetrics m u =>
    obtain ⟨hban, lastSegment, hbase, -⟩ := adjustCC_frame (s.registerReports m) v u
    have hframe := SegmentProgressAbr.registerMetrics_frame s.base m
    refine .kept (fun _ he => by cases he) ?_ ?_ hban
    · show ((s.registerReports m).adjustCC v u).base.decisions = _
      rw [hbase]
      exact hframe.1
    · show ((s.registerReports m).adjustCC v u).base.decisionIndex = _
      rw [hbase]
      exact hframe.2.2
  | registerAbort i => exact .kept (fun _ he => by cases he) rfl rfl rfl
  | decide e =>
    have hnext := h.next_undecided
    show Outcome v s (.decide e) (s.decide v e).1
    unfold decide
    by_cases hsend : s.base.shouldSend s.base.decisionIndex = true
    · rw [if_pos ⟨hnext, hsend⟩]
      refine .decided hsend ?_ ?_ rfl
      · intro i
        simp only [qualityAt, SegmentProgressAbr.decide, if_pos (And.intro hnext hsend)]
        by_cases hi : i = s.base.decisionIndex
        · rw [if_pos hi, hi, Function.update_self]
          rfl
        · rw [if_neg hi, Function.update_of_ne hi]
      · simp only [SegmentProgressAbr.decide, if_pos (And.intro hnext hsend)]
    · rw [if_neg fun hboth => hsend hboth.2]
      have hfalse := Bool.eq_false_iff.mpr hsend
      obtain ⟨hdecisions, hindex⟩ := h.decide_skip hfalse fun _ => 0
      exact .kept (fun _ _ => hfalse) hdecisions hindex rfl

/-! ## The invariant -/

/-- What every run keeps true. -/
structure Inv (v : Tables) (s : WorthedAbr) : Prop where
  mirrors : ∃ calls : List (Call Undefined Readings), Mirrors calls s.base
  nonneg : ∀ i : ℤ, 1 ≤ i → i < s.base.decisionIndex → 0 ≤ s.qualityAt i
  oneUp : ∀ i : ℤ, 3 ≤ i → i ≤ v.firstTrack.length → i < s.base.decisionIndex →
    s.qualityAt i ≤ s.qualityAt (i - 1) + 1
  ban_le : s.ban ≤ 2
  /-- The ban is 2 right after the quality went down. -/
  ban_two : s.base.decisionIndex - 1 ≤ v.firstTrack.length →
    (s.ban = 2 ↔ Drop v s (s.base.decisionIndex - 1))
  /-- It is 1 one decision later. -/
  ban_one : s.base.decisionIndex - 1 ≤ v.firstTrack.length →
    (s.ban = 1 ↔ ¬Drop v s (s.base.decisionIndex - 1) ∧ Drop v s (s.base.decisionIndex - 2))

theorem inv_init (v : Tables) (timeLength : ℤ) : Inv v (init timeLength) where
  mirrors := ⟨[], mirrors_init⟩
  nonneg := by
    intro i hi hlt
    change i < 1 at hlt
    omega
  oneUp := by
    intro i hi hL hlt
    change i < 1 at hlt
    omega
  ban_le := by
    show (0 : ℤ) ≤ 2
    omega
  ban_two := by
    intro hL
    unfold Drop
    show (0 : ℤ) = 2 ↔ 3 ≤ (1 : ℤ) - 1 ∧ _
    omega
  ban_one := by
    intro hL
    unfold Drop
    show (0 : ℤ) = 1 ↔ _ ∧ 3 ≤ (1 : ℤ) - 2 ∧ _
    omega

section Decided

variable {s' : WorthedAbr} {q : ℤ}
  (hquality : ∀ i, s'.qualityAt i = if i = s.base.decisionIndex then q else s.qualityAt i)
  (hindex : s'.base.decisionIndex = s.base.decisionIndex + 1)
include hquality hindex

theorem drop_of_lt {i : ℤ} (hi : i < s.base.decisionIndex) : Drop v s' i ↔ Drop v s i := by
  unfold Drop
  rw [hquality, hquality, hindex, if_neg (by omega), if_neg (by omega)]
  omega

theorem drop_decided : Drop v s' s.base.decisionIndex ↔ 3 ≤ s.base.decisionIndex ∧
    s.base.decisionIndex ≤ v.firstTrack.length ∧ q < s.lastQuality := by
  unfold Drop
  rw [hquality, hquality, hindex, if_pos rfl, if_neg (by omega)]
  show _ ↔ _ ∧ _ ∧ q < s.qualityAt (s.base.decisionIndex - 1)
  omega

theorem raise_of_lt {i : ℤ} (hi : i < s.base.decisionIndex) : Raise s' i ↔ Raise s i := by
  unfold Raise
  rw [hquality, hquality, hindex, if_neg (by omega), if_neg (by omega)]
  omega

theorem raise_decided : Raise s' s.base.decisionIndex ↔
    2 ≤ s.base.decisionIndex ∧ s.lastQuality < q := by
  unfold Raise
  rw [hquality, hquality, hindex, if_pos rfl, if_neg (by omega)]
  show _ ↔ _ ∧ s.qualityAt (s.base.decisionIndex - 1) < q
  omega

/-- The new decision has to respect a drop one or two segments before. -/
theorem banned_decided : Banned v s' ↔ Banned v s ∧
    (Drop v s (s.base.decisionIndex - 1) ∨ Drop v s (s.base.decisionIndex - 2) →
      q ≤ s.lastQuality) := by
  have hnot : ∀ {t : WorthedAbr} {i : ℤ}, t.base.decisionIndex ≤ i → ¬Raise t i := by
    intro t i hi hraise
    have := hraise.2.1
    omega
  constructor
  · intro h
    constructor
    · intro i hdrop
      have hlt := hdrop.2.2.1
      obtain ⟨h1, h2⟩ := h i ((drop_of_lt hquality hindex hlt).mpr hdrop)
      constructor
      · intro hraise
        exact h1 ((raise_of_lt hquality hindex hraise.2.1).mpr hraise)
      · intro hraise
        exact h2 ((raise_of_lt hquality hindex hraise.2.1).mpr hraise)
    · intro hdrop
      by_contra hup
      have h2 : 2 ≤ s.base.decisionIndex := by
        unfold Drop at hdrop
        omega
      have hraise := (raise_decided hquality hindex).mpr ⟨h2, not_le.mp hup⟩
      rcases hdrop with hdrop | hdrop
      · refine (h _ ((drop_of_lt hquality hindex (by omega)).mpr hdrop)).1 ?_
        rwa [sub_add_cancel]
      · refine (h _ ((drop_of_lt hquality hindex (by omega)).mpr hdrop)).2 ?_
        rwa [sub_add_cancel]
  · rintro ⟨h, hnew⟩ i hdrop
    by_cases hi : i = s.base.decisionIndex
    · exact ⟨hnot (by omega), hnot (by omega)⟩
    · have hlt := hdrop.2.2.1
      have hdrop := (drop_of_lt hquality hindex (by omega)).mp hdrop
      -- a raise after `i` is an old one, or the new decision
      have hraise : ∀ j, Raise s' j → Raise s j ∨
          (j = s.base.decisionIndex ∧ s.lastQuality < q) := by
        intro j hj
        have hjlt := hj.2.1
        by_cases hjnew : j = s.base.decisionIndex
        · rw [hjnew] at hj
          exact Or.inr ⟨hjnew, ((raise_decided hquality hindex).mp hj).2⟩
        · exact Or.inl ((raise_of_lt hquality hindex (by omega)).mp hj)
      constructor
      · intro hj
        rcases hraise _ hj with hold | ⟨hj, hup⟩
        · exact (h i hdrop).1 hold
        · have hdown := hnew (Or.inl (by rwa [← hj, add_sub_cancel_right]))
          omega
      · intro hj
        rcases hraise _ hj with hold | ⟨hj, hup⟩
        · exact (h i hdrop).2 hold
        · have hdown := hnew (Or.inr (by rwa [← hj, add_sub_cancel_right]))
          omega

end Decided

/-- What a decision leaves: outside the video quality 0 and the ban as it was; inside, the
planner's choice and a new ban if it goes down, and else a step up that the ban may hold back. -/
theorem decideQuality_cases (v : Tables) (s : WorthedAbr) (e : Readings) (index : ℤ) :
    ((index ≤ 2 ∨ v.firstTrack.length < index) ∧ s.decideQuality v e index = (s.ban, 0)) ∨
    (3 ≤ index ∧ index ≤ v.firstTrack.length ∧ s.plannedQuality v e < s.lastQuality ∧
      s.decideQuality v e index = (2, s.plannedQuality v e)) ∨
    (3 ≤ index ∧ index ≤ v.firstTrack.length ∧ (s.decideQuality v e index).1 = s.ban - 1 ∧
      s.lastQuality ≤ (s.decideQuality v e index).2 ∧
      (s.decideQuality v e index).2 ≤ s.lastQuality + 1 ∧
      (s.lastQuality < (s.decideQuality v e index).2 ↔
        s.lastQuality < s.plannedQuality v e ∧ s.ban ≤ 1)) := by
  unfold decideQuality
  by_cases hout : index ≤ 2 ∨ v.firstTrack.length < index
  · rw [if_pos hout]
    exact Or.inl ⟨hout, rfl⟩
  · rw [if_neg hout]
    have h3 : 3 ≤ index := by omega
    have hL : index ≤ v.firstTrack.length := by omega
    right
    rcases limitUpjump_cases s.ban s.lastQuality (s.plannedQuality v e) with
      ⟨hdown, he⟩ | ⟨hsame, he⟩ | ⟨hup, hban, he⟩ | ⟨hup, hban, he⟩
    · exact Or.inl ⟨h3, hL, hdown, he⟩
    · rw [he]
      exact Or.inr ⟨h3, hL, rfl, le_rfl, by omega, by omega⟩
    · rw [he]
      exact Or.inr ⟨h3, hL, rfl, by omega, le_rfl, by omega⟩
    · rw [he]
      exact Or.inr ⟨h3, hL, rfl, le_rfl, by omega, by omega⟩

theorem Inv.lastQuality_nonneg (h : Inv v s) (h2 : 2 ≤ s.base.decisionIndex) : 0 ≤ s.lastQuality :=
  h.nonneg (s.base.decisionIndex - 1) (by omega) (by omega)

/-- No decision is for a negative quality. -/
theorem Inv.decideQuality_nonneg (h : Inv v s) (e : Readings) :
    0 ≤ (s.decideQuality v e s.base.decisionIndex).2 := by
  rcases decideQuality_cases v s e s.base.decisionIndex with
    ⟨-, he⟩ | ⟨h3, -, -, he⟩ | ⟨h3, -, -, hlast, -⟩
  · rw [he]
  · rw [he]
    exact plannedQuality_nonneg (h.lastQuality_nonneg (by omega)) e
  · exact (h.lastQuality_nonneg (by omega)).trans hlast

/-- Before the third decision nothing has gone down. -/
theorem Inv.ban_early (h : Inv v s) (h2 : s.base.decisionIndex ≤ 2)
    (hL : s.base.decisionIndex ≤ v.firstTrack.length) : s.ban ≠ 2 ∧ s.ban ≠ 1 := by
  have htwo := h.ban_two (by omega)
  have hone := h.ban_one (by omega)
  unfold Drop at htwo hone
  omega

/-- The ban a decision leaves: 2 if it goes down, and 1 if only the one before did. -/
theorem Inv.ban_decided (h : Inv v s) (e : Readings)
    (hL : s.base.decisionIndex ≤ v.firstTrack.length) :
    ((s.decideQuality v e s.base.decisionIndex).1 = 2 ↔ 3 ≤ s.base.decisionIndex ∧
      (s.decideQuality v e s.base.decisionIndex).2 < s.lastQuality) ∧
    ((s.decideQuality v e s.base.decisionIndex).1 = 1 ↔ ¬(3 ≤ s.base.decisionIndex ∧
      (s.decideQuality v e s.base.decisionIndex).2 < s.lastQuality) ∧ s.ban = 2) := by
  have hle := h.ban_le
  rcases decideQuality_cases v s e s.base.decisionIndex with
    ⟨hout, he⟩ | ⟨h3, -, hdown, he⟩ | ⟨h3, -, hcount, hsame, -⟩
  · have hearly := h.ban_early (by omega) hL
    rw [he]
    omega
  · rw [he]
    omega
  · omega

/-- A call that decides nothing. -/
theorem Inv.kept {s' : WorthedAbr} (h : Inv v s)
    (hmirrors : ∃ calls : List (Call Undefined Readings), Mirrors calls s'.base)
    (hdecisions : s'.base.decisions = s.base.decisions)
    (hindex : s'.base.decisionIndex = s.base.decisionIndex) (hban : s'.ban = s.ban) : Inv v s' := by
  have hquality : s'.qualityAt = s.qualityAt := by
    unfold qualityAt
    rw [hdecisions]
  have hdrop : Drop v s' = Drop v s := by
    unfold Drop
    rw [hquality, hindex]
  refine ⟨hmirrors, ?_, ?_, ?_, ?_, ?_⟩
  · rw [hquality, hindex]
    exact h.nonneg
  · rw [hquality, hindex]
    exact h.oneUp
  · rw [hban]
    exact h.ban_le
  · rw [hban, hdrop, hindex]
    exact h.ban_two
  · rw [hban, hdrop, hindex]
    exact h.ban_one

/-- A call that decides a segment. -/
theorem Inv.decided {s' : WorthedAbr} {e : Readings} (h : Inv v s)
    (hmirrors : ∃ calls : List (Call Undefined Readings), Mirrors calls s'.base)
    (hquality : ∀ i, s'.qualityAt i = if i = s.base.decisionIndex then
      (s.decideQuality v e s.base.decisionIndex).2 else s.qualityAt i)
    (hindex : s'.base.decisionIndex = s.base.decisionIndex + 1)
    (hban : s'.ban = (s.decideQuality v e s.base.decisionIndex).1) : Inv v s' := by
  have hcases := decideQuality_cases v s e s.base.decisionIndex
  have hlast : s.qualityAt (s.base.decisionIndex - 1) = s.lastQuality := rfl
  have hdrop := drop_decided (v := v) hquality hindex
  have hdrop' := drop_of_lt (v := v) hquality hindex (i := s.base.decisionIndex - 1) (by omega)
  have hle := h.ban_le
  refine ⟨hmirrors, ?_, ?_, ?_, ?_, ?_⟩
  · intro i hi hlt
    rw [hquality]
    split
    · exact h.decideQuality_nonneg e
    · exact h.nonneg i hi (by omega)
  · intro i h3 hL hlt
    rw [hquality, hquality, if_neg (by omega : i - 1 ≠ s.base.decisionIndex)]
    split
    · next hi =>
      rw [hi, hlast]
      rcases hcases with ⟨hout, -⟩ | ⟨-, -, hdown, he⟩ | ⟨-, -, -, -, hup, -⟩
      · omega
      · rw [he]
        omega
      · exact hup
    · exact h.oneUp i h3 hL (by omega)
  · rw [hban]
    rcases hcases with ⟨-, he⟩ | ⟨-, -, -, he⟩ | ⟨-, -, hcount, -⟩
    · rw [he]
      exact hle
    · rw [he]
    · omega
  · rw [hindex, add_sub_cancel_right, hdrop, hban]
    intro hL
    rw [(h.ban_decided e hL).1]
    omega
  · rw [hindex, add_sub_cancel_right, hban, show s.base.decisionIndex + 1 - 2 =
      s.base.decisionIndex - 1 by omega, hdrop, hdrop']
    intro hL
    rw [(h.ban_decided e hL).2, ← h.ban_two (by omega)]
    omega

/-- **Step lemma.** Every call keeps the invariant. -/
theorem Inv.step (h : Inv v s) (call : Call Undefined Readings) : Inv v (s.step v call) := by
  obtain ⟨calls, hcalls⟩ := h.mirrors
  have hmirrors : ∃ calls : List (Call Undefined Readings), Mirrors calls (s.step v call).base :=
    ⟨_, mirrors_step hcalls call⟩
  have hcases := step_cases (v := v) hcalls call
  generalize s.step v call = s' at hmirrors hcases ⊢
  cases hcases with
  | kept hskip hdecisions hindex hban => exact h.kept hmirrors hdecisions hindex hban
  | decided hsend hquality hindex hban => exact h.decided hmirrors hquality hindex hban

/-- **Step lemma.** A call keeps the ban respected exactly if it is calm. -/
theorem banned_step_iff (h : Inv v s) (call : Call Undefined Readings) :
    Banned v (s.step v call) ↔ Banned v s ∧ Calm v s call := by
  obtain ⟨calls, hcalls⟩ := h.mirrors
  have hcases := step_cases (v := v) hcalls call
  generalize s.step v call = s' at hcases ⊢
  cases hcases with
  | kept hskip hdecisions hindex hban =>
    have hcalm : Calm v s call := by
      cases call with
      | decide e =>
        intro hsend
        rw [hskip e rfl] at hsend
        cases hsend
      | _ => trivial
    have hsame : Banned v s' ↔ Banned v s := by
      unfold Banned Drop Raise qualityAt
      rw [hdecisions, hindex]
    rw [hsame, and_iff_left hcalm]
  | @decided e s' hsend hquality hindex hban =>
    rw [banned_decided hquality hindex]
    apply and_congr_right
    intro _
    show _ ↔ (_ → _)
    rw [forall_prop_of_true hsend]
    rcases decideQuality_cases v s e s.base.decisionIndex with
      ⟨hout, he⟩ | ⟨h3, hL, hdown, he⟩ | ⟨h3, hL, -, -, -, hup⟩
    · rw [he]
      constructor
      · intro _ h3 hL
        omega
      · intro _ hdrop
        have h3 : 2 ≤ s.base.decisionIndex := by
          unfold Drop at hdrop
          omega
        exact h.lastQuality_nonneg h3
    · rw [he]
      dsimp only
      omega
    · have htwo := h.ban_two (by omega)
      have hone := h.ban_one (by omega)
      have hle := h.ban_le
      rw [← htwo] at hone ⊢
      have hdropped : s.ban = 2 ∨ Drop v s (s.base.decisionIndex - 2) ↔ s.ban = 2 ∨ s.ban = 1 := by
        by_cases hban : s.ban = 2
        · simp [hban]
        · simp only [hban, false_or, hone, not_false_iff, true_and]
      rw [hdropped]
      omega

theorem inv_after (v : Tables) (timeLength : ℤ) (calls : List (Call Undefined Readings)) :
    Inv v (after v timeLength calls) :=
  run_invariant (inv_init v timeLength) fun _ ht call _ => ht.step call

theorem qualityAt_of_decided {i : ℤ} {d : Decision} (hd : s.base.decisions i = some d) :
    s.qualityAt i = d.quality := by
  rw [qualityAt, hd]
  rfl

/-- Exactly the segments below `decisionIndex` are decided. -/
theorem Inv.recorded_iff (h : Inv v s) (i : ℤ) :
    (∃ d, s.base.decisions i = some d) ↔ 1 ≤ i ∧ i < s.base.decisionIndex := by
  obtain ⟨calls, hcalls⟩ := h.mirrors
  obtain ⟨t, hagree, hinv⟩ := hcalls.inv
  rw [hagree.decisions, hagree.decisionIndex, ← hinv.recorded_iff i, Option.isSome_iff_exists]

/-- The property, said of the decisions. -/
theorem Inv.banned_iff (h : Inv v s) : Banned v s ↔
    ∀ (i : ℤ) (d d' : Decision), 3 ≤ i → i ≤ v.firstTrack.length →
      s.base.decisions (i - 1) = some d → s.base.decisions i = some d' → d'.quality < d.quality →
      ∀ j, j = i + 1 ∨ j = i + 2 → ∀ e e', s.base.decisions (j - 1) = some e →
        s.base.decisions j = some e' → e'.quality ≤ e.quality := by
  constructor
  · intro hbanned i d d' h3 hL hd hd' hdown j hj e e' he he'
    have hi := ((h.recorded_iff i).mp ⟨d', hd'⟩).2
    have hjlt := ((h.recorded_iff j).mp ⟨e', he'⟩).2
    rw [← qualityAt_of_decided hd, ← qualityAt_of_decided hd'] at hdown
    obtain ⟨hnext, hsecond⟩ := hbanned i ⟨h3, hL, hi, hdown⟩
    rw [← qualityAt_of_decided he, ← qualityAt_of_decided he']
    by_contra hup
    rcases hj with rfl | rfl
    · exact hnext ⟨by omega, hjlt, by omega⟩
    · exact hsecond ⟨by omega, hjlt, by omega⟩
  · intro hdecisions i hdrop
    obtain ⟨h3, hL, hi, hdown⟩ := hdrop
    obtain ⟨d, hd⟩ := (h.recorded_iff (i - 1)).mpr ⟨by omega, by omega⟩
    obtain ⟨d', hd'⟩ := (h.recorded_iff i).mpr ⟨by omega, hi⟩
    rw [qualityAt_of_decided hd, qualityAt_of_decided hd'] at hdown
    have hafter := hdecisions i d d' h3 hL hd hd' hdown
    have hraise : ∀ j, j = i + 1 ∨ j = i + 2 → ¬Raise s j := by
      intro j hj hraise
      obtain ⟨h2, hjlt, hup⟩ := hraise
      obtain ⟨e, he⟩ := (h.recorded_iff (j - 1)).mpr ⟨by omega, by omega⟩
      obtain ⟨e', he'⟩ := (h.recorded_iff j).mpr ⟨by omega, hjlt⟩
      rw [qualityAt_of_decided he, qualityAt_of_decided he'] at hup
      have := hafter j hj e e' he he'
      omega
    exact ⟨hraise _ (Or.inl rfl), hraise _ (Or.inr rfl)⟩

/-- **Going up.** In every run, a decision inside the video goes up by at most one. After a
decision that goes down none of the next two goes up exactly in the runs whose decisions, when
the ban is 1, are not asked by the planner to go up. -/
theorem upjumps_limited_iff (v : Tables) (timeLength : ℤ)
    (calls : List (Call Undefined Readings)) :
    let s := after v timeLength calls
    (∀ (i : ℤ) (d d' : Decision), 3 ≤ i → i ≤ v.firstTrack.length →
      s.base.decisions (i - 1) = some d → s.base.decisions i = some d' →
      d'.quality ≤ d.quality + 1) ∧
    ((∀ (i : ℤ) (d d' : Decision), 3 ≤ i → i ≤ v.firstTrack.length →
      s.base.decisions (i - 1) = some d → s.base.decisions i = some d' → d'.quality < d.quality →
      ∀ j, j = i + 1 ∨ j = i + 2 → ∀ e e', s.base.decisions (j - 1) = some e →
        s.base.decisions j = some e' → e'.quality ≤ e.quality) ↔
      EveryStep (step v) (Calm v) (init timeLength) calls) := by
  intro s
  have h : Inv v s := inv_after v timeLength calls
  constructor
  · intro i d d' h3 hL hd hd'
    rw [← qualityAt_of_decided hd, ← qualityAt_of_decided hd']
    exact h.oneUp i h3 hL ((h.recorded_iff i).mp ⟨d', hd'⟩).2
  · rw [← h.banned_iff]
    have hinit : Banned v (init timeLength) := by
      intro i hdrop
      have h3 := hdrop.1
      have hlt : i < 1 := hdrop.2.2.1
      omega
    have hall : EveryStep (step v) (fun _ _ => True) (init timeLength) calls :=
      everyStep_of_forall fun _ _ _ => trivial
    have hrun := run_iff_everyStep hall (inv_init v timeLength) (fun _ call ht _ => ht.step call)
      fun _ call ht _ => banned_step_iff ht call
    rw [and_iff_right hinit] at hrun
    exact hrun

/-- Two tracks of eight segments. -/
def eightSegments : Tables where
  segments := [List.replicate 8 ⟨0, 80, 100000⟩, List.replicate 8 ⟨0, 90, 300000⟩]
  bitrateArray := [300, 1200]
  nonempty := by decide
  rates := by decide

/-- A decision at an average bandwidth. -/
def decideAt (bandwidth : ℤ) : Call Undefined Readings := .decide (.atBandwidth bandwidth)

/-- The report that a segment is downloaded. -/
def downloaded (i : ℤ) : Call Undefined Readings :=
  .registerMetrics { segments := [{ index := i, timestamp := i, state := .downloaded }] }
    ⟨0, 0, .loading, ⟨0, 0, 0⟩, 0⟩

/-- The bandwidth breaks down at segment 4 and again at segment 6. -/
def twoBreakdowns : List (Call Undefined Readings) :=
  [decideAt 100000, downloaded 1, decideAt 100000, downloaded 2, decideAt 100000, downloaded 3,
    decideAt 100, downloaded 4, decideAt 100000, downloaded 5, decideAt 100]

/-- None of the two decisions after segment 4 goes up. -/
theorem upjumps_limited_twoBreakdowns :
    let s := after eightSegments 0 twoBreakdowns
    ([3, 4, 5, 6].map fun i => (s.base.decisions i).map Decision.quality) =
        [some 1, some 0, some 0, some 0] ∧
      ∀ d e e', s.base.decisions 3 = some d → s.base.decisions 5 = some e →
        s.base.decisions 6 = some e' → d.quality = 1 → e'.quality ≤ e.quality := by
  intro s
  have hcalm : EveryStep (step eightSegments) (Calm eightSegments) (init 0) twoBreakdowns := by
    decide +kernel
  -- the run is evaluated once
  have hdecided : [3, 4, 5, 6].map s.base.decisions =
      [some ⟨3, 1, 2⟩, some ⟨4, 0, 3⟩, some ⟨5, 0, 4⟩, some ⟨6, 0, 5⟩] := by decide +kernel
  have hdown : s.base.decisions 4 = some ⟨4, 0, 3⟩ := (List.cons.inj (List.cons.inj hdecided).2).1
  refine ⟨congrArg (List.map (Option.map Decision.quality)) hdecided, ?_⟩
  intro d e e' hd he he' hone
  have hdrop : (0 : ℤ) < d.quality := by omega
  exact (upjumps_limited_iff eightSegments 0 twoBreakdowns).2.mpr hcalm 4 d ⟨4, 0, 3⟩ (by decide)
    (by decide) hd hdown hdrop 6 (Or.inr rfl) e e' he he'

/-- The bandwidth breaks down once, at segment 4. The second decision after it goes up. -/
theorem raised_after_one :
    let s := after eightSegments 0 [decideAt 100000, downloaded 1, decideAt 100000, downloaded 2,
      decideAt 100000, downloaded 3, decideAt 100, downloaded 4, decideAt 100000, downloaded 5,
      decideAt 100000]
    eightSegments.firstTrack.length = 8 ∧
      ([3, 4, 5, 6].map fun i => (s.base.decisions i).map Decision.quality) =
        [some 1, some 0, some 0, some 1] := by
  decide +kernel

end WorthedAbr
end Worthed
end LiveStream
