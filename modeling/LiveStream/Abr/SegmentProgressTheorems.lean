import LiveStream.Abr.SegmentProgress

/-!
# `SegmentProgressAbr` over whole runs

Two results about every sequence of `registerMetrics`, `registerAbort` and `decide` calls:

* the decisions form one immutable, gap-free sequence, and each of them is taken on the
  strength of the report stored for the segment before it;
* an abort lets the next decision through exactly when a PROGRESS or DOWNLOADED report of
  the aborted segment was registered: `shouldSend` gives up on a segment without a stored
  report before it looks at the aborts.
-/

namespace LiveStream
namespace Abr
namespace SegmentProgressAbr

open AbrSchema Lib

/-! ## Recorded decisions -/

/-- Every decision recorded in `s` is recorded, unchanged, in `t`. -/
def Extends (s t : SegmentProgressAbr) : Prop :=
  ∀ i d, s.decisions i = some d → t.decisions i = some d

theorem extends_step {s : SegmentProgressAbr} (h : Inv s) (op : Op) : Extends s (s.step op) := by
  intro i d hd
  cases op with
  | registerMetrics m =>
    show (s.registerMetrics m).decisions i = some d
    rw [(registerMetrics_frame s m).1]
    exact hd
  | registerAbort j => exact hd
  | decide q =>
    show (s.decide q).1.decisions i = some d
    rcases decide_cases h q with ⟨-, he⟩ | ⟨-, -, d', -, he⟩
    · rw [he]
      have hi : i ≠ s.decisionIndex := by
        rintro rfl
        rw [h.next_undecided] at hd
        cases hd
      simp only [Function.update_of_ne hi]
      exact hd
    · rw [he]
      exact hd

/-- Recorded decisions survive every further sequence of calls. -/
theorem extends_run {s : SegmentProgressAbr} (h : Inv s) (ops : List Op) :
    Extends s (run step s ops) := by
  refine run_rel (P := Inv) (R := Extends) (fun _ _ _ hd => hd) ?_ (fun _ op ht => ht.step op)
    (fun _ op ht => extends_step ht op) h ops
  intro t u v htu huv i d hd
  exact huv i d (htu i d hd)

/-- The report that lets the decision after segment `i` through. -/
def Ready (s : SegmentProgressAbr) (i : ℤ) : Prop :=
  ∃ g, s.lastSegment i = some g ∧
    (g.state = .downloaded ∨
      (g.state = .progress ∧ reached80 g.loaded g.total = true) ∨
      (g.state = .progress ∧ i ∈ s.aborted))

/-- `shouldSend` spelled out: LOADING reports are never stored. -/
theorem shouldSend_iff {s : SegmentProgressAbr} (h : Inv s) {i : ℤ} (hi : 1 ≤ i) :
    s.shouldSend (i + 1) = true ↔ s.Ready i := by
  have hne : i + 1 ≠ 1 := by omega
  unfold shouldSend Ready
  rw [if_neg hne, add_sub_cancel_right]
  cases hg : s.lastSegment i with
  | none => simp
  | some g =>
    have hload : g.state ≠ .loading := (h.stored i g hg).2
    cases hst : g.state with
    | loading => exact absurd hst hload
    | downloaded => simp [hst]
    | progress =>
      by_cases hr : reached80 g.loaded g.total = true
      · simp [hst, hr]
      · simp [hst, hr]

/-- A call that records decision `i + 1` finds segment `i` ready. -/
theorem ready_of_recorded {s : SegmentProgressAbr} (h : Inv s) {op : Op} {i : ℤ} (hi : 1 ≤ i)
    (hbefore : s.decisions (i + 1) = none) (hafter : (s.step op).decisions (i + 1) ≠ none) :
    s.Ready i := by
  cases op with
  | registerMetrics m =>
    refine absurd ?_ hafter
    show (s.registerMetrics m).decisions (i + 1) = none
    rw [(registerMetrics_frame s m).1]
    exact hbefore
  | registerAbort j => exact absurd hbefore hafter
  | decide q =>
    change (s.decide q).1.decisions (i + 1) ≠ none at hafter
    rcases decide_cases h q with ⟨hs, he⟩ | ⟨-, -, d, -, he⟩
    · by_cases hn : i + 1 = s.decisionIndex
      · rw [← hn] at hs
        exact (shouldSend_iff h hi).mp hs
      · rw [he] at hafter
        simp only [Function.update_of_ne hn] at hafter
        exact absurd hbefore hafter
    · rw [he] at hafter
      exact absurd hbefore hafter

/-- **The decisions form one immutable, gap-free sequence.** After any calls `ops`: exactly
the indices `1 .. decisionIndex - 1` are decided, each under its own index; no further calls
change a recorded decision; a `decide` returns the decision it has just recorded or the
latest recorded one; and a call that records decision `i + 1` finds the stored report of
segment `i` DOWNLOADED, at 80% or more, or in PROGRESS and aborted. -/
theorem decisions_gapFree (ops : List Op) :
    (∀ i, (∃ d, (after ops).decisions i = some d) ↔ 1 ≤ i ∧ i < (after ops).decisionIndex) ∧
    (∀ i d, (after ops).decisions i = some d → d.index = i) ∧
    (∀ more i d, (after ops).decisions i = some d → (after (ops ++ more)).decisions i = some d) ∧
    (∀ q, ((after ops).decisions (after ops).decisionIndex = none ∧
          ((after ops).decide q).1.decisions (after ops).decisionIndex
            = some ((after ops).decide q).2 ∧
          ((after ops).decide q).1.decisionIndex = (after ops).decisionIndex + 1 ∧
          ((after ops).decide q).2
            = ⟨(after ops).decisionIndex, q (after ops).decisionIndex, (after ops).lastTimestamp⟩) ∨
        (((after ops).decide q).1 = after ops ∧
          (after ops).decisions ((after ops).decisionIndex - 1)
            = some ((after ops).decide q).2)) ∧
    (∀ op i, 1 ≤ i → (after ops).decisions (i + 1) = none →
      (after (ops ++ [op])).decisions (i + 1) ≠ none →
      ∃ g, (after ops).lastSegment i = some g ∧
        (g.state = .downloaded ∨
          (g.state = .progress ∧ reached80 g.loaded g.total = true) ∨
          (g.state = .progress ∧ i ∈ (after ops).aborted))) := by
  have hinv := inv_after ops
  refine ⟨?_, hinv.recorded_index, ?_, ?_, ?_⟩
  · intro i
    rw [← Option.isSome_iff_exists]
    exact hinv.recorded_iff i
  · intro more i d hd
    rw [after, run_append]
    exact extends_run hinv more i d hd
  · intro q
    rcases decide_cases hinv q with ⟨-, he⟩ | ⟨-, -, d, hd, he⟩
    · left
      rw [he]
      exact ⟨hinv.next_undecided, Function.update_self .., rfl, rfl⟩
    · right
      rw [he]
      exact ⟨rfl, hd⟩
  · intro op i hi hbefore hafter
    rw [after, run_concat] at hafter
    exact ready_of_recorded hinv hi hbefore hafter

/-! ## Aborts -/

/-- The calls registered a PROGRESS or DOWNLOADED report of segment `i`. -/
def Reported (ops : List Op) (i : ℤ) : Prop :=
  ∃ m, Op.registerMetrics m ∈ ops ∧ ∃ g ∈ m.segments, g.index = i ∧ g.state ≠ .loading

theorem registerSegment_isSome (s : SegmentProgressAbr) (g : Segment) (i : ℤ) :
    ((s.registerSegment g).lastSegment i).isSome ↔
      (s.lastSegment i).isSome ∨ (g.index = i ∧ g.state ≠ .loading) := by
  rw [registerSegment_lastSegment]
  cases hi : s.lastSegment i with
  | none =>
    simp only [supersedes, Option.isSome_none, Bool.false_eq_true, false_or, bne_iff_ne]
    split <;> simp_all
  | some g' =>
    simp only [Option.isSome_some, true_or, iff_true]
    split <;> rfl

theorem registerMetrics_isSome (s : SegmentProgressAbr) (m : Metrics) (i : ℤ) :
    ((s.registerMetrics m).lastSegment i).isSome ↔
      (s.lastSegment i).isSome ∨ ∃ g ∈ m.segments, g.index = i ∧ g.state ≠ .loading := by
  unfold registerMetrics
  induction m.segments generalizing s with
  | nil => simp
  | cons g gs ih =>
    rw [List.foldl_cons, ih, registerSegment_isSome, List.exists_mem_cons_iff, or_assoc]

@[simp] theorem decide_lastSegment (s : SegmentProgressAbr) (q : ℤ → ℤ) :
    (s.decide q).1.lastSegment = s.lastSegment := by
  unfold decide; dsimp only; split <;> rfl

@[simp] theorem decide_aborted (s : SegmentProgressAbr) (q : ℤ → ℤ) :
    (s.decide q).1.aborted = s.aborted := by
  unfold decide; dsimp only; split <;> rfl

/-- A segment has a stored report once one that is not LOADING was registered for it. -/
theorem lastSegment_isSome_iff (ops : List Op) (i : ℤ) :
    ((after ops).lastSegment i).isSome ↔ Reported ops i := by
  induction ops using List.reverseRecOn with
  | nil => simp [after, init, Reported]
  | append_singleton ops op ih =>
    have hsplit : Reported (ops ++ [op]) i ↔ Reported ops i ∨ Reported [op] i := by
      simp only [Reported, List.mem_append, or_and_right, exists_or]
    rw [hsplit, ← ih, after, run_concat, ← after]
    cases op with
    | registerMetrics m =>
      rw [step, registerMetrics_isSome]
      simp [Reported]
    | registerAbort j => simp [step, registerAbort, Reported]
    | decide q => simp [step, Reported]

/-- A report stored after a batch was stored before or came with it. -/
theorem stored_registerMetrics {s : SegmentProgressAbr} {m : Metrics} {i : ℤ} {g : Segment}
    (h : (s.registerMetrics m).lastSegment i = some g) :
    s.lastSegment i = some g ∨ g ∈ m.segments := by
  have hrun : (run registerSegment s m.segments).lastSegment i = some g →
      s.lastSegment i = some g ∨ g ∈ m.segments := by
    refine run_invariant (P := fun t : SegmentProgressAbr => t.lastSegment i = some g → _) Or.inl ?_
    intro t ht g' hg' hstored
    rw [registerSegment_lastSegment] at hstored
    split at hstored
    · rw [← Option.some.inj hstored]
      exact Or.inr hg'
    · exact ht hstored
  exact hrun h

/-- A stored report is one that was registered. -/
theorem registered_of_stored (ops : List Op) {i : ℤ} {g : Segment}
    (h : (after ops).lastSegment i = some g) :
    ∃ m, Op.registerMetrics m ∈ ops ∧ g ∈ m.segments := by
  induction ops using List.reverseRecOn with
  | nil => simp [after, init] at h
  | append_singleton ops op ih =>
    have hbefore : (after ops).lastSegment i = some g →
        ∃ m, Op.registerMetrics m ∈ ops ++ [op] ∧ g ∈ m.segments := by
      intro hstored
      obtain ⟨m, hm, hg⟩ := ih hstored
      exact ⟨m, List.mem_append_left _ hm, hg⟩
    rw [after, run_concat, ← after] at h
    cases op with
    | registerMetrics m =>
      rcases stored_registerMetrics h with hstored | hg
      · exact hbefore hstored
      · exact ⟨m, by simp, hg⟩
    | registerAbort j => exact hbefore h
    | decide q => exact hbefore (by rw [← decide_lastSegment _ q]; exact h)

/-- The segment before a decided one has a stored report. -/
theorem stored_of_decided (ops : List Op) {i : ℤ} (hi : 1 ≤ i)
    (hlt : i + 1 < (after ops).decisionIndex) : ((after ops).lastSegment i).isSome := by
  induction ops using List.reverseRecOn with
  | nil =>
    have hinit : (after []).decisionIndex = 1 := rfl
    omega
  | append_singleton ops op ih =>
    rw [after, run_concat, ← after] at hlt ⊢
    cases op with
    | registerMetrics m =>
      change i + 1 < ((after ops).registerMetrics m).decisionIndex at hlt
      rw [(registerMetrics_frame (after ops) m).2.2] at hlt
      exact (registerMetrics_isSome _ m i).mpr (Or.inl (ih hlt))
    | registerAbort j => exact ih hlt
    | decide q =>
      change i + 1 < ((after ops).decide q).1.decisionIndex at hlt
      show (((after ops).decide q).1.lastSegment i).isSome
      rw [decide_lastSegment]
      rcases decide_cases (inv_after ops) q with ⟨hs, he⟩ | ⟨-, -, d, -, he⟩
      · rw [he] at hlt
        change i + 1 < (after ops).decisionIndex + 1 at hlt
        -- the decision just taken, or one taken before
        by_cases hnew : i + 1 = (after ops).decisionIndex
        · rw [← hnew] at hs
          obtain ⟨g, hg, -⟩ := (shouldSend_iff (inv_after ops) hi).mp hs
          rw [hg]
          rfl
        · exact ih (by omega)
      · rw [he] at hlt
        exact ih hlt

/-- The aborted set is the set of indices passed to `registerAbort`. -/
theorem mem_aborted_iff (ops : List Op) (i : ℤ) :
    i ∈ (after ops).aborted ↔ Op.registerAbort i ∈ ops := by
  induction ops using List.reverseRecOn with
  | nil => simp [after, init]
  | append_singleton ops op ih =>
    rw [List.mem_append, ← ih, after, run_concat, ← after]
    cases op with
    | registerMetrics m =>
      rw [step, (registerMetrics_frame _ m).2.1]
      simp
    | registerAbort j =>
      simp only [step, registerAbort, Finset.mem_insert, List.mem_singleton, Op.registerAbort.injEq]
      exact or_comm
    | decide q => simp [step]

/-- **When an abort unblocks the next decision.** Let segment `i` be decided and aborted and
`i + 1` not yet decided. Then the next `decide` records decision `i + 1` if and only if a
PROGRESS or DOWNLOADED report of segment `i` was registered. -/
theorem abort_unblocks_iff (ops : List Op) (i : ℤ) (habort : Op.registerAbort i ∈ ops)
    (hdecided : (after ops).decisions i ≠ none) (hnext : (after ops).decisions (i + 1) = none) :
    ((after ops).shouldSend (i + 1) = true ∧
      ∀ q, ((after ops).decide q).1.decisions (i + 1)
        = some ⟨i + 1, q (i + 1), (after ops).lastTimestamp⟩) ↔ Reported ops i := by
  have hinv := inv_after ops
  obtain ⟨hi, hlt⟩ := (hinv.recorded_iff i).mp (Option.isSome_iff_ne_none.mpr hdecided)
  -- `i` is the latest decided index, so `i + 1` is the one `decide` is about to take
  have hidx : (after ops).decisionIndex = i + 1 := by
    by_contra hne
    have hsome := (hinv.recorded_iff (i + 1)).mpr ⟨by omega, by omega⟩
    rw [hnext] at hsome
    cases hsome
  rw [← lastSegment_isSome_iff]
  constructor
  · rintro ⟨hs, -⟩
    obtain ⟨g, hg, -⟩ := (shouldSend_iff hinv hi).mp hs
    rw [hg]
    rfl
  · intro hsome
    obtain ⟨g, hg⟩ := Option.isSome_iff_exists.mp hsome
    have hready : (after ops).Ready i := by
      refine ⟨g, hg, ?_⟩
      have hload := (hinv.stored i g hg).2
      have hab := (mem_aborted_iff ops i).mpr habort
      cases hst : g.state with
      | loading => exact absurd hst hload
      | downloaded => exact Or.inl rfl
      | progress => exact Or.inr (Or.inr ⟨rfl, hab⟩)
    have hs := (shouldSend_iff hinv hi).mpr hready
    refine ⟨hs, fun q => ?_⟩
    rw [← hidx] at hs ⊢
    rcases decide_cases hinv q with ⟨-, he⟩ | ⟨hf, -⟩
    · rw [he]
      exact Function.update_self ..
    · rw [hs] at hf
      cases hf

/-- Segment 1 is decided, reported as LOADING and aborted. -/
def loadingThenAbort : List Op :=
  [.decide fun _ => 0,
   .registerMetrics { segments := [{ index := 1, timestamp := 5, state := .loading }] },
   .registerAbort 1]

/-- Once the aborted segment has sent a PROGRESS report, however small, it is unblocked. -/
theorem abort_unblocks_progress :
    let ops := loadingThenAbort ++ [.registerMetrics { segments :=
      [{ index := 1, timestamp := 9, loaded := 1, total := 100, state := .progress }] }]
    (after ops).shouldSend 2 = true ∧
      ∀ q, ((after ops).decide q).1.decisions 2 = some ⟨2, q 2, (after ops).lastTimestamp⟩ :=
  (abort_unblocks_iff _ 1 (by simp [loadingThenAbort])
    (by decide) (by decide)).mpr
    ⟨_, List.mem_append_right _ (List.mem_singleton_self _), _, List.mem_singleton_self _,
      by decide⟩

/-- An abort that overtakes the first PROGRESS report leaves the next decision blocked: the
`decide` that follows records nothing. -/
theorem abort_blocked :
    Op.registerAbort 1 ∈ loadingThenAbort ∧
      (after loadingThenAbort).decisions 1 ≠ none ∧ (after loadingThenAbort).decisions 2 = none ∧
      (after loadingThenAbort).shouldSend 2 = false ∧
      ∀ q, ((after loadingThenAbort).decide q).1.decisions 2 = none := by
  refine ⟨by simp [loadingThenAbort], by decide, by decide, by decide, ?_⟩
  intro q
  rfl

end SegmentProgressAbr
end Abr
end LiveStream
