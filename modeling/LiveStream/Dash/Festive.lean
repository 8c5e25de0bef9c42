import LiveStream.Dash.Getters
import LiveStream.Dash.QualityController
import LiveStream.Lib.TopDown
import LiveStream.Lib.Window

/-!
# `Festive`

`algo/festive.ts`. The algorithm computes a target quality from the predicted bandwidth and moves
towards it by one: down at once, up only when the target has been above for some decisions in a
row, and either way only if the combined score of the new quality is the smaller one.

A step of a run takes the prediction and the outcome of the score comparison as inputs, so that
what holds in every run does not depend on the scores.

* `settle_cases`, everything a decision can do to the quality and to the counter;
* `Streak.step`, the counter counts the decisions of the current streak;
* `exists_inputs`, the calls of `getDecision` are such runs.
-/

namespace LiveStream
namespace Dash

open Lib

structure Festive where
  bitrateArray : List ℚ
  bandwidth : ThrpGetter
  /-- `none` where there is no entry, or the entry is `undefined`. -/
  qualityLog : ℤ → Option ℚ
  prevQuality : ℕ
  lastIndex : ℤ
  switchUpCount : ℕ

namespace Festive

def diminuationFactor : ℚ := 85 / 100
def alpha : ℚ := 12
def horizon : ℤ := 5
def switchUpThreshold : List ℕ := [0, 1, 2, 3, 4, 5, 6, 7, 8, 9]

def firstLog (index : ℤ) : Option ℚ := if index = 0 then some 0 else none

def init (bitrateArray : List ℚ) : Festive :=
  { bitrateArray := bitrateArray
    bandwidth := ThrpGetter.init
    qualityLog := firstLog
    prevQuality := 0
    lastIndex := 0
    switchUpCount := 0 }

def selectQuality (s : Festive) (bitrate : Double) : ℕ :=
  scanDown (fun i => bitrate.geNumber (s.bitrateArray.getD i 0)) s.bitrateArray.length
    s.bitrateArray.length

/-! ## Scores -/

def getEfficiencyScore (s : Festive) (b bRef : ℕ) (w : Double) : Double :=
  let bitrate := s.bitrateArray.getD b 0
  let reference := s.bitrateArray.getD bRef 0
  let quotient :=
    match w with
    | .finite w => Double.div bitrate (min w reference)
    | .infinite => Double.div bitrate reference
    | .nan => .nan
  quotient.map fun x => |x - 1|

/-- The changes among the last logged bitrates, and one more if `b` is a change. -/
def getStabilityScore (s : Festive) (b bCur : ℕ) : ℚ :=
  let start := max 0 (s.lastIndex + 1 - horizon)
  let logged :=
    if 1 ≤ s.lastIndex then
      ((List.range (s.lastIndex - start).toNat).countP fun k : ℕ =>
        s.qualityLog (start + k) ≠ s.qualityLog (start + k + 1))
    else 0
  let changes := logged + if b ≠ bCur then 1 else 0
  2 ^ changes

def getCombinedScore (s : Festive) (b bRef bCur : ℕ) (w : Double) : Double :=
  (s.getEfficiencyScore b bRef w).map fun efficiency =>
    s.getStabilityScore b bCur + alpha * efficiency

/-! ## Decisions -/

/-- `this.switchUpCount > switchUpThreshold[b_cur]`; false if there is no such threshold. -/
def exceedsThreshold (switchUpCount bCur : ℕ) : Bool :=
  match switchUpThreshold[bCur]? with
  | some threshold => threshold < switchUpCount
  | none => false

/-- The reference quality for a target, and the counter. -/
def reference (bCur switchUpCount bTarget : ℕ) : ℕ × ℕ :=
  if bCur < bTarget then
    (if exceedsThreshold (switchUpCount + 1) bCur then bCur + 1 else bCur, switchUpCount + 1)
  else if bTarget < bCur then (bCur - 1, 0)
  else (bCur, 0)

/-- The delayed update: the quality and the counter, if the comparison of the scores is in favour
of the current quality or not. -/
def settle (bCur switchUpCount bTarget : ℕ) (keepsCurrent : Bool) : ℕ × ℕ :=
  let (bRef, switchUpCount) := reference bCur switchUpCount bTarget
  if bRef ≠ bCur then
    if keepsCurrent then (bCur, switchUpCount)
    else (bRef, if bCur < bRef then 0 else switchUpCount)
  else (bCur, switchUpCount)

def target (s : Festive) (bwPrediction : Double) : ℕ :=
  s.selectQuality (bwPrediction.map fun w => diminuationFactor * w)

/-- `score_cur <= score_ref`. -/
def keepsCurrent (s : Festive) (bwPrediction : Double) : Bool :=
  let bCur := s.prevQuality
  let bRef := (reference bCur s.switchUpCount (s.target bwPrediction)).1
  (s.getCombinedScore bCur bRef bCur bwPrediction).le
    (s.getCombinedScore bRef bRef bCur bwPrediction)

/-- A decision for a segment: the prediction and the outcome of the comparison. -/
structure Input where
  index : ℤ
  bwPrediction : Double
  keepsCurrent : Bool

/-- `getDecision` from the prediction on. -/
def decideWith (s : Festive) (i : Input) : Festive :=
  let bTarget := s.target i.bwPrediction
  let (quality, switchUpCount) := settle s.prevQuality s.switchUpCount bTarget i.keepsCurrent
  { s with
    qualityLog := Function.update s.qualityLog i.index s.bitrateArray[quality]?
    prevQuality := quality
    lastIndex := i.index
    switchUpCount := switchUpCount }

/-- A call of `getDecision`, with the requests made before it. -/
structure Call where
  metrics : Metrics
  requests : List (Option ℕ)
  index : ℤ
  timestamp : ℤ

/-- The object left, and the decision; `none` if reading the prediction throws. -/
def getDecision (s : Festive) (c : Call) : Festive × Option Decision :=
  let s := { s with bandwidth := s.bandwidth.update c.metrics c.requests }
  match s.bandwidth.value with
  | none => (s, none)
  | some bwPrediction =>
    let s := s.decideWith ⟨c.index, bwPrediction, s.keepsCurrent bwPrediction⟩
    (s, some ⟨c.index, some s.prevQuality, some c.timestamp⟩)

/-! ## What a decision can do -/

theorem le_of_exceedsThreshold {count bCur : ℕ} (h : exceedsThreshold (count + 1) bCur = true) :
    bCur ≤ count := by
  unfold exceedsThreshold at h
  split at h
  · next threshold ht =>
    have hsame : threshold = bCur := by
      have hlt := (List.getElem?_eq_some_iff.mp ht).1
      simp only [switchUpThreshold, List.length_cons, List.length_nil] at hlt
      interval_cases bCur <;> exact (Option.some.inj ht).symm
    have := of_decide_eq_true h
    omega
  · cases h

/-- The four things a decision can do, to the quality and to the counter. -/
theorem settle_cases (bCur count bTarget : ℕ) (keepsCurrent : Bool) :
    (bCur < bTarget ∧ bCur ≤ count ∧
      settle bCur count bTarget keepsCurrent = (bCur + 1, 0)) ∨
    (bCur < bTarget ∧ settle bCur count bTarget keepsCurrent = (bCur, count + 1)) ∨
    (bTarget < bCur ∧ settle bCur count bTarget keepsCurrent = (bCur - 1, 0)) ∨
    settle bCur count bTarget keepsCurrent = (bCur, 0) := by
  unfold settle reference
  by_cases hup : bCur < bTarget
  · rw [if_pos hup]
    cases hexceeds : exceedsThreshold (count + 1) bCur with
    | true =>
      cases keepsCurrent with
      | true => simp [hup]
      | false => simp [hup, le_of_exceedsThreshold hexceeds]
    | false => simp [hup]
  · rw [if_neg hup]
    by_cases hdown : bTarget < bCur
    · have hne : bCur - 1 ≠ bCur := by omega
      have hle : ¬ bCur < bCur - 1 := by omega
      rw [if_pos hdown]
      cases keepsCurrent with
      | true => simp [hne]
      | false => simp [hdown, hne, hle]
    · rw [if_neg hdown]
      simp

theorem target_lt {s : Festive} (h : s.bitrateArray ≠ []) (w : Double) :
    s.target w < s.bitrateArray.length := scanDown_lt (List.length_pos_iff.mpr h)

/-- The same for the quality alone: only a target above that had the counter at the quality or
higher raises it. -/
theorem decideWith_prevQuality (s : Festive) (i : Input) :
    (s.prevQuality < s.target i.bwPrediction ∧ s.prevQuality ≤ s.switchUpCount ∧
      (s.decideWith i).prevQuality = s.prevQuality + 1) ∨
    (s.target i.bwPrediction < s.prevQuality ∧
      (s.decideWith i).prevQuality = s.prevQuality - 1) ∨
    (s.decideWith i).prevQuality = s.prevQuality := by
  have hquality : (s.decideWith i).prevQuality = (settle s.prevQuality s.switchUpCount
    (s.target i.bwPrediction) i.keepsCurrent).1 := rfl
  rcases settle_cases s.prevQuality s.switchUpCount (s.target i.bwPrediction) i.keepsCurrent with
    ⟨hup, hcount, heq⟩ | ⟨-, heq⟩ | ⟨hdown, heq⟩ | heq
  · exact Or.inl ⟨hup, hcount, by rw [hquality, heq]⟩
  · exact Or.inr (Or.inr (by rw [hquality, heq]))
  · exact Or.inr (Or.inl ⟨hdown, by rw [hquality, heq]⟩)
  · exact Or.inr (Or.inr (by rw [hquality, heq]))

/-! ## Runs -/

/-- The state after a sequence of decisions. -/
def after (bitrateArray : List ℚ) (inputs : List Input) : Festive :=
  run decideWith (init bitrateArray) inputs

/-- What a decision computed. -/
structure Outcome where
  bTarget : ℕ
  quality : ℕ

/-- The outcomes of a sequence of decisions, in their order. -/
def outcomes (s : Festive) : List Input → List Outcome
  | [] => []
  | i :: inputs =>
    ⟨s.target i.bwPrediction, (s.decideWith i).prevQuality⟩ :: outcomes (s.decideWith i) inputs

theorem outcomes_concat (s : Festive) (inputs : List Input) (i : Input) :
    outcomes s (inputs ++ [i]) = outcomes s inputs ++
      [⟨(run decideWith s inputs).target i.bwPrediction,
        ((run decideWith s inputs).decideWith i).prevQuality⟩] := by
  induction inputs generalizing s with
  | nil => rfl
  | cons j inputs ih =>
    rw [List.cons_append, outcomes, outcomes, ih, List.cons_append]
    rfl

theorem length_outcomes (s : Festive) (inputs : List Input) :
    (outcomes s inputs).length = inputs.length := by
  induction inputs generalizing s with
  | nil => rfl
  | cons i inputs ih => rw [outcomes, List.length_cons, List.length_cons, ih]

/-- The last decisions, as many as the counter says, wanted a higher quality and kept this one. -/
structure Streak (history : List Outcome) (s : Festive) : Prop where
  length : s.switchUpCount ≤ history.length
  waiting : ∀ o ∈ history.rtake s.switchUpCount,
    o.quality = s.prevQuality ∧ s.prevQuality < o.bTarget

theorem Streak.of_zero {history : List Outcome} {s : Festive} (h : s.switchUpCount = 0) :
    Streak history s := by
  refine ⟨by omega, ?_⟩
  rw [h, List.rtake_zero]
  exact fun o ho => absurd ho List.not_mem_nil

/-- A decision joins those that wait for a higher quality, or the count starts anew. -/
theorem Streak.step {history : List Outcome} {s : Festive} (h : Streak history s) (i : Input) :
    Streak (history ++ [⟨s.target i.bwPrediction, (s.decideWith i).prevQuality⟩])
      (s.decideWith i) := by
  have hquality : (s.decideWith i).prevQuality = (settle s.prevQuality s.switchUpCount
    (s.target i.bwPrediction) i.keepsCurrent).1 := rfl
  have hcount : (s.decideWith i).switchUpCount = (settle s.prevQuality s.switchUpCount
    (s.target i.bwPrediction) i.keepsCurrent).2 := rfl
  rcases settle_cases s.prevQuality s.switchUpCount (s.target i.bwPrediction) i.keepsCurrent with
    ⟨-, -, heq⟩ | ⟨hup, heq⟩ | ⟨-, heq⟩ | heq
  · exact Streak.of_zero (by rw [hcount, heq])
  · rw [heq] at hquality hcount
    constructor
    · rw [hcount, List.length_append]
      exact Nat.add_le_add_right h.length 1
    · intro o ho
      rw [hcount, List.rtake_concat_succ, List.mem_append, List.mem_singleton] at ho
      rw [hquality]
      rcases ho with ho | rfl
      · exact h.waiting o ho
      · exact ⟨hquality, hup⟩
  · exact Streak.of_zero (by rw [hcount, heq])
  · exact Streak.of_zero (by rw [hcount, heq])

theorem streak_after (bitrateArray : List ℚ) (inputs : List Input) :
    Streak (outcomes (init bitrateArray) inputs) (after bitrateArray inputs) := by
  induction inputs using List.reverseRecOn with
  | nil => exact Streak.of_zero rfl
  | append_singleton inputs i ih =>
    rw [after, run_concat, outcomes_concat]
    exact ih.step i

theorem after_bitrateArray (bitrateArray : List ℚ) (inputs : List Input) :
    (after bitrateArray inputs).bitrateArray = bitrateArray := by
  have hstep : ∀ (s : Festive) (i : Input), (s.decideWith i).bitrateArray = s.bitrateArray :=
    fun _ _ => rfl
  exact run_frame hstep (init bitrateArray) inputs

theorem after_concat (bitrateArray : List ℚ) (inputs : List Input) (i : Input) :
    after bitrateArray (inputs ++ [i]) = (after bitrateArray inputs).decideWith i :=
  run_concat ..

/-- The quality stays on the ladder. -/
theorem prevQuality_lt {bitrateArray : List ℚ} (hne : bitrateArray ≠ []) (inputs : List Input) :
    (after bitrateArray inputs).prevQuality < bitrateArray.length := by
  induction inputs using List.reverseRecOn with
  | nil => exact List.length_pos_iff.mpr hne
  | append_singleton inputs i ih =>
    rw [after_concat]
    have hladder := after_bitrateArray bitrateArray inputs
    generalize after bitrateArray inputs = s at ih hladder ⊢
    subst hladder
    have htarget := target_lt hne i.bwPrediction
    rcases s.decideWith_prevQuality i with ⟨hup, -, heq⟩ | ⟨-, heq⟩ | heq
    all_goals
      rw [heq]
      omega

/-! ## `getDecision` -/

/-- The decisions returned by a sequence of calls. -/
def decisions (s : Festive) : List Call → List Decision
  | [] => []
  | c :: calls => (s.getDecision c).2.toList ++ decisions (s.getDecision c).1 calls

/-- Decisions do not depend on the getter once the prediction is read. -/
theorem outcomes_withBandwidth (s : Festive) (bandwidth : ThrpGetter) (inputs : List Input) :
    outcomes { s with bandwidth := bandwidth } inputs = outcomes s inputs := by
  induction inputs generalizing s with
  | nil => rfl
  | cons i inputs ih =>
    rw [outcomes, outcomes]
    exact congrArg _ (ih (s.decideWith i))

/-- A call reads a prediction and decides on it, or throws. -/
theorem getDecision_cases (s : Festive) (c : Call) :
    let t := { s with bandwidth := s.bandwidth.update c.metrics c.requests }
    s.getDecision c = (t, none) ∨
      ∃ i : Input, s.getDecision c =
        (t.decideWith i, some ⟨c.index, some (t.decideWith i).prevQuality, some c.timestamp⟩) := by
  intro t
  unfold getDecision
  dsimp only
  split
  · exact Or.inl rfl
  · exact Or.inr ⟨_, rfl⟩

/-- The calls of `getDecision` take decisions on some inputs: the predictions they read, and the
outcomes of their own comparisons. -/
theorem exists_inputs (s : Festive) (calls : List Call) :
    ∃ inputs : List Input, (decisions s calls).map Decision.quality =
      (outcomes s inputs).map fun o => some (o.quality : ℤ) := by
  induction calls generalizing s with
  | nil => exact ⟨[], rfl⟩
  | cons c calls ih =>
    obtain ⟨inputs, hinputs⟩ := ih (s.getDecision c).1
    rw [decisions]
    rcases s.getDecision_cases c with heq | ⟨i, heq⟩
    · rw [heq] at hinputs ⊢
      rw [outcomes_withBandwidth] at hinputs
      exact ⟨inputs, hinputs⟩
    · rw [heq] at hinputs ⊢
      refine ⟨i :: inputs, ?_⟩
      rw [← outcomes_withBandwidth s (s.bandwidth.update c.metrics c.requests), outcomes,
        Option.toList_some, List.singleton_append, List.map_cons, List.map_cons, hinputs]

/-- Whatever the predictions and the outcomes of the comparisons: every quality is on the ladder
and next to the one before, and a decision that raises it from `k` comes after at least `k`
decisions for `k` in a row, all of them and itself with a target above. The decisions of
`getDecision` are of this kind. -/
theorem decisions_climb_slowly (bitrateArray : List ℚ) :
    (after bitrateArray []).prevQuality = 0 ∧
    (∀ (inputs : List Input) (i : Input),
      let s := after bitrateArray inputs
      let k := s.prevQuality
      let quality := (after bitrateArray (inputs ++ [i])).prevQuality
      (bitrateArray ≠ [] → quality < bitrateArray.length) ∧
      quality ≤ k + 1 ∧ k ≤ quality + 1 ∧
      (quality = k + 1 →
        k < s.target i.bwPrediction ∧ k ≤ inputs.length ∧
        ∀ o ∈ (outcomes (init bitrateArray) inputs).rtake k, o.quality = k ∧ k < o.bTarget)) ∧
    ∀ calls : List Call, ∃ inputs : List Input,
      (decisions (init bitrateArray) calls).map Decision.quality =
        (outcomes (init bitrateArray) inputs).map fun o => some (o.quality : ℤ) := by
  refine ⟨rfl, ?_, exists_inputs (init bitrateArray)⟩
  intro inputs i s k quality
  have hstreak := streak_after bitrateArray inputs
  have hquality : quality = (s.decideWith i).prevQuality := by
    show (after bitrateArray (inputs ++ [i])).prevQuality = _
    rw [after_concat]
  refine ⟨fun hne => prevQuality_lt hne (inputs ++ [i]), ?_⟩
  rcases s.decideWith_prevQuality i with ⟨hup, hcount, heq⟩ | ⟨-, heq⟩ | heq
  · rw [hquality, heq]
    refine ⟨le_rfl, by omega, fun _ => ⟨hup, ?_, ?_⟩⟩
    · have hlength : (outcomes (init bitrateArray) inputs).length = inputs.length :=
        length_outcomes ..
      exact hlength ▸ hcount.trans hstreak.length
    · intro o ho
      exact hstreak.waiting o (mem_rtake_of_le hcount ho)
  · rw [hquality, heq]
    exact ⟨by omega, by omega, fun h => by omega⟩
  · rw [hquality, heq]
    exact ⟨by omega, by omega, fun h => by omega⟩

/-- A prediction above the ladder, and a comparison in favour of the reference. -/
def plenty (index : ℤ) : Input := ⟨index, .finite 2000, false⟩

/-- The third of three such decisions raises the quality to 2, after one that had kept it at 1. -/
theorem decisions_climb_slowly_to_two :
    let inputs := [plenty 1, plenty 2]
    (after [300, 750, 1200] inputs).prevQuality = 1 ∧
      (after [300, 750, 1200] (inputs ++ [plenty 3])).prevQuality = 2 ∧
      ∀ o ∈ (outcomes (init [300, 750, 1200]) inputs).rtake 1, o.quality = 1 ∧ 1 < o.bTarget := by
  have hone : (after [300, 750, 1200] [plenty 1, plenty 2]).prevQuality = 1 := by decide +kernel
  have htwo : (after [300, 750, 1200] ([plenty 1, plenty 2] ++ [plenty 3])).prevQuality = 2 := by
    decide +kernel
  have hclimb := (decisions_climb_slowly [300, 750, 1200]).2.1 [plenty 1, plenty 2] (plenty 3)
  dsimp only at hclimb
  rw [hone, htwo] at hclimb
  exact ⟨hone, htwo, (hclimb.2.2.2 rfl).2.2⟩

end Festive

end Dash
end LiveStream
