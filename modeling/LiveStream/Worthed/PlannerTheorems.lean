import LiveStream.Worthed.Planner

/-!
# The exhaustive planner is optimal

Without `stochastic` the random test of `cartesian` never fires, and
`compute_reward_and_quality` goes through all sequences of qualities in lexicographic order.

* `cartesian_eq_words`, the enumeration is complete;
* `computeReward_eq`, on a video with equally long tracks no sequence is read past its end;
* `Behind`, what a larger bandwidth and a larger buffer keep between two simulations;
* `planner_optimal`, the planner returns the best reward, with the first quality of the
  lexicographically first sequence that has it, and that reward grows with the bandwidth and
  the buffer.
-/

namespace LiveStream
namespace Worthed

open Lib WorthedAbrConstants
open Abr (Tables Ladder)

/-! ## The enumeration -/

theorem randProb_lt_one (rand : Draws) (call : ℕ) : randProb rand call < 1 := by
  unfold randProb
  rw [div_lt_one (by positivity)]
  exact_mod_cast (rand call).isLt

/-- With `percent` 1 no sequence is dropped. -/
theorem extendPlan_one (rand : Draws) (out : List (List ℤ) × ℕ) (now : ℤ × List ℤ) :
    extendPlan rand 1 out now = (out.1 ++ [now.1 :: now.2], out.2 + 1) :=
  if_neg (randProb_lt_one rand out.2).not_gt

theorem foldl_extendPlan_one (rand : Draws) (l : List (ℤ × List ℤ)) (out : List (List ℤ) × ℕ) :
    (l.foldl (extendPlan rand 1) out).1 = out.1 ++ l.map fun now => now.1 :: now.2 := by
  induction l generalizing out with
  | nil => simp
  | cons now l ih => rw [List.foldl_cons, ih, extendPlan_one]; simp

/-- **The enumeration.** All sequences, in lexicographic order. -/
theorem cartesian_eq_words (rand : Draws) (max depth call : ℕ) :
    (cartesian rand max depth 1 call).1 = words (letters max) depth := by
  induction depth generalizing call with
  | zero => rfl
  | succ depth ih =>
    rw [cartesian, foldl_extendPlan_one, ih, List.nil_append, words]
    simp only [SProd.sprod, List.product, List.map_flatMap, List.map_map]
    rfl

/-! ## Reads -/

/-- The sequences of `depth` tracks. -/
def Plans (v : Ladder) (depth : ℕ) : Set (List ℤ) :=
  {plan | plan.length = depth ∧ ∀ q ∈ plan, v.IsTrack q}

theorem mem_plans_iff {v : Ladder} {depth : ℕ} {plan : List ℤ} :
    plan ∈ Plans v depth ↔ plan ∈ words (letters v.segments.length) depth := by
  rw [mem_words]
  simp only [mem_letters]
  rfl

section

variable (v : Ladder) (startIndex bandwidth : ℤ)

/-- The loop body of `compute_reward` on a track's segment. -/
def Playback.play (p : Playback) (next : ℤ × ℕ) : Playback :=
  (p.download (downloadTimeMs (v.size next.1 (startIndex + next.2)) bandwidth)).score next.1
    (v.rate next.1) (v.rate p.lastQuality)

/-- The reward of a sequence of tracks inside the video. -/
def planReward (startBuffer currentQuality : ℤ) (plan : List ℤ) : ℚ :=
  (plan.zipIdx.foldl (Playback.play v startIndex bandwidth)
    ⟨0, startBuffer, currentQuality, 0, 0⟩).reward

variable {v startIndex bandwidth}

theorem Playback.chunk_eq (hbandwidth : bandwidth ≠ 0) {p : Playback} {next : ℤ × ℕ}
    (hp : v.IsTrack p.lastQuality) (hq : v.IsTrack next.1) (h0 : 0 ≤ startIndex)
    (hL : startIndex + next.2 < v.length) :
    p.chunk v.toTables startIndex bandwidth next = some (p.play v startIndex bandwidth next) := by
  obtain ⟨htrack, hlen⟩ := Ladder.trackAt_eq hq
  have hinfo := checkedGet_eq (l := v.segments.getD next.1.toNat [])
    (k := startIndex + next.2) (by omega) (by omega) ⟨0, 0, 0⟩
  rw [chunk, htrack, Option.bind_eq_bind, Option.bind_some, if_neg (by omega), hinfo,
    Ladder.rateAt_eq hp, Ladder.rateAt_eq hq]
  simp only [Option.bind_eq_bind, Option.bind_some, if_neg hbandwidth]
  rfl

/-- **No sequence is read past the end of a track.** -/
theorem computeReward_eq (hbandwidth : bandwidth ≠ 0) (h0 : 0 ≤ startIndex) {plan : List ℤ}
    (hplan : ∀ q ∈ plan, v.IsTrack q) (hL : startIndex + plan.length ≤ v.length)
    (startBuffer : ℤ) {currentQuality : ℤ} (hquality : v.IsTrack currentQuality) :
    computeReward v.toTables plan startIndex bandwidth startBuffer currentQuality =
      some (planReward v startIndex bandwidth startBuffer currentQuality plan) := by
  have hloop := foldlM_eq_foldl (l := plan.zipIdx)
    (f := Playback.chunk v.toTables startIndex bandwidth)
    (g := Playback.play v startIndex bandwidth) (P := fun p => v.IsTrack p.lastQuality)
    (b := ⟨0, startBuffer, currentQuality, 0, 0⟩) ?_ hquality
  · rw [computeReward, hloop.1]
    rfl
  · intro p hp next hnext
    have hget : plan[next.2]? = some next.1 := List.mem_zipIdx_iff_getElem?.mp hnext
    have hlt : next.2 < plan.length := (List.getElem?_eq_some_iff.mp hget).1
    have hq : v.IsTrack next.1 := hplan _ (List.mem_of_getElem? hget)
    exact ⟨Playback.chunk_eq hbandwidth hp hq h0 (by omega), hq⟩

end

/-! ## Two simulations -/

/-- The first simulation is not ahead of the second: same chunks so far, at least as much stall
and at most as much buffer. -/
structure Behind (p p' : Playback) : Prop where
  lastQuality : p.lastQuality = p'.lastQuality
  bitrateSum : p.bitrateSum = p'.bitrateSum
  smoothnessDiff : p.smoothnessDiff = p'.smoothnessDiff
  rebuffer : p'.rebuffer ≤ p.rebuffer
  buffer : p.buffer ≤ p'.buffer

theorem Behind.reward {p p' : Playback} (h : Behind p p') : p.reward ≤ p'.reward := by
  have hrebuffer : (p'.rebuffer : ℚ) ≤ p.rebuffer := by exact_mod_cast h.rebuffer
  unfold Playback.reward rebufPenalty
  rw [h.bitrateSum, h.smoothnessDiff]
  linarith

/-- A download that does not take longer. The second simulation stalls only if the first does,
and truncation keeps the order. -/
theorem Behind.download {p p' : Playback} (h : Behind p p') {time time' : ℚ}
    (htime : time' ≤ time) : Behind (p.download time) (p'.download time') := by
  have hbuffer : (p.buffer : ℚ) ≤ p'.buffer := by exact_mod_cast h.buffer
  have hrebuffer : (p'.rebuffer : ℚ) ≤ p.rebuffer := by exact_mod_cast h.rebuffer
  unfold Playback.download
  by_cases hstall : (p.buffer : ℚ) < time
  · have hmore : p.rebuffer ≤ truncate (p.rebuffer + (time - p.buffer)) := le_truncate (by linarith)
    rw [if_pos hstall]
    by_cases hstall' : (p'.buffer : ℚ) < time'
    · rw [if_pos hstall']
      exact ⟨h.lastQuality, h.bitrateSum, h.smoothnessDiff, truncate_mono (by linarith), le_rfl⟩
    · rw [if_neg hstall']
      have hleft : 0 ≤ truncate (p'.buffer - time') := truncate_nonneg (by linarith)
      refine ⟨h.lastQuality, h.bitrateSum, h.smoothnessDiff, h.rebuffer.trans hmore, ?_⟩
      show 0 + segmentSizeMs ≤ truncate (p'.buffer - time') + segmentSizeMs
      omega
  · rw [if_neg hstall, if_neg (by linarith)]
    have hleft : truncate (p.buffer - time) ≤ truncate (p'.buffer - time') :=
      truncate_mono (by linarith)
    refine ⟨h.lastQuality, h.bitrateSum, h.smoothnessDiff, h.rebuffer, ?_⟩
    show truncate (p.buffer - time) + segmentSizeMs ≤ truncate (p'.buffer - time') + segmentSizeMs
    omega

theorem downloadTimeMs_anti (size : ℕ) {bandwidth bandwidth' : ℤ} (hpos : 0 < bandwidth)
    (hle : bandwidth ≤ bandwidth') :
    downloadTimeMs size bandwidth' ≤ downloadTimeMs size bandwidth := by
  have hpos' : (0 : ℚ) < bandwidth := by exact_mod_cast hpos
  have hle' : (bandwidth : ℚ) ≤ bandwidth' := by exact_mod_cast hle
  unfold downloadTimeMs
  gcongr

section

variable {v : Ladder} {startIndex bandwidth bandwidth' startBuffer startBuffer' : ℤ}

/-- **Step lemma.** One chunk, under a larger bandwidth. -/
theorem Behind.play {p p' : Playback} (h : Behind p p') (hpos : 0 < bandwidth)
    (hle : bandwidth ≤ bandwidth') (next : ℤ × ℕ) :
    Behind (p.play v startIndex bandwidth next) (p'.play v startIndex bandwidth' next) := by
  have hdownload := h.download
    (downloadTimeMs_anti (v.size next.1 (startIndex + next.2)) hpos hle)
  unfold Playback.play Playback.score
  refine ⟨rfl, ?_, ?_, hdownload.rebuffer, hdownload.buffer⟩
  · rw [hdownload.bitrateSum]
  · rw [hdownload.smoothnessDiff, h.lastQuality]

/-- **Run lemma.** The reward of one sequence grows with the bandwidth and the buffer. -/
theorem planReward_mono (hpos : 0 < bandwidth) (hle : bandwidth ≤ bandwidth')
    (hbuffer : startBuffer ≤ startBuffer') (currentQuality : ℤ) (plan : List ℤ) :
    planReward v startIndex bandwidth startBuffer currentQuality plan ≤
      planReward v startIndex bandwidth' startBuffer' currentQuality plan := by
  have hstart : Behind ⟨0, startBuffer, currentQuality, 0, 0⟩
      ⟨0, startBuffer', currentQuality, 0, 0⟩ := ⟨rfl, rfl, rfl, le_rfl, hbuffer⟩
  apply Behind.reward
  exact List.foldl_rel hstart fun next _ p p' h => h.play hpos hle next

/-! ## The planner -/

/-- How many segments the exhaustive planner looks ahead. -/
theorem planDepth_eq (v : Ladder) (startIndex : ℤ) :
    planDepth v.toTables startIndex false = min (v.length - startIndex) 5 := by
  rw [planDepth, Ladder.length_firstTrack]
  rfl

/-- The exhaustive planner looks for the first of the best sequences. -/
theorem computeRewardAndQuality_eq (hbandwidth : bandwidth ≠ 0) (h1 : 1 ≤ startIndex)
    (hL : startIndex ≤ v.length) (startBuffer : ℤ) {currentQuality : ℤ}
    (hquality : v.IsTrack currentQuality) (lastDecision : ℤ) (rand : Draws)
    (undefined : List ℤ → WithBot ℚ) :
    ∃ plan, (words (letters v.segments.length) (min (v.length - startIndex) 5).toNat).argmax
        (planReward v startIndex bandwidth startBuffer currentQuality) = some plan ∧
      computeRewardAndQuality v.toTables rand undefined startIndex bandwidth startBuffer
          currentQuality false lastDecision =
        (↑(planReward v startIndex bandwidth startBuffer currentQuality plan),
          plan.headD lastDecision) := by
  set plans := words (letters v.segments.length) (min (v.length - startIndex) 5).toNat
  set reward := planReward v startIndex bandwidth startBuffer currentQuality
  have hdefined : ∀ plan ∈ plans, computeReward v.toTables plan startIndex bandwidth startBuffer
      currentQuality = some (reward plan) := by
    intro plan hplan
    obtain ⟨hlen, htracks⟩ := mem_plans_iff.mpr hplan
    exact computeReward_eq hbandwidth (by omega) htracks (by omega) startBuffer hquality
  have hsome : plans.argmax reward ≠ none := by
    rw [Ne, List.argmax_eq_none]
    apply words_ne_nil
    exact List.ne_nil_of_mem (mem_letters.mpr hquality)
  obtain ⟨plan, hplan⟩ := Option.ne_none_iff_exists'.mp hsome
  refine ⟨plan, hplan, ?_⟩
  have hloop := foldl_improve_eq reward (fun next => next.headD lastDecision) plans 0
  rw [hplan] at hloop
  rw [computeRewardAndQuality, planDepth_eq]
  simp only [Bool.false_eq_true, if_false, cartesian_eq_words]
  refine Eq.trans ?_ hloop
  apply List.foldl_ext
  intro best next hnext
  rw [hdefined next hnext]
  rfl

end

/-- **The exhaustive planner.** It returns the largest reward of a sequence of
`min (L - startIndex) 5` tracks, with the first quality of the lexicographically first such
sequence. No sequence is read past the end of a track. A larger bandwidth or buffer does not
make the reward smaller. -/
theorem planner_optimal (v : Ladder) (startIndex bandwidth startBuffer currentQuality : ℤ)
    (h1 : 1 ≤ startIndex) (hL : startIndex ≤ v.length) (hquality : v.IsTrack currentQuality)
    (hbandwidth : 0 < bandwidth) (lastDecision : ℤ) (rand : Draws)
    (undefined : List ℤ → WithBot ℚ) :
    ∃ plan ∈ Plans v (min (v.length - startIndex) 5).toNat, ∃ best : ℚ,
      computeReward v.toTables plan startIndex bandwidth startBuffer currentQuality = some best ∧
      computeRewardAndQuality v.toTables rand undefined startIndex bandwidth startBuffer
        currentQuality false lastDecision = (↑best, plan.headD lastDecision) ∧
      (∀ plan' ∈ Plans v (min (v.length - startIndex) 5).toNat, ∃ reward,
        computeReward v.toTables plan' startIndex bandwidth startBuffer currentQuality =
          some reward ∧ reward ≤ best ∧ (reward = best → plan ≤ plan')) ∧
      ∀ bandwidth' startBuffer' rand' undefined', bandwidth ≤ bandwidth' →
        startBuffer ≤ startBuffer' →
        ↑best ≤ (computeRewardAndQuality v.toTables rand' undefined' startIndex bandwidth'
          startBuffer' currentQuality false lastDecision).1 := by
  obtain ⟨plan, hargmax, hplanner⟩ := computeRewardAndQuality_eq hbandwidth.ne' h1 hL startBuffer
    hquality lastDecision rand undefined
  obtain ⟨hmem, hmax, -⟩ := List.argmax_eq_some_iff.mp hargmax
  have hdefined : ∀ plan ∈ Plans v (min (v.length - startIndex) 5).toNat,
      computeReward v.toTables plan startIndex bandwidth startBuffer currentQuality =
        some (planReward v startIndex bandwidth startBuffer currentQuality plan) := by
    intro plan hplan
    have hlen := hplan.1
    exact computeReward_eq hbandwidth.ne' (by omega) hplan.2 (by omega) startBuffer hquality
  refine ⟨plan, mem_plans_iff.mpr hmem, _, hdefined plan (mem_plans_iff.mpr hmem), hplanner, ?_, ?_⟩
  · intro plan' hplan'
    refine ⟨_, hdefined plan' hplan', hmax plan' (mem_plans_iff.mp hplan'), ?_⟩
    intro hbest
    exact le_of_argmax (pairwise_lt_words (pairwise_lt_letters _) _) hargmax
      (mem_plans_iff.mp hplan') hbest.ge
  · intro bandwidth' startBuffer' rand' undefined' hle hbuffer'
    obtain ⟨plan', hargmax', hplanner'⟩ := computeRewardAndQuality_eq (by omega : bandwidth' ≠ 0) h1
      hL startBuffer' hquality lastDecision rand' undefined'
    rw [hplanner', WithBot.coe_le_coe]
    -- the best sequence of the first call, played in the second
    calc planReward v startIndex bandwidth startBuffer currentQuality plan
        ≤ planReward v startIndex bandwidth' startBuffer' currentQuality plan :=
          planReward_mono hbandwidth hle hbuffer' currentQuality plan
      _ ≤ planReward v startIndex bandwidth' startBuffer' currentQuality plan' :=
          List.le_of_mem_argmax hmem hargmax'

/-- Two tracks of four segments. -/
def twoTracks : Ladder where
  segments := [[⟨0, 80, 100000⟩, ⟨5, 80, 100000⟩, ⟨10, 70, 150000⟩, ⟨15, 80, 100000⟩],
    [⟨0, 90, 300000⟩, ⟨5, 90, 300000⟩, ⟨10, 85, 450000⟩, ⟨15, 90, 300000⟩]]
  bitrateArray := [300, 750]
  nonempty := by decide
  rates := by decide
  length := 4
  equallyLong := by decide
  rateEach := by decide

/-- The last two segments of the short video, at 1000 and at 2000 kbps. -/
theorem planner_optimal_twoTracks :
    let planner := fun bandwidth => computeRewardAndQuality twoTracks.toTables (fun _ => 0)
      (fun _ => ⊥) 2 bandwidth 4000 0 false 0
    twoTracks.IsTrack 0 ∧
      (∃ plan ∈ Plans twoTracks 2, ∃ best : ℚ,
        computeReward twoTracks.toTables plan 2 1000 4000 0 = some best ∧
          planner 1000 = (↑best, plan.headD 0)) ∧
      (planner 1000).1 ≤ (planner 2000).1 := by
  intro planner
  have htrack : twoTracks.IsTrack 0 := by
    unfold Ladder.IsTrack
    decide
  obtain ⟨plan, hplan, best, hreward, hplanner, -, hmono⟩ := planner_optimal twoTracks 2 1000 4000 0
    (by decide) (by decide) htrack (by decide) 0 (fun _ => 0) fun _ => ⊥
  have hfaster : (planner 1000).1 ≤ (planner 2000).1 := by
    show (computeRewardAndQuality ..).1 ≤ _
    rw [hplanner]
    exact hmono 2000 4000 _ _ (by decide) le_rfl
  exact ⟨htrack, ⟨plan, hplan, best, hreward, hplanner⟩, hfaster⟩

end Worthed
end LiveStream
