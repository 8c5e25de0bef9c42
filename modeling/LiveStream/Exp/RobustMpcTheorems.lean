import LiveStream.Exp.RobustMpc
import LiveStream.Lib.Playout
import LiveStream.Lib.Window
import LiveStream.Video.ConfigTheorems

/-!
# When RobustMPC decides the first step of an optimal plan

A plan has a quality for each of the next five chunks, or for those that are left. The running
maximum of the loop starts at 0, so a plan is found only if its reward is positive. The loop also
takes one chunk too few at the end of the video: it cuts the sequences to `M - index` chunks, and
from chunk `index` to the last one, `M`, there is one more.

* `reward_foldl_advance`, the loop computes the stall time of a player;
* `after_spec`, no request of a history raises an exception;
* `decision_optimal_iff`, when the decision is the first quality of an optimal plan.
-/

namespace LiveStream
namespace Exp

open Lib MpcConstants
open Video

variable {vmaf : VmafJson}

/-! ## The reward of a plan -/

/-- Bitrates, minus the penalty for the time a player waits, minus changes of the bitrate. -/
def rewardOf (startBuffer futureBandwidth : ℚ) (chunks : List MpcChunk) : ℚ :=
  ((chunks.map MpcChunk.bitRate).sum : ℤ) / mInK
    - rebufPenalty * stallTime startBuffer
        (chunks.map fun chunk => (chunk.downloadTime futureBandwidth, chunk.time))
    - ((chunks.map fun chunk => |chunk.bitRate - chunk.lastBitRate|).sum : ℤ) / mInK

/-- The loop from any state: what it adds is the reward of a player with that buffer. -/
theorem reward_foldl_advance_from (futureBandwidth : ℚ) (s : MpcSimulation)
    (chunks : List MpcChunk) :
    (chunks.foldl (MpcSimulation.advance futureBandwidth) s).reward =
      s.reward + rewardOf s.currBuffer futureBandwidth chunks := by
  induction chunks generalizing s with
  | nil => simp [rewardOf, stallTime]
  | cons chunk chunks ih =>
    rw [List.foldl_cons, ih]
    simp only [rewardOf, MpcSimulation.reward, MpcSimulation.advance, List.map_cons,
      List.sum_cons, stallTime, Int.cast_add]
    by_cases hstall : s.currBuffer < chunk.downloadTime futureBandwidth
    · simp only [hstall, ↓reduceIte, zero_add]
      ring
    · simp only [hstall, ↓reduceIte]
      ring

theorem reward_foldl_advance (startBuffer futureBandwidth : ℚ) (chunks : List MpcChunk) :
    (chunks.foldl (MpcSimulation.advance futureBandwidth)
      (MpcSimulation.start startBuffer)).reward = rewardOf startBuffer futureBandwidth chunks := by
  rw [reward_foldl_advance_from]
  simp [MpcSimulation.start, MpcSimulation.reward]

/-! ## No exceptions -/

section Defined

/-- The last chunk of the video, `get_video_chunks`. -/
def lastChunk (vmaf : VmafJson) : ℕ := vmaf.segments - 1

/-- A sequence of qualities of the video. -/
def IsCombo (vmaf : VmafJson) (combo : List ℕ) : Prop := ∀ q ∈ combo, q < vmaf.tracks.length

instance (vmaf : VmafJson) (combo : List ℕ) : Decidable (IsCombo vmaf combo) :=
  inferInstanceAs (Decidable (∀ q ∈ combo, q < vmaf.tracks.length))

theorem exists_readMpcChunks (hM : 1 ≤ lastChunk vmaf) {lastQuality : ℕ} {combo : List ℕ}
    (hlast : lastQuality < vmaf.tracks.length) (hcombo : IsCombo vmaf combo) (index : ℤ) :
    ∃ chunks, readMpcChunks (exportConfig vmaf) lastQuality combo index = some chunks := by
  induction combo generalizing lastQuality index with
  | nil => exact ⟨[], rfl⟩
  | cons q combo ih =>
    rw [IsCombo, List.forall_mem_cons] at hcombo
    obtain ⟨chunks, hchunks⟩ := ih hcombo.1 hcombo.2 (index + 1)
    obtain ⟨size, hsize⟩ : ∃ size, Video.getChunkSize (exportConfig vmaf) q index = some size :=
      Video.exists_getField_quality VideoInfo.size hcombo.1 hM index
    obtain ⟨time, htime⟩ := exists_getChunkTime hcombo.1 hM index
    obtain ⟨rate, hrate⟩ := exists_getVideoBitRate hcombo.1
    obtain ⟨lastRate, hlastRate⟩ := exists_getVideoBitRate hlast
    refine ⟨⟨size, time, rate, lastRate⟩ :: chunks, ?_⟩
    simp only [readMpcChunks, readMpcChunk, hsize, htime, hrate, hlastRate, hchunks,
      Option.bind_eq_bind, Option.bind_some]

/-- What the reader finds for a sequence. -/
def chunksAlong (vmaf : VmafJson) (lastQuality : ℕ) (index : ℤ) (combo : List ℕ) :
    List MpcChunk :=
  (readMpcChunks (exportConfig vmaf) lastQuality combo index).getD []

/-- The reward of a sequence from a chunk on. -/
def planReward (vmaf : VmafJson) (lastQuality : ℕ) (index : ℤ) (startBuffer futureBandwidth : ℚ)
    (combo : List ℕ) : ℚ :=
  rewardOf startBuffer futureBandwidth (chunksAlong vmaf lastQuality index combo)

theorem exists_simulateCombo (hM : 1 ≤ lastChunk vmaf) {lastQuality : ℕ} {combo : List ℕ}
    (hlast : lastQuality < vmaf.tracks.length) (hcombo : IsCombo vmaf combo) (index : ℤ)
    (startBuffer futureBandwidth : ℚ) :
    ∃ s, simulateCombo (exportConfig vmaf) lastQuality index startBuffer futureBandwidth combo =
        some s ∧
      s.reward = planReward vmaf lastQuality index startBuffer futureBandwidth combo := by
  obtain ⟨chunks, hchunks⟩ := exists_readMpcChunks hM hlast hcombo index
  refine ⟨_, by rw [simulateCombo, hchunks, Option.map_some], ?_⟩
  rw [reward_foldl_advance, planReward, chunksAlong, hchunks, Option.getD_some]

end Defined

/-! ## The decision -/

section Decision

variable {lastQuality : ℕ} {index : ℤ} {startBuffer futureBandwidth : ℚ}

/-- A sequence as the loop cuts it. -/
def cut (vmaf : VmafJson) (index : ℤ) (fullCombo : List ℕ) : List ℕ :=
  sliceTo fullCombo (min (lastChunk vmaf - index) horizon)

theorem isCombo_cut {fullCombo : List ℕ} (h : IsCombo vmaf fullCombo) (index : ℤ) :
    IsCombo vmaf (cut vmaf index fullCombo) := by
  intro q hq
  apply h q
  rw [cut, sliceTo] at hq
  split at hq
  · exact List.mem_of_mem_take hq
  · exact List.mem_of_mem_take hq

theorem mem_fullCombos {fullCombo : List ℕ} :
    fullCombo ∈ words (List.range vmaf.tracks.length) horizon ↔
      fullCombo.length = horizon ∧ IsCombo vmaf fullCombo := by
  simp only [mem_words, List.mem_range, IsCombo]

/-- What the inner loop finds for a full sequence. -/
def simulatedCut (vmaf : VmafJson) (lastQuality : ℕ) (index : ℤ) (startBuffer futureBandwidth : ℚ)
    (fullCombo : List ℕ) : MpcSimulation :=
  (simulateCombo (exportConfig vmaf) lastQuality index startBuffer futureBandwidth
    (cut vmaf index fullCombo)).getD (MpcSimulation.start startBuffer)

theorem simulateCombo_cut (hM : 1 ≤ lastChunk vmaf) (hlast : lastQuality < vmaf.tracks.length)
    {fullCombo : List ℕ} (hcombo : IsCombo vmaf fullCombo) :
    simulateCombo (exportConfig vmaf) lastQuality index startBuffer futureBandwidth
        (cut vmaf index fullCombo) =
      some (simulatedCut vmaf lastQuality index startBuffer futureBandwidth fullCombo) ∧
    (simulatedCut vmaf lastQuality index startBuffer futureBandwidth fullCombo).reward =
      planReward vmaf lastQuality index startBuffer futureBandwidth (cut vmaf index fullCombo) := by
  obtain ⟨s, hs, hreward⟩ := exists_simulateCombo hM hlast (isCombo_cut hcombo index) index
    startBuffer futureBandwidth
  rw [simulatedCut, hs, Option.getD_some]
  exact ⟨rfl, hreward⟩

/-- The loop is the search from a reward of 0. -/
theorem bestRate_eq (vmaf : VmafJson) (lastQuality : ℕ) (index : ℤ)
    (startBuffer futureBandwidth : ℚ) :
    bestRate (exportConfig vmaf) lastQuality index startBuffer futureBandwidth =
      (searchM (fun fullCombo => simulateCombo (exportConfig vmaf) lastQuality index startBuffer
          futureBandwidth (cut vmaf index fullCombo))
        MpcSimulation.reward (fun fullCombo _ => (cut vmaf index fullCombo).headD 0) (0, 0)
        (words (List.range vmaf.tracks.length) horizon)).map Prod.snd := by
  rw [bestRate, getVideoChunks_exportConfig, getNbrVideoBitRate_exportConfig, Option.map_eq_bind]
  rfl

/-- With a positive reward, the decision is the first quality of a best cut sequence. -/
theorem bestRate_of_pos (hM : 1 ≤ lastChunk vmaf) (hlast : lastQuality < vmaf.tracks.length)
    (hpos : ∃ full ∈ words (List.range vmaf.tracks.length) horizon,
      0 < planReward vmaf lastQuality index startBuffer futureBandwidth (cut vmaf index full)) :
    ∃ full ∈ words (List.range vmaf.tracks.length) horizon,
      (∀ other ∈ words (List.range vmaf.tracks.length) horizon,
        planReward vmaf lastQuality index startBuffer futureBandwidth (cut vmaf index other) ≤
          planReward vmaf lastQuality index startBuffer futureBandwidth (cut vmaf index full)) ∧
      bestRate (exportConfig vmaf) lastQuality index startBuffer futureBandwidth =
        some ((cut vmaf index full).headD 0) := by
  have hsim := fun full hfull => @simulateCombo_cut vmaf lastQuality index startBuffer
    futureBandwidth hM hlast full (mem_fullCombos.mp hfull).2
  have hbeats : ∃ full ∈ words (List.range vmaf.tracks.length) horizon,
      0 < (simulatedCut vmaf lastQuality index startBuffer futureBandwidth full).reward := by
    obtain ⟨full, hfull, hlt⟩ := hpos
    exact ⟨full, hfull, by rw [(hsim full hfull).2]; exact hlt⟩
  obtain ⟨full, hfull, -, hbest, -, hloop⟩ :=
    searchM_of_lt (fun full _ => (cut vmaf index full).headD 0) 0
      (fun full hfull => (hsim full hfull).1) hbeats
  refine ⟨full, hfull, ?_, by rw [bestRate_eq, hloop]; rfl⟩
  intro other hother
  rw [← (hsim other hother).2, ← (hsim full hfull).2]
  exact hbest other hother

/-- Without one, it is quality 0. -/
theorem bestRate_of_nonpos (hM : 1 ≤ lastChunk vmaf) (hlast : lastQuality < vmaf.tracks.length)
    (hneg : ∀ full ∈ words (List.range vmaf.tracks.length) horizon,
      planReward vmaf lastQuality index startBuffer futureBandwidth (cut vmaf index full) ≤ 0) :
    bestRate (exportConfig vmaf) lastQuality index startBuffer futureBandwidth = some 0 := by
  have hsim := fun full hfull => @simulateCombo_cut vmaf lastQuality index startBuffer
    futureBandwidth hM hlast full (mem_fullCombos.mp hfull).2
  rw [bestRate_eq, searchM_of_le _ 0 (fun full hfull => (hsim full hfull).1)
    fun full hfull => by rw [(hsim full hfull).2]; exact hneg full hfull]
  rfl

/-- The decision is a quality of the video. -/
theorem exists_bestRate (hM : 1 ≤ lastChunk vmaf) (hlast : lastQuality < vmaf.tracks.length)
    (index : ℤ) (startBuffer futureBandwidth : ℚ) :
    ∃ q < vmaf.tracks.length,
      bestRate (exportConfig vmaf) lastQuality index startBuffer futureBandwidth = some q := by
  have hzero : 0 < vmaf.tracks.length := List.length_pos_iff.mpr vmaf.nonempty
  by_cases hpos : ∃ full ∈ words (List.range vmaf.tracks.length) horizon,
      0 < planReward vmaf lastQuality index startBuffer futureBandwidth (cut vmaf index full)
  · obtain ⟨full, hfull, -, hq⟩ := bestRate_of_pos hM hlast hpos
    refine ⟨_, ?_, hq⟩
    have hcut := isCombo_cut (mem_fullCombos.mp hfull).2 index
    cases hc : cut vmaf index full with
    | nil => exact hzero
    | cons q rest =>
      apply hcut
      rw [hc]
      exact List.mem_cons_self ..
  · have hneg : ∀ full ∈ words (List.range vmaf.tracks.length) horizon,
        planReward vmaf lastQuality index startBuffer futureBandwidth (cut vmaf index full) ≤ 0 :=
      fun full hfull => not_lt.mp fun hlt => hpos ⟨full, hfull, hlt⟩
    exact ⟨0, hzero, bestRate_of_nonpos hM hlast hneg⟩

end Decision

/-! ## Histories -/

/-- What holds between requests. -/
structure RobustMpc.Valid (vmaf : VmafJson) (m : RobustMpc) : Prop where
  quality : m.lastQuality < vmaf.tracks.length
  bandwidths : ∀ b ∈ m.bandwidths, 0 < b
  errors : ∀ e ∈ m.pastErrors, 0 ≤ e

theorem pastError_nonneg (ests : List ℚ) {bandwidth : ℚ} (h : 0 < bandwidth) :
    0 ≤ pastError ests bandwidth := by
  rw [pastError]
  split
  · exact le_rfl
  · positivity

theorem MpcRequest.measuredBandwidth_pos (json : MpcRequest) : 0 < json.measuredBandwidth :=
  lt_max_of_lt_right (by norm_num [minBwEstMbps])

theorem harmonicMean_of_pos {data : List ℚ} (hne : data ≠ []) (h : ∀ x ∈ data, 0 < x) :
    harmonicMean data = some (data.length / (data.map (·⁻¹)).sum) := by
  have hnonneg : ¬(data = [] ∨ ∃ x ∈ data, x < 0) := by
    rintro (hnil | ⟨x, hx, hlt⟩)
    · exact hne hnil
    · exact lt_asymm hlt (h x hx)
  have hzero : (0 : ℚ) ∉ data := fun h0 => lt_irrefl _ (h 0 h0)
  rw [harmonicMean, if_neg hnonneg, if_neg hzero]

namespace RobustMpc

variable {m : RobustMpc}

/-- A measurement keeps the bandwidths positive and the errors nonnegative. -/
theorem exists_estimate (hm : m.Valid vmaf) {bandwidth : ℚ} (hb : 0 < bandwidth) :
    ∃ est, m.estimate bandwidth = some est ∧ (∀ b ∈ est.bandwidths, 0 < b) ∧
      ∀ e ∈ est.pastErrors, 0 ≤ e := by
  set bandwidths := m.bandwidths ++ [bandwidth] with hbandwidths
  set pastErrors := m.pastErrors ++ [pastError m.pastBandwidthEsts bandwidth] with hpastErrors
  have hpos : ∀ b ∈ bandwidths, 0 < b := by
    rw [hbandwidths, List.forall_mem_append, List.forall_mem_singleton]
    exact ⟨hm.bandwidths, hb⟩
  have hnonneg : ∀ e ∈ pastErrors, 0 ≤ e := by
    rw [hpastErrors, List.forall_mem_append, List.forall_mem_singleton]
    exact ⟨hm.errors, pastError_nonneg _ hb⟩
  have hmean := @harmonicMean_of_pos (bandwidths.rtake horizon)
    (List.length_pos_iff.mp (length_rtake_pos (by decide) (by simp [hbandwidths])))
    fun b hb => hpos b (List.mem_of_mem_drop hb)
  obtain ⟨maxError, hmax⟩ : ∃ e, (pastErrors.rtake horizon).max? = some e := by
    apply Option.ne_none_iff_exists'.mp
    rw [Ne, List.max?_eq_none_iff]
    exact List.length_pos_iff.mp (length_rtake_pos (by decide) (by simp [hpastErrors]))
  have hmaxError : 0 ≤ maxError := hnonneg _ (List.mem_of_mem_drop (List.max?_mem hmax))
  have hdiv : ∀ x : ℚ, checkedDiv x (1 + maxError) = some (x / (1 + maxError)) := by
    intro x
    rw [checkedDiv, if_neg (by positivity)]
  set mean := (bandwidths.rtake horizon).length / ((bandwidths.rtake horizon).map (·⁻¹)).sum
  refine ⟨⟨bandwidths, pastErrors, mean, max (mean / (1 + maxError)) minBwEstMbps⟩, ?_, hpos,
    hnonneg⟩
  rw [estimate, ← hbandwidths, ← hpastErrors, hmean, hmax, Option.bind_eq_bind, Option.bind_some,
    Option.bind_some, hdiv]
  rfl

/-- A request is answered, from an estimate that exists. -/
theorem process_spec (hM : 1 ≤ lastChunk vmaf) (hm : m.Valid vmaf) (json : MpcRequest) :
    ∃ est m' q, m.estimate json.measuredBandwidth = some est ∧
      bestRate (exportConfig vmaf) m.lastQuality json.index (json.buffer / mInK)
        est.futureBandwidth = some q ∧
      m.process (exportConfig vmaf) json = some (m', q) ∧ m'.Valid vmaf := by
  obtain ⟨est, hest, hbandwidths, herrors⟩ := exists_estimate hm json.measuredBandwidth_pos
  obtain ⟨q, hq, hbest⟩ := exists_bestRate hM hm.quality json.index (json.buffer / mInK)
    est.futureBandwidth
  obtain ⟨rate, hrate⟩ := exists_getVideoBitRate hm.quality
  refine ⟨est, ⟨json.rebuffer / mInK, rate, q, est.bandwidths,
    m.pastBandwidthEsts ++ [est.harmonicBandwidth], est.pastErrors⟩, q, hest, hbest, ?_,
    ⟨hq, hbandwidths, herrors⟩⟩
  simp only [process, hrate, hest, hbest, Option.bind_eq_bind, Option.bind_some]

theorem new_valid (vmaf : VmafJson) : new.Valid vmaf where
  quality := List.length_pos_iff.mpr vmaf.nonempty
  bandwidths := fun _ h => absurd h List.not_mem_nil
  errors := fun _ h => absurd h List.not_mem_nil

/-- No request of a history raises an exception. -/
theorem after_spec (hM : 1 ≤ lastChunk vmaf) (history : List MpcRequest) :
    ∃ m, after (exportConfig vmaf) history = some m ∧ m.Valid vmaf := by
  refine foldlM_history (P := fun _ (m : RobustMpc) => m.Valid vmaf) (new_valid vmaf) ?_ history
  intro _ m json hm
  obtain ⟨est, m', q, -, -, hprocess, hvalid⟩ := process_spec hM hm json
  exact ⟨m', by rw [hprocess]; rfl, hvalid⟩

end RobustMpc

/-! ## Optimal plans -/

/-- The plans for the chunks `index` to `min (index + 4) M`. -/
def Plans (vmaf : VmafJson) (index : ℤ) : Set (List ℕ) :=
  {plan | (plan.length : ℤ) = min (lastChunk vmaf - index + 1) horizon ∧ IsCombo vmaf plan}

/-- A quality is the first one of a plan with the greatest reward. -/
def StartsOptimalPlan (vmaf : VmafJson) (lastQuality : ℕ) (index : ℤ)
    (startBuffer futureBandwidth : ℚ) (q : ℕ) : Prop :=
  ∃ plan ∈ Plans vmaf index, plan.head? = some q ∧ ∀ other ∈ Plans vmaf index,
    planReward vmaf lastQuality index startBuffer futureBandwidth other ≤
      planReward vmaf lastQuality index startBuffer futureBandwidth plan

section Optimal

variable {lastQuality : ℕ} {index : ℤ} {startBuffer futureBandwidth : ℚ}

/-- More than five chunks before the end, nothing is cut, and the sequences are the plans. -/
theorem cut_of_le (hend : index + horizon ≤ lastChunk vmaf) {full : List ℕ}
    (hfull : full.length = horizon) : cut vmaf index full = full := by
  have hmin : min ((lastChunk vmaf : ℤ) - index) horizon = horizon := by omega
  rw [cut, hmin, sliceTo, if_pos (by omega)]
  exact List.take_of_length_le (by omega)

theorem mem_plans {n : ℕ} (hn : min ((lastChunk vmaf : ℤ) - index + 1) horizon = n)
    {plan : List ℕ} :
    plan ∈ Plans vmaf index ↔ plan ∈ words (List.range vmaf.tracks.length) n := by
  rw [mem_words, ← @Nat.cast_inj ℤ, ← hn]
  simp only [List.mem_range]
  rfl

theorem mem_plans_of_le (hend : index + horizon ≤ lastChunk vmaf) {plan : List ℕ} :
    plan ∈ Plans vmaf index ↔ plan ∈ words (List.range vmaf.tracks.length) horizon :=
  mem_plans (by omega)

theorem bestRate_optimal_iff (hM : 1 ≤ lastChunk vmaf) (hlast : lastQuality < vmaf.tracks.length)
    (hend : index + horizon ≤ lastChunk vmaf) {q : ℕ}
    (hq : bestRate (exportConfig vmaf) lastQuality index startBuffer futureBandwidth = some q) :
    StartsOptimalPlan vmaf lastQuality index startBuffer futureBandwidth q ↔
      (∃ plan ∈ Plans vmaf index,
        0 < planReward vmaf lastQuality index startBuffer futureBandwidth plan) ∨
      StartsOptimalPlan vmaf lastQuality index startBuffer futureBandwidth 0 := by
  have hcut : ∀ full ∈ words (List.range vmaf.tracks.length) horizon, cut vmaf index full = full :=
    fun full hfull => cut_of_le hend (mem_fullCombos.mp hfull).1
  by_cases hpos : ∃ plan ∈ Plans vmaf index,
      0 < planReward vmaf lastQuality index startBuffer futureBandwidth plan
  · refine iff_of_true ?_ (Or.inl hpos)
    obtain ⟨plan, hplan, hlt⟩ := hpos
    have hword := (mem_plans_of_le hend).mp hplan
    obtain ⟨full, hfull, hbest, hdecision⟩ := bestRate_of_pos hM hlast
      ⟨plan, hword, by rw [hcut plan hword]; exact hlt⟩
    rw [hq, Option.some.injEq, hcut full hfull] at hdecision
    refine ⟨full, (mem_plans_of_le hend).mpr hfull, ?_, ?_⟩
    · have hlen := (mem_fullCombos.mp hfull).1
      cases full with
      | nil => cases hlen
      | cons a rest => rw [hdecision, List.head?_cons, List.headD_cons]
    · intro other hother
      have hword' := (mem_plans_of_le hend).mp hother
      have hle := hbest other hword'
      rwa [hcut other hword', hcut full hfull] at hle
  · have hneg : ∀ full ∈ words (List.range vmaf.tracks.length) horizon,
        planReward vmaf lastQuality index startBuffer futureBandwidth
          (cut vmaf index full) ≤ 0 := by
      intro full hfull
      rw [hcut full hfull]
      exact not_lt.mp fun hlt => hpos ⟨full, (mem_plans_of_le hend).mpr hfull, hlt⟩
    rw [bestRate_of_nonpos hM hlast hneg, Option.some.injEq] at hq
    rw [← hq]
    exact ⟨Or.inr, fun h => h.resolve_left hpos⟩

/-- At the last chunk nothing is left of the sequences, and the decision is 0. -/
theorem bestRate_lastChunk (hM : 1 ≤ lastChunk vmaf) (hlast : lastQuality < vmaf.tracks.length) :
    bestRate (exportConfig vmaf) lastQuality (lastChunk vmaf) startBuffer futureBandwidth =
      some 0 := by
  apply bestRate_of_nonpos hM hlast
  intro full _
  have hempty : cut vmaf (lastChunk vmaf) full = [] := by
    rw [cut, sub_self, sliceTo, if_pos (by decide)]
    rfl
  rw [hempty, planReward, chunksAlong, readMpcChunks, Option.getD_some]
  simp [rewardOf, stallTime]

end Optimal

/-- Every request of a history is answered. Five chunks before the last one or earlier, the
decision is the first quality of an optimal plan exactly if some plan has a positive reward, or an
optimal plan starts with quality 0. At the last chunk it is exactly in the second case. -/
theorem decision_optimal_iff (vmaf : VmafJson) (history : List MpcRequest) (json : MpcRequest)
    (h1 : 1 ≤ json.index) (hM : json.index ≤ lastChunk vmaf) :
    ∃ m est m' q, RobustMpc.after (exportConfig vmaf) history = some m ∧
      m.estimate json.measuredBandwidth = some est ∧
      m.process (exportConfig vmaf) json = some (m', q) ∧
      (json.index + horizon ≤ lastChunk vmaf →
        (StartsOptimalPlan vmaf m.lastQuality json.index (json.buffer / mInK) est.futureBandwidth q
          ↔ (∃ plan ∈ Plans vmaf json.index, 0 < planReward vmaf m.lastQuality json.index
              (json.buffer / mInK) est.futureBandwidth plan) ∨
            StartsOptimalPlan vmaf m.lastQuality json.index (json.buffer / mInK)
              est.futureBandwidth 0)) ∧
      (json.index = lastChunk vmaf →
        (StartsOptimalPlan vmaf m.lastQuality json.index (json.buffer / mInK) est.futureBandwidth q
          ↔ StartsOptimalPlan vmaf m.lastQuality json.index (json.buffer / mInK)
              est.futureBandwidth 0)) := by
  have hchunks : 1 ≤ lastChunk vmaf := by omega
  obtain ⟨m, hafter, hvalid⟩ := RobustMpc.after_spec hchunks history
  obtain ⟨est, m', q, hest, hbest, hprocess, -⟩ := RobustMpc.process_spec hchunks hvalid json
  refine ⟨m, est, m', q, hafter, hest, hprocess, ?_, ?_⟩
  · intro hend
    exact bestRate_optimal_iff hchunks hvalid.quality hend hbest
  · intro hlast
    rw [hlast, bestRate_lastChunk hchunks hvalid.quality, Option.some.injEq] at hbest
    rw [hbest]

/-! ## A still video -/

/-- A picture of 100 kB for every chunk of four seconds, in two tracks of 1 and 3 Mbps. -/
def stillTrack : List VideoInfo :=
  [0, 4, 8, 12, 16, 20, 24].map fun start => ⟨start, 50, 100000⟩

def stillVideo : VmafJson where
  tracks := [(1000, stillTrack), (3000, stillTrack)]
  nonempty := List.cons_ne_nil _ _
  distinct := by decide
  segments := 7
  equallyLong := by decide

/-- A request for a chunk, with an empty buffer and a bandwidth in kbps. -/
def requestAt (index : ℤ) (bandwidth : ℚ) : MpcRequest := ⟨0, bandwidth, 0, index⟩

/-- The state after the first chunk has been requested at 4 Mbps: the decision was 1. -/
def afterFast : RobustMpc := ⟨0, 1000, 1, [4], [4], [0]⟩

theorem decision_optimal_fast :
    ∃ m est m' q, RobustMpc.after (exportConfig stillVideo) [] = some m ∧
      m.estimate (requestAt 1 4000).measuredBandwidth = some est ∧
      m.process (exportConfig stillVideo) (requestAt 1 4000) = some (m', q) ∧
      StartsOptimalPlan stillVideo m.lastQuality 1 0 est.futureBandwidth q := by
  obtain ⟨m, est, m', q, hafter, hest, hprocess, hoptimal, -⟩ :=
    decision_optimal_iff stillVideo [] (requestAt 1 4000) (by decide) (by decide)
  refine ⟨m, est, m', q, hafter, hest, hprocess, ?_⟩
  have hm : m = RobustMpc.new := (Option.some.inj hafter).symm
  have hest' : RobustMpc.new.estimate (requestAt 1 4000).measuredBandwidth =
      some ⟨[4], [0], 4, 4⟩ := by decide +kernel
  rw [hm, hest', Option.some.injEq] at hest
  have hbuffer : (requestAt 1 4000).buffer / mInK = 0 := zero_div _
  rw [hbuffer] at hoptimal
  refine (hoptimal (by decide)).mpr (Or.inl ⟨[1, 1, 1, 1, 1], ⟨by decide, by decide⟩, ?_⟩)
  rw [hm, ← hest]
  decide +kernel

/-- At 0.1 Mbps every plan stalls and has a negative reward, and the decision is 0; the best plan
stays at quality 1, which costs no more bytes. At 4 Mbps the decision for the last chunk is 0,
after quality 1, although a plan that stays there has the greater reward. -/
theorem decision_not_optimal :
    (RobustMpc.after (exportConfig stillVideo) [] = some RobustMpc.new ∧
      (RobustMpc.new.estimate (requestAt 1 100).measuredBandwidth).map Estimates.futureBandwidth =
        some (1 / 10) ∧
      (RobustMpc.new.process (exportConfig stillVideo) (requestAt 1 100)).map Prod.snd = some 0 ∧
      ¬StartsOptimalPlan stillVideo 0 1 0 (1 / 10) 0) ∧
    (RobustMpc.after (exportConfig stillVideo) [requestAt 1 4000] = some afterFast ∧
      (afterFast.estimate (requestAt 6 4000).measuredBandwidth).map Estimates.futureBandwidth =
        some 4 ∧
      (afterFast.process (exportConfig stillVideo) (requestAt 6 4000)).map Prod.snd = some 0 ∧
      ¬StartsOptimalPlan stillVideo 1 6 0 4 0) := by
  refine ⟨⟨rfl, by decide +kernel, by decide +kernel, ?_⟩, by decide +kernel, by decide +kernel,
    by decide +kernel, ?_⟩
  · rintro ⟨plan, hplan, hhead, hbest⟩
    have hworse : ∀ plan ∈ words (List.range 2) 5, plan.head? = some 0 →
        planReward stillVideo 0 1 0 (1 / 10) plan <
          planReward stillVideo 0 1 0 (1 / 10) [1, 1, 1, 1, 1] := by decide +kernel
    exact (hworse plan ((mem_plans rfl).mp hplan) hhead).not_ge
      (hbest [1, 1, 1, 1, 1] ⟨by decide, by decide⟩)
  · rintro ⟨plan, hplan, hhead, hbest⟩
    have hworse : ∀ plan ∈ words (List.range 2) 1, plan.head? = some 0 →
        planReward stillVideo 1 6 0 4 plan < planReward stillVideo 1 6 0 4 [1] := by
      decide +kernel
    exact (hworse plan ((mem_plans rfl).mp hplan) hhead).not_ge
      (hbest [1] ⟨by decide, by decide⟩)

end Exp
end LiveStream
