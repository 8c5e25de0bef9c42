import LiveStream.Abr.BBAbr
import LiveStream.Dash.Getters
import LiveStream.Dash.QualityController
import LiveStream.Lib.TopDown

/-!
# `BB`: the buffer-based algorithm in the front-end

`algo/bb.ts`, and its agreement with `BBAbr` of the back-end. Both map a buffer level to a bitrate
between the lowest and the highest and search the ladder for it from the top.

* `Abr.BBAbr.bitrateFor_eq_clamp`, the three branches of the interpolation as one formula;
* `Abr.BBAbr.highestWithin_eq`, the search of the back-end is that of the front-end.
-/

namespace LiveStream

open Lib

namespace Dash

structure BB where
  bitrateArray : List ℚ
  bufferLevel : BufferLevelGetter

namespace BB

def SECOND : ℤ := 1000
def reservoir : ℤ := 5 * SECOND
def cushion : ℤ := 10 * SECOND

/-- The first half of `getDecision`. -/
def bitrateFor (bitrateArray : List ℚ) (bufferLevel : ℤ) : ℚ :=
  let lowest := bitrateArray.getD 0 0
  let highest := bitrateArray.getD (bitrateArray.length - 1) 0
  if bufferLevel ≤ reservoir then lowest
  else if reservoir + cushion ≤ bufferLevel then highest
  else lowest + (highest - lowest) * (bufferLevel - reservoir) / cushion

/-- The quality for a buffer level. -/
def qualityFor (bitrateArray : List ℚ) (bufferLevel : ℤ) : ℕ :=
  let bitrate := bitrateFor bitrateArray bufferLevel
  scanDown (fun i => bitrateArray.getD i 0 ≤ bitrate) 0 bitrateArray.length

/-- `getDecision`, called at the time `now`. -/
def getDecision (s : BB) (metrics : Metrics) (index timestamp now : ℤ) : BB × Decision :=
  let s := { s with bufferLevel := s.bufferLevel.update metrics }
  (s, ⟨index, some (qualityFor s.bitrateArray (s.bufferLevel.value now)), some timestamp⟩)

end BB

end Dash

namespace Abr
namespace BBAbr

open Dash (BB)

variable {ladder : List ℤ}

/-! ## The interpolated bitrate -/

/-- How far a buffer level is into the cushion, from 0 to 1. -/
def filled (bufferLevel : ℤ) : ℚ := max 0 (min 1 ((bufferLevel - RESERVOIR) / CUSHION))

theorem filled_mono : Monotone filled := by
  intro level level' h
  have hlevel : (level : ℚ) ≤ level' := by exact_mod_cast h
  have hcushion : (0 : ℚ) ≤ CUSHION := by norm_num [CUSHION]
  unfold filled
  gcongr

theorem filled_nonneg (level : ℤ) : 0 ≤ filled level := le_max_left _ _

theorem bitrateFor_eq_clamp (ladder : List ℤ) (level : ℤ) :
    bitrateFor ladder level =
      ladder.getD 0 0 + (ladder.getD (ladder.length - 1) 0 - ladder.getD 0 0) * filled level := by
  have hcushion : (0 : ℚ) < CUSHION := by norm_num [CUSHION]
  unfold bitrateFor filled
  dsimp only
  split
  · next hlow =>
    have hle : ((level : ℚ) - RESERVOIR) / CUSHION ≤ 0 := by
      apply div_nonpos_of_nonpos_of_nonneg _ hcushion.le
      rw [sub_nonpos]
      exact_mod_cast hlow
    rw [max_eq_left ((min_le_right _ _).trans hle), mul_zero, add_zero]
  · next hlow =>
    have hpos : 0 ≤ ((level : ℚ) - RESERVOIR) / CUSHION := by
      apply div_nonneg _ hcushion.le
      rw [sub_nonneg]
      exact_mod_cast (not_le.mp hlow).le
    split
    · next hhigh =>
      have hone : 1 ≤ ((level : ℚ) - RESERVOIR) / CUSHION := by
        rw [one_le_div hcushion, le_sub_iff_add_le']
        exact_mod_cast hhigh
      rw [min_eq_left hone, max_eq_right zero_le_one, mul_one, add_sub_cancel]
    · next hhigh =>
      have hone : ((level : ℚ) - RESERVOIR) / CUSHION ≤ 1 := by
        rw [div_le_one hcushion, sub_le_iff_le_add']
        exact_mod_cast (not_le.mp hhigh).le
      rw [min_eq_right hone, max_eq_right hpos, mul_div_assoc]

/-- The ladder does not decrease. -/
theorem lowest_le_highest (hladder : ladder.Pairwise (· < ·)) :
    ladder.getD 0 0 ≤ ladder.getD (ladder.length - 1) 0 := by
  cases ladder with
  | nil => rfl
  | cons a l =>
    have hlast : l.length < (a :: l).length := by simp
    rw [List.getD_eq_getElem _ _ (by simp), List.length_cons, Nat.add_sub_cancel,
      List.getD_eq_getElem _ _ hlast]
    rcases Nat.eq_zero_or_pos l.length with h0 | hpos
    · simp [h0]
    · exact (List.pairwise_iff_getElem.mp hladder 0 l.length (by simp) hlast hpos).le

theorem span_nonneg (hladder : ladder.Pairwise (· < ·)) :
    (0 : ℚ) ≤ ladder.getD (ladder.length - 1) 0 - ladder.getD 0 0 := by
  rw [sub_nonneg]
  exact_mod_cast lowest_le_highest hladder

theorem bitrateFor_mono (hladder : ladder.Pairwise (· < ·)) : Monotone (bitrateFor ladder) := by
  intro level level' h
  have hspan := span_nonneg hladder
  rw [bitrateFor_eq_clamp, bitrateFor_eq_clamp]
  have := filled_mono h
  gcongr

theorem lowest_le_bitrateFor (hladder : ladder.Pairwise (· < ·)) (level : ℤ) :
    (ladder.getD 0 0 : ℚ) ≤ bitrateFor ladder level := by
  have hspan := span_nonneg hladder
  rw [bitrateFor_eq_clamp]
  exact le_add_of_nonneg_right (mul_nonneg hspan (filled_nonneg level))

/-! ## The two implementations -/

theorem highestWithin_eq (ladder : List ℤ) (bitrate : ℚ) (n : ℕ) :
    highestWithin ladder bitrate n = scanDown (fun i => (ladder.getD i 0 : ℚ) ≤ bitrate) 0 n := by
  induction n with
  | zero => rfl
  | succ i ih =>
    rw [highestWithin, scanDown]
    by_cases hwithin : (ladder.getD i 0 : ℚ) ≤ bitrate
    · rw [if_pos hwithin, if_pos (decide_eq_true hwithin)]
    · rw [if_neg hwithin, if_neg (by simpa using hwithin), ih]
      -- what the loop starts from matters only when there is nothing to look at
      rcases Nat.eq_zero_or_pos i with rfl | hi
      · rfl
      · rw [scanDown_of_pos hi, scanDown_of_pos hi]

/-- The ladder as an array of numbers of the front-end. -/
def numbers (ladder : List ℤ) : List ℚ := ladder.map Int.cast

theorem length_numbers (ladder : List ℤ) : (numbers ladder).length = ladder.length :=
  List.length_map ..

theorem getD_numbers (ladder : List ℤ) (i : ℕ) :
    (numbers ladder).getD i 0 = (ladder.getD i 0 : ℚ) := by
  rw [numbers, ← Int.cast_zero, List.getD_map]

theorem bitrateFor_numbers (ladder : List ℤ) (level : ℤ) :
    BB.bitrateFor (numbers ladder) level = bitrateFor ladder level := by
  unfold BB.bitrateFor bitrateFor
  dsimp only
  rw [getD_numbers, getD_numbers, length_numbers]
  rfl

theorem qualityFor_numbers (ladder : List ℤ) (level : ℤ) :
    BB.qualityFor (numbers ladder) level =
      scanDown (fun i => (ladder.getD i 0 : ℚ) ≤ bitrateFor ladder level) 0 ladder.length := by
  unfold BB.qualityFor
  rw [bitrateFor_numbers, length_numbers]
  simp only [getD_numbers]

/-- `BBAbr` and `BB` choose the same quality at every buffer level: the greatest within the
interpolated bitrate, and not a lower one at a higher level. -/
theorem ladderStep_eq_qualityFor (ladder : List ℤ) (hne : ladder ≠ [])
    (hladder : ladder.Pairwise (· < ·)) (level : ℤ) :
    let bitrateArray := numbers ladder
    ladderStep ladder level = BB.qualityFor bitrateArray level ∧
    (∀ (s : BBAbr) (v : Tables) (u : Undefined) (index : ℤ), v.bitrateArray = ladder → index ≠ 1 →
      (adjustBuffer v.firstTrack u s.base.lastSegment s.lastSegmentTimeLength
        s.lastBufferLevel.value index).bufferLevel = level →
      (s.decideQuality v u index).quality = BB.qualityFor bitrateArray level) ∧
    (∀ (b : BB) (metrics : Dash.Metrics) (index timestamp now : ℤ), b.bitrateArray = bitrateArray →
      (b.bufferLevel.update metrics).value now = level →
      (b.getDecision metrics index timestamp now).2.quality =
        some ((BB.qualityFor bitrateArray level : ℕ) : ℤ)) ∧
    IsGreatest {i : ℕ | i < ladder.length ∧ (ladder.getD i 0 : ℚ) ≤ bitrateFor ladder level}
      (BB.qualityFor bitrateArray level) ∧
    ∀ level', level ≤ level' →
      BB.qualityFor bitrateArray level ≤ BB.qualityFor bitrateArray level' := by
  intro bitrateArray
  have hagree : ladderStep ladder level = BB.qualityFor bitrateArray level := by
    rw [ladderStep, highestWithin_eq, qualityFor_numbers]
  have hpos : 0 < ladder.length := List.length_pos_iff.mpr hne
  refine ⟨hagree, ?_, ?_, ?_, ?_⟩
  · intro s v u index hv hindex hlevel
    unfold decideQuality
    rw [if_neg hindex]
    dsimp only
    rw [hv, hlevel, hagree]
  · intro b metrics index timestamp now hb hlevel
    show some
      ((BB.qualityFor b.bitrateArray ((b.bufferLevel.update metrics).value now) : ℕ) : ℤ) = _
    rw [hb, hlevel]
  · rw [qualityFor_numbers]
    have hgreatest := @isGreatest_scanDown
      (fun i => Decidable.decide ((ladder.getD i 0 : ℚ) ≤ bitrateFor ladder level)) 0 _ hpos
      (decide_eq_true (lowest_le_bitrateFor hladder level))
    simpa only [decide_eq_true_eq] using hgreatest
  · intro level' hle
    rw [qualityFor_numbers, qualityFor_numbers]
    apply scanDown_mono
    intro i hi
    exact decide_eq_true ((of_decide_eq_true hi).trans (bitrateFor_mono hladder hle))

theorem ladderStep_eq_qualityFor_halfway :
    ladderStep [300, 750, 1200] 10000 = BB.qualityFor (numbers [300, 750, 1200]) 10000 ∧
      BB.qualityFor (numbers [300, 750, 1200]) 10000 ≤
        BB.qualityFor (numbers [300, 750, 1200]) 15000 :=
  have h := ladderStep_eq_qualityFor [300, 750, 1200] (List.cons_ne_nil _ _) (by decide) 10000
  ⟨h.1, h.2.2.2.2 15000 (by decide)⟩

end BBAbr
end Abr
end LiveStream
