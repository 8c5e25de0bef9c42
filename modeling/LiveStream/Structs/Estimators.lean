import LiveStream.Lib.Regression
import LiveStream.Structs.Averages

/-!
# Bandwidth estimators

`LineFitEstimator` and `PIDEstimator` of `structs/estimators.cc`, two moving averages with more
to keep than a number. Floats are exact rationals, and a quotient by zero is `none`.

* `LineFit.projects_trend_iff`, the line is fitted to the times over the values, so the
  projection follows a trend only if it moves by the time between two samples in each of them;
* `PID.value_eq_window`, the estimate is one of the window: the sum, the multiset and the
  positions all agree with it.
-/

namespace LiveStream
namespace Structs

open Lib

/-! ## The line fit -/

structure LineFit where
  points : List (ℚ × ℚ)
  lastTime : ℚ
  finalPointEstimate : MovingAverage ℚ

namespace LineFit

def new (windowSize : ℕ) : LineFit := ⟨[], 0, MovingAverage.new windowSize 0⟩

def methods (windowSize : ℕ) (timeDelta : ℚ) : Methods LineFit where
  push := fun s value => do
    let estimate ← s.finalPointEstimate.sample (WilderEMA.methods windowSize) value
    some ⟨s.points ++ [(value, s.lastTime)], s.lastTime + timeDelta, estimate⟩
  pop := fun s _ =>
    match s.points with
    | [] => none
    | _ :: points => some { s with points := points }

/-- `lsm_slope`, the times regressed on the values. -/
def lsmSlope (points : List (ℚ × ℚ)) : Option ℚ :=
  checkedDiv (deviations Prod.fst Prod.snd points) (deviations Prod.fst Prod.fst points)

def value (timeDelta : ℚ) (projectionSize : ℕ) (a : MovingAverage LineFit) : Option ℚ :=
  if a.state.points.length ≠ a.size then some (WilderEMA.value a.state.finalPointEstimate)
  else do
    let m ← lsmSlope a.state.points
    let futureDist := timeDelta * projectionSize
    some (WilderEMA.value a.state.finalPointEstimate + futureDist * m)

def after (windowSize : ℕ) (timeDelta : ℚ) (samples : List ℚ) : Option (MovingAverage LineFit) :=
  MovingAverage.after (methods windowSize timeDelta) (new windowSize) windowSize samples

variable {windowSize : ℕ} {timeDelta : ℚ}

/-- The points are the window with equally spaced times, and the inner average has seen all
samples. -/
structure Inv (windowSize : ℕ) (timeDelta : ℚ) (seen window : List ℚ) (s : LineFit) : Prop where
  times : ∃ start, s.points = window.mapIdx (fun k v => (v, start + timeDelta * k)) ∧
    s.lastTime = start + timeDelta * window.length
  estimate : WilderEMA.after windowSize seen = some s.finalPointEstimate

theorem inv_new : Inv windowSize timeDelta [] [] (new windowSize) where
  times := ⟨0, by simp [new], by simp [new]⟩
  estimate := rfl

theorem kept_inv (hsize : 1 ≤ windowSize) :
    MovingAverage.Kept (methods windowSize timeDelta) windowSize (Inv windowSize timeDelta) where
  pop := by
    intro seen front window s h
    obtain ⟨start, hpoints, hlast⟩ := h.times
    rw [List.mapIdx_cons] at hpoints
    refine ⟨{ s with points := window.mapIdx fun k v => (v, start + timeDelta * (k + 1 : ℕ)) },
      by simp [methods, hpoints], ⟨start + timeDelta, ?_, ?_⟩, h.estimate⟩
    · simp only [Nat.cast_add, Nat.cast_one]
      congr 1
      funext k v
      congr 1
      ring
    · rw [hlast, List.length_cons]
      push_cast
      ring
  push := by
    intro seen window s x _ h
    obtain ⟨start, hpoints, hlast⟩ := h.times
    -- the inner average takes every sample
    obtain ⟨a, ha, -⟩ := WilderEMA.after_withinRange hsize (seen ++ [x])
    have hsample : s.finalPointEstimate.sample (WilderEMA.methods windowSize) x = some a := by
      have happend : WilderEMA.after windowSize (seen ++ [x]) =
          (WilderEMA.after windowSize seen).bind
            fun e => e.sample (WilderEMA.methods windowSize) x := by
        simp [WilderEMA.after, MovingAverage.after, List.foldlM_append, Option.bind_eq_bind]
      rw [happend, h.estimate, Option.bind_some] at ha
      exact ha
    refine ⟨_, by simp only [methods, hsample]; rfl, ⟨start, ?_, ?_⟩, ha⟩
    · rw [hpoints, hlast, List.mapIdx_append]
      simp
    · rw [hlast, List.length_append, List.length_singleton]
      push_cast
      ring

/-- A line over the window, in the points. -/
theorem points_of_line {a b start : ℚ} {n : ℕ} {window : List ℚ}
    (hline : window = (List.range n).map fun k : ℕ => a + b * k) :
    window.mapIdx (fun k v => (v, start + timeDelta * k)) =
      (List.range n).map fun k : ℕ => (a + b * k, start + timeDelta * k) := by
  apply List.ext_getElem
  · simp [hline]
  · intro k h₁ h₂
    simp [hline]

theorem lsmSlope_of_line {a b start : ℚ} {n : ℕ} (hn : 2 ≤ n) :
    lsmSlope ((List.range n).map fun k : ℕ => (a + b * k, start + timeDelta * k)) =
      checkedDiv timeDelta b := by
  have hne : List.range n ≠ [] := by
    rw [Ne, List.range_eq_nil]
    omega
  have hspread : 0 < deviations (fun k : ℕ => (k : ℚ)) (fun k : ℕ => (k : ℚ)) (List.range n) := by
    apply spread_pos (i := 0) (j := 1)
    · exact List.mem_range.mpr (by omega)
    · exact List.mem_range.mpr (by omega)
    · norm_num
  set V := deviations (fun k : ℕ => (k : ℚ)) (fun k : ℕ => (k : ℚ)) (List.range n)
  have hnum : deviations Prod.fst Prod.snd
      ((List.range n).map fun k : ℕ => (a + b * k, start + timeDelta * k)) = b * timeDelta * V := by
    rw [← deviations_affine hne a b start timeDelta]
    simp only [deviations, List.map_map, Function.comp_def]
  have hden : deviations Prod.fst Prod.fst
      ((List.range n).map fun k : ℕ => (a + b * k, start + timeDelta * k)) = b * b * V := by
    rw [← deviations_affine hne a b a b]
    simp only [deviations, List.map_map, Function.comp_def]
  unfold lsmSlope checkedDiv
  rw [hnum, hden]
  by_cases hb : b = 0
  · simp [hb]
  · rw [if_neg (by positivity), if_neg hb]
    congr 1
    field_simp

/-- After samples that end in a line of slope `b`, what the projection adds to the inner average
is `timeDelta * projectionSize * (timeDelta / b)`. -/
theorem value_of_line (hsize : 2 ≤ windowSize) (projectionSize : ℕ) {samples : List ℚ} {a b : ℚ}
    (hline : samples.rtake windowSize = (List.range windowSize).map fun k : ℕ => a + b * k) :
    ∃ e, after windowSize timeDelta samples = some e ∧
      WilderEMA.after windowSize samples = some e.state.finalPointEstimate ∧
      value timeDelta projectionSize e = (checkedDiv timeDelta b).map fun m =>
        WilderEMA.value e.state.finalPointEstimate + timeDelta * projectionSize * m := by
  obtain ⟨e, hrun, hfits⟩ := MovingAverage.after_spec (by omega : 1 ≤ windowSize)
    (@kept_inv _ timeDelta (by omega)) (new windowSize) inv_new samples
  obtain ⟨start, hpoints, -⟩ := hfits.inv.times
  have hlen : e.state.points.length = e.size := by
    rw [MovingAverage.size, hfits.samples_eq, hpoints, List.length_mapIdx]
  refine ⟨e, hrun, hfits.inv.estimate, ?_⟩
  rw [value, if_neg (not_not.mpr hlen), hpoints, points_of_line hline, lsmSlope_of_line hsize]
  cases checkedDiv timeDelta b <;> rfl

/-- The projection of a trend of `b` a sample adds `projectionSize * b` exactly if nothing is
projected or the trend is as steep as time: `b = ± timeDelta`. -/
theorem projects_trend_iff (hsize : 2 ≤ windowSize) (timeDelta : ℚ) (projectionSize : ℕ)
    {samples : List ℚ} {a b : ℚ}
    (hline : samples.rtake windowSize = (List.range windowSize).map fun k : ℕ => a + b * k) :
    ∃ e, after windowSize timeDelta samples = some e ∧
      WilderEMA.after windowSize samples = some e.state.finalPointEstimate ∧
      (value timeDelta projectionSize e =
          some (WilderEMA.value e.state.finalPointEstimate + projectionSize * b) ↔
        b ≠ 0 ∧ (projectionSize = 0 ∨ b = timeDelta ∨ b = -timeDelta)) := by
  obtain ⟨e, hrun, hestimate, hvalue⟩ := value_of_line hsize projectionSize hline
  refine ⟨e, hrun, hestimate, ?_⟩
  rw [hvalue]
  by_cases hb : b = 0
  · simp [checkedDiv, hb]
  · have hquot : timeDelta * projectionSize * (timeDelta / b) = projectionSize * b ↔
        (projectionSize : ℚ) * (timeDelta ^ 2 - b ^ 2) = 0 := by
      rw [mul_div_assoc', div_eq_iff hb]
      constructor <;> intro h <;> linear_combination h
    rw [checkedDiv, if_neg hb, Option.map_some, Option.some_inj, add_right_inj, hquot,
      mul_eq_zero, Nat.cast_eq_zero, sub_eq_zero, eq_comm (b := b ^ 2), sq_eq_sq_iff_eq_or_eq_neg]
    exact (and_iff_right hb).symm

theorem projects_trend_of_one :
    ∃ e, after 2 1 [3, 0, 1] = some e ∧
      value 1 5 e = some (WilderEMA.value e.state.finalPointEstimate + (5 : ℕ) * 1) := by
  have hline : ([3, 0, 1] : List ℚ).rtake 2 = (List.range 2).map fun k : ℕ => (0 : ℚ) + 1 * k := by
    decide +kernel
  obtain ⟨e, hrun, -, hiff⟩ := projects_trend_iff (by decide) 1 5 hline
  exact ⟨e, hrun, hiff.mpr ⟨by norm_num, Or.inr (Or.inl rfl)⟩⟩

/-- A trend of 2 a sample is projected as one of 1/2, and on a steady link there is no slope. -/
theorem projection_off_trend :
    (after 2 1 [0, 2]).map (fun e => WilderEMA.value e.state.finalPointEstimate) = some 1 ∧
      (after 2 1 [0, 2]).bind (value 1 1) = some (1 + 1 / 2) ∧
      (after 2 1 [4, 4]).isSome ∧ (after 2 1 [4, 4]).bind (value 1 1) = none := by
  decide +kernel

end LineFit

/-! ## The PID estimator -/

structure PID where
  total : ℚ
  /-- Not initialised before the first sample. -/
  last : Option ℚ
  ctr : ℕ
  /-- The `std::multiset` of the samples, in order. -/
  st : List ℚ
  pos : ℚ → Option ℕ

namespace PID

def new : PID := ⟨0, none, 0, [], fun _ => none⟩

def methods : Methods PID where
  push := fun s value => some
    { total := s.total + value
      last := some value
      ctr := s.ctr + 1
      st := s.st.orderedInsert (· ≤ ·) value
      pos := Function.update s.pos value (some (s.ctr + 1)) }
  pop := fun s value =>
    if value ∈ s.st then some { s with total := s.total - value, st := s.st.erase value }
    else none

def proportional (a : MovingAverage PID) : Option ℚ := a.state.last

def integral (a : MovingAverage PID) : Option ℚ := checkedDiv a.state.total a.size

def derivative (a : MovingAverage PID) : Option ℚ := do
  let mx ← a.state.st.getLast?
  let mn ← a.state.st.head?
  let posMx ← a.state.pos mx
  let posMn ← a.state.pos mn
  some (if posMn < posMx then mx - mn else mn - mx)

def value (p i d : ℚ) (a : MovingAverage PID) : Option ℚ := do
  let x ← proportional a
  let m ← integral a
  let D ← derivative a
  checkedDiv (p * x + i * m + d * D) (p + i + d)

def after (windowSize : ℕ) (samples : List ℚ) : Option (MovingAverage PID) :=
  MovingAverage.after methods new windowSize samples

/-- The latest sample with this value is the one with this number. -/
def LatestAt (samples : List ℚ) (x : ℚ) (k : ℕ) : Prop :=
  samples[k]? = some x ∧ ∀ l, samples[l]? = some x → l ≤ k

theorem LatestAt.concat (seen : List ℚ) (x : ℚ) : LatestAt (seen ++ [x]) x seen.length := by
  refine ⟨by simp, ?_⟩
  intro l hl
  have hlt := (List.getElem?_eq_some_iff.mp hl).1
  rw [List.length_append, List.length_singleton] at hlt
  omega

theorem LatestAt.concat_of_ne {seen : List ℚ} {x y : ℚ} (hne : y ≠ x) {k : ℕ}
    (h : LatestAt seen y k) : LatestAt (seen ++ [x]) y k := by
  have hk := (List.getElem?_eq_some_iff.mp h.1).1
  refine ⟨by rw [List.getElem?_append_left hk]; exact h.1, ?_⟩
  intro l hl
  have hlt := (List.getElem?_eq_some_iff.mp hl).1
  rw [List.length_append, List.length_singleton] at hlt
  by_cases hend : l = seen.length
  · -- the new sample has another value
    rw [hend, List.getElem?_concat_length, Option.some_inj] at hl
    exact absurd hl.symm hne
  · rw [List.getElem?_append_left (by omega)] at hl
    exact h.2 l hl

/-- What the estimator keeps: the sum and the multiset of the window, and for every value seen
the number of its latest sample, counted from 1. -/
structure Inv (seen window : List ℚ) (s : PID) : Prop where
  total_eq : s.total = window.sum
  last_eq : s.last = seen.getLast?
  ctr_eq : s.ctr = seen.length
  perm : s.st.Perm window
  sorted : s.st.Pairwise (· ≤ ·)
  positions : ∀ x ∈ seen, ∃ k, s.pos x = some (k + 1) ∧ LatestAt seen x k
  window_seen : ∀ x ∈ window, x ∈ seen

theorem inv_new : Inv [] [] new := by
  constructor <;> simp [new]

theorem kept_inv (windowSize : ℕ) : MovingAverage.Kept methods windowSize Inv where
  pop := by
    intro seen front window s h
    have hmem : front ∈ s.st := h.perm.symm.subset (List.mem_cons_self ..)
    refine ⟨{ s with total := s.total - front, st := s.st.erase front },
      by simp [methods, hmem], ?_⟩
    have hperm : (s.st.erase front).Perm window := by
      have := h.perm.erase front
      rwa [List.erase_cons_head] at this
    exact
      { total_eq := by
          show s.total - front = window.sum
          rw [h.total_eq, List.sum_cons]
          ring
        last_eq := h.last_eq
        ctr_eq := h.ctr_eq
        perm := hperm
        sorted := h.sorted.sublist List.erase_sublist
        positions := h.positions
        window_seen := fun x hx => h.window_seen x (List.mem_cons_of_mem _ hx) }
  push := by
    intro seen window s x _ h
    refine ⟨_, rfl, ?_⟩
    exact
      { total_eq := by
          show s.total + x = (window ++ [x]).sum
          rw [h.total_eq, List.sum_append, List.sum_singleton]
        last_eq := by simp
        ctr_eq := by simp [h.ctr_eq]
        perm := by
          have hinsert := List.perm_orderedInsert (· ≤ ·) x s.st
          have hend : (x :: window).Perm (window ++ [x]) :=
            (List.perm_append_singleton x window).symm
          exact (hinsert.trans (h.perm.cons x)).trans hend
        sorted := h.sorted.orderedInsert x s.st
        positions := by
          intro y hy
          show ∃ k, Function.update s.pos x (some (s.ctr + 1)) y = some (k + 1) ∧ _
          by_cases hyx : y = x
          · subst hyx
            exact ⟨seen.length, by rw [Function.update_self, h.ctr_eq], LatestAt.concat seen y⟩
          · have hmem : y ∈ seen := by
              rcases List.mem_append.mp hy with hmem | hmem
              · exact hmem
              · exact absurd (List.mem_singleton.mp hmem) hyx
            obtain ⟨k, hk, hlatest⟩ := h.positions y hmem
            exact ⟨k, by rw [Function.update_of_ne hyx, hk], hlatest.concat_of_ne hyx⟩
        window_seen := by
          intro y hy
          rcases List.mem_append.mp hy with hmem | hmem
          · exact List.mem_append_left _ (h.window_seen y hmem)
          · exact List.mem_append_right _ hmem }

/-- Every sample that leaves the window is found, and the estimate is that of the window: `x` is
the last sample, `mx` and `mn` the extremes of the window and `k` and `l` their latest samples. -/
theorem value_eq_window {windowSize : ℕ} (hsize : 1 ≤ windowSize) {samples : List ℚ}
    (hne : samples ≠ []) (p i d : ℚ) :
    ∃ e mx mn k l, after windowSize samples = some e ∧
      IsGreatest {x | x ∈ samples.rtake windowSize} mx ∧
      IsLeast {x | x ∈ samples.rtake windowSize} mn ∧
      LatestAt samples mx k ∧ LatestAt samples mn l ∧
      value p i d e = checkedDiv
        (p * samples.getLast hne + i * mean (samples.rtake windowSize) +
          d * (if l < k then mx - mn else -(mx - mn)))
        (p + i + d) := by
  obtain ⟨e, hrun, hfits⟩ :=
    MovingAverage.after_spec hsize (kept_inv windowSize) new inv_new samples
  have hinv := hfits.inv
  have hpos := length_rtake_pos hsize hne
  have hst : e.state.st ≠ [] := by
    rw [← List.length_pos_iff, hinv.perm.length_eq]
    exact hpos
  have hwindow : ∀ x, x ∈ samples.rtake windowSize ↔ x ∈ e.state.st :=
    fun x => hinv.perm.mem_iff.symm
  set mx := e.state.st.getLast hst
  set mn := e.state.st.head hst
  have hmx : mx ∈ samples.rtake windowSize := (hwindow _).mpr (List.getLast_mem hst)
  have hmn : mn ∈ samples.rtake windowSize := (hwindow _).mpr (List.head_mem hst)
  obtain ⟨k, hk, hlatestk⟩ := hinv.positions mx (hinv.window_seen _ hmx)
  obtain ⟨l, hl, hlatestl⟩ := hinv.positions mn (hinv.window_seen _ hmn)
  have hne0 : ((samples.rtake windowSize).length : ℚ) ≠ 0 := by exact_mod_cast hpos.ne'
  have hderivative : derivative e = some (if l < k then mx - mn else -(mx - mn)) := by
    have hhead : e.state.st.head? = some mn := List.head?_eq_some_head hst
    have hlast : e.state.st.getLast? = some mx := List.getLast?_eq_some_getLast hst
    simp [derivative, hhead, hlast, hk, hl]
  have hintegral : integral e = some (mean (samples.rtake windowSize)) := by
    rw [integral, MovingAverage.size, hfits.samples_eq, checkedDiv, if_neg hne0,
      hinv.total_eq, mean]
  have hlast : proportional e = some (samples.getLast hne) := by
    rw [proportional, hinv.last_eq, List.getLast?_eq_some_getLast hne]
  refine ⟨e, mx, mn, k, l, hrun, ⟨hmx, ?_⟩, ⟨hmn, ?_⟩, hlatestk, hlatestl, ?_⟩
  · intro x hx
    exact hinv.sorted.rel_getLast ((hwindow x).mp hx)
  · intro x hx
    exact hinv.sorted.rel_head ((hwindow x).mp hx)
  · simp [value, hlast, hintegral, hderivative]

theorem value_of_three_samples :
    ∃ e mx mn k l, after 2 [5, 1, 3] = some e ∧ IsGreatest {x | x ∈ [1, 3]} mx ∧
      IsLeast {x | x ∈ [1, 3]} mn ∧ LatestAt [5, 1, 3] mx k ∧ LatestAt [5, 1, 3] mn l ∧
      value 1 2 3 e = checkedDiv
        (1 * 3 + 2 * mean [1, 3] + 3 * (if l < k then mx - mn else -(mx - mn))) (1 + 2 + 3) :=
  @value_eq_window 2 (by decide) [5, 1, 3] (by simp) 1 2 3

-- the 5 that has left the window is not the maximum, and the 1 seen last is the minimum
example : (after 2 [5, 1, 3]).bind (value 1 2 3) = some (13 / 6) ∧
    (after 3 [1, 5, 1]).bind (value 0 0 1) = some (-4) := by
  decide +kernel

end PID
end Structs
end LiveStream
