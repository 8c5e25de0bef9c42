import LiveStream.Exp.PlotsTheorems

/-!
# One dataset over any sequence of updates

`Dataset.update` makes room up to `x - 1` places and then reads place `x - 1`, one too few. So a
dataset never gets a place for a segment beyond its initial range: such a call raises, whatever
came before.

* `Dataset.update_returns_iff`, which calls return;
* `after_slots`, what calls that have all returned leave.
-/

namespace LiveStream
namespace Exp

open Lib

/-- A call `update(x, y, w)`. -/
structure Point where
  x : ℤ
  y : ℚ
  w : ℚ
deriving DecidableEq

/-- The call as one on a plot that has only this dataset. -/
def Point.toUpdate (p : Point) : Update := ⟨"", "", p.x, p.y, p.w⟩

namespace Dataset

/-- The dataset after a sequence of calls, and whether all of them returned. -/
def after (rangeSize : ℕ) (points : List Point) : Dataset × Bool :=
  run (fun d p => ((d.1.update p.x p.y p.w).1, d.2 && (d.1.update p.x p.y p.w).2))
    (create rangeSize, true) points

/-- `p` has the largest `w` of the calls for its `x`, and is the last of these. -/
def IsNewest (points : List Point) (p : Point) : Prop :=
  ∃ pre post, points = pre ++ p :: post ∧
    (∀ q ∈ pre, q.x = p.x → q.w ≤ p.w) ∧ ∀ q ∈ post, q.x = p.x → q.w < p.w

/-- No call raises; place `x - 1` of every `x` updated has the newest value, and the places of
the initial range never addressed are 0. -/
structure KeepsNewest (rangeSize : ℕ) (points : List Point) : Prop where
  returned : (after rangeSize points).2 = true
  newest : ∀ q ∈ points, ∃ p, IsNewest points p ∧ p.x = q.x ∧
    (after rangeSize points).1.y[(p.x - 1).toNat]? = some p.y
  untouched : ∀ k ≤ rangeSize, (∀ p ∈ points, p.x ≠ k + 1) →
    (after rangeSize points).1.y[k]? = some 0

/-! ## Which calls return -/

theorem length_w_extend (y w : ℚ) (d : Dataset) (k : ℕ) :
    ((extend y w)^[k] d).w.length = d.w.length + k := by
  induction k with
  | zero => rfl
  | succ k ih =>
    rw [Function.iterate_succ_apply']
    show (((extend y w)^[k] d).w ++ [w]).length = _
    rw [List.length_append, ih, List.length_singleton, Nat.add_assoc]

/-- The loop makes one place too few. -/
theorem update_returns_iff {d : Dataset} {n : ℕ} (hx : d.x.length = n) (hw : d.w.length = n)
    {x : ℤ} (hone : 1 ≤ x) (y w : ℚ) : (d.update x y w).2 = true ↔ x ≤ n := by
  have hlength : ((extend y w)^[(x - 1).toNat - d.x.length] d).w.length = max n (x - 1).toNat := by
    rw [length_w_extend, hx, hw]
    omega
  unfold update
  dsimp only
  rw [hlength]
  by_cases hle : x ≤ n
  · have hplace : place (max n (x - 1).toNat) (x - 1) = some (x - 1).toNat := by
      rw [place, if_pos (by omega), if_pos (by omega)]
    rw [hplace]
    dsimp only
    split <;> simp [hle]
  · have hplace : place (max n (x - 1).toNat) (x - 1) = none := by
      rw [place, if_pos (by omega), if_neg (by omega)]
    rw [hplace]
    simp [hle]

/-! ## Runs -/

theorem after_concat (rangeSize : ℕ) (points : List Point) (p : Point) :
    after rangeSize (points ++ [p]) =
      (((after rangeSize points).1.update p.x p.y p.w).1,
        (after rangeSize points).2 && ((after rangeSize points).1.update p.x p.y p.w).2) :=
  run_concat ..

variable {rangeSize : ℕ} {points : List Point}

/-- **Run lemma.** Calls within the initial range return, and leave the newest values. -/
theorem after_slots (hpoints : ∀ p ∈ points, 1 ≤ p.x ∧ 0 ≤ p.w)
    (hrange : ∀ p ∈ points, p.x ≤ rangeSize + 1) :
    (after rangeSize points).2 = true ∧
      Slots (points.map Point.toUpdate) "" "" (rangeSize + 1) (after rangeSize points).1 := by
  induction points using List.reverseRecOn with
  | nil => exact ⟨rfl, slots_create "" "" rangeSize⟩
  | append_singleton points p ih =>
    obtain ⟨hpoints, hp⟩ := List.forall_mem_append.mp hpoints
    obtain ⟨hrange, hpr⟩ := List.forall_mem_append.mp hrange
    obtain ⟨hone, hw⟩ := hp p (List.mem_singleton_self p)
    have hle := hpr p (List.mem_singleton_self p)
    obtain ⟨hreturned, hslots⟩ := ih hpoints hrange
    rw [after_concat, List.map_append]
    constructor
    · rw [hreturned, Bool.true_and]
      exact (update_returns_iff hslots.length_x hslots.length_w hone p.y p.w).mpr (by omega)
    · exact slots_update (u := p.toUpdate) hslots hone (by exact_mod_cast hle) hw

/-- If all calls returned, they were within the initial range. -/
theorem range_of_returned (hpoints : ∀ p ∈ points, 1 ≤ p.x ∧ 0 ≤ p.w)
    (h : (after rangeSize points).2 = true) : ∀ p ∈ points, p.x ≤ rangeSize + 1 := by
  induction points using List.reverseRecOn with
  | nil => exact fun p hp => absurd hp List.not_mem_nil
  | append_singleton points p ih =>
    obtain ⟨hpoints, hp⟩ := List.forall_mem_append.mp hpoints
    rw [after_concat, Bool.and_eq_true] at h
    have hrange := ih hpoints h.1
    obtain ⟨-, hslots⟩ := after_slots hpoints hrange
    have hone := (hp p (List.mem_singleton_self p)).1
    have hle := (update_returns_iff hslots.length_x hslots.length_w hone p.y p.w).mp h.2
    rw [List.forall_mem_append]
    refine ⟨hrange, fun q hq => ?_⟩
    rw [List.mem_singleton.mp hq]
    exact_mod_cast hle

theorem isNewest_of_isLatest {u : Update} (h : IsLatest (points.map Point.toUpdate) u) :
    ∃ p, IsNewest points p ∧ p.toUpdate = u := by
  obtain ⟨pre, post, heq, hpre, hpost⟩ := h
  obtain ⟨before, rest, rfl, rfl, hrest⟩ := List.map_eq_append_iff.mp heq
  obtain ⟨p, later, rfl, rfl, rfl⟩ := List.map_eq_cons_iff.mp hrest
  refine ⟨p, ⟨before, later, rfl, fun q hq hx => ?_, fun q hq hx => ?_⟩, rfl⟩
  · exact hpre q.toUpdate (List.mem_map_of_mem hq) rfl rfl hx
  · exact hpost q.toUpdate (List.mem_map_of_mem hq) rfl rfl hx

/-- A place never addressed has no update, so its value is 0. -/
theorem valueOf_untouched {x : ℤ} (h : ∀ p ∈ points, p.x ≠ x) :
    valueOf (points.map Point.toUpdate) "" "" x = 0 := by
  have hnone : updatesOf (points.map Point.toUpdate) "" "" x = [] := by
    rw [updatesOf, List.filter_eq_nil_iff]
    intro u hu
    obtain ⟨p, hp, rfl⟩ := List.mem_map.mp hu
    have := h p hp
    simpa [Point.toUpdate] using this
  rw [valueOf, latest, hnone]
  rfl

/-- A dataset keeps the newest values of any sequence of calls exactly if all of them are within
its initial range. -/
theorem keepsNewest_iff (rangeSize : ℕ) (points : List Point)
    (hpoints : ∀ p ∈ points, 1 ≤ p.x ∧ 0 ≤ p.w) :
    KeepsNewest rangeSize points ↔ ∀ p ∈ points, p.x ≤ rangeSize + 1 := by
  refine ⟨fun h => range_of_returned hpoints h.returned, fun hrange => ?_⟩
  obtain ⟨hreturned, hslots⟩ := after_slots hpoints hrange
  refine ⟨hreturned, fun q hq => ?_, fun k hk huntouched => ?_⟩
  · obtain ⟨u, hu, -, -, hx⟩ := exists_isLatest (List.mem_map_of_mem (f := Point.toUpdate) hq)
    obtain ⟨p, hnewest, rfl⟩ := isNewest_of_isLatest hu
    replace hx : p.x = q.x := hx
    refine ⟨p, hnewest, hx, ?_⟩
    have hone := (hpoints q hq).1
    have hle := hrange q hq
    have hplace : (((p.x - 1).toNat : ℤ) + 1) = p.x := by omega
    have hvalue : valueOf (points.map Point.toUpdate) "" "" p.x = p.y := by
      rw [valueOf, show latest _ "" "" p.x = some p.toUpdate from hu.latest_eq]
      rfl
    rw [hslots.y (p.x - 1).toNat (by omega), hplace, hvalue]
  · rw [hslots.y k (by omega), valueOf_untouched huntouched]

/-- The first place behind the initial range, and one further on. -/
theorem update_beyond_range_raises :
    (after 1 [⟨3, 7, 1⟩]).2 = false ∧ (after 1 [⟨2, 5, 1⟩, ⟨5, 7, 2⟩]).2 = false := by
  decide +kernel

theorem keepsNewest_three_calls : KeepsNewest 2 [⟨3, 7, 5⟩, ⟨1, 4, 2⟩, ⟨3, 8, 4⟩] :=
  (keepsNewest_iff 2 [⟨3, 7, 5⟩, ⟨1, 4, 2⟩, ⟨3, 8, 4⟩] (by decide +kernel)).mpr (by decide +kernel)

end Dataset
end Exp
end LiveStream
