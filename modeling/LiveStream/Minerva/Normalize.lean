import LiveStream.Lib.Double
import LiveStream.Abr.Tables
import LiveStream.Lib.Truncate

/-!
# Minerva's normalisation

`MinervaAbr` can turn its utility, a perceptual quality, into a rate. The table `norm` has the
quality for every rate from 300 to 5000 kbps in steps of 10, as a mean over configurations of
what `get_scale` finds for each. `normalize` looks for the first pair of neighbours around a
quality and interpolates. Floats are exact rationals, and a quotient by zero is `none`.

* `length_normScale`, the table has an entry for each rate;
* `located_normalize`, where the loop stops;
* `normalize_eq_none_iff`, the only pair with equal entries at which it stops is the first;
* `normalize_monotone_iff`, elsewhere the map is total, within the rates and monotone.
-/

namespace LiveStream
namespace Minerva

open Lib
open Abr (Tables)
open Video (VideoInfo)

def SECOND : ℤ := 1000

namespace MinervaConstants

def kbitstep : ℕ := 10
def kbitmin : ℕ := 300
def kbitmax : ℕ := 5000
def downScale : ℚ := 7 / 10

end MinervaConstants

open MinervaConstants

/-! ## The table -/

/-- `get_segment_length_sec`: the loop steps back to the last segment that has a successor. -/
def getSegmentLengthSec (track : List VideoInfo) (currentIndex : ℤ) : Option ℤ := do
  let refIndex := min currentIndex (track.length - 2)
  let next ← checkedGet track (refIndex + 1)
  let ref ← checkedGet track refIndex
  return (truncate (SECOND * (next.startTime - ref.startTime))).tdiv SECOND

/-- The entries of `rates`, for a segment. -/
def segmentRates (segments : List (List VideoInfo)) (index : ℤ) : Option (List Double) :=
  segments.mapM fun track => do
    let timeS ← getSegmentLengthSec track index
    let info ← checkedGet track index
    return Double.div (8 * info.size / 1000) timeS

/-- The loop over the qualities: the first one between whose rate and the next the rate lies. -/
def pickQuality (downscaledRate : ℚ) : List Double → Option ℕ
  | [] => none
  | [rate] => if rate.leNumber downscaledRate then some 0 else none
  | rate :: next :: rates =>
    if rate.leNumber downscaledRate && next.geNumber downscaledRate then some 0
    else (pickQuality downscaledRate (next :: rates)).map (· + 1)

/-- `pq` of a segment at a rate. -/
def segmentPq (segments : List (List VideoInfo)) (rate : ℕ) (index : ℕ) : Option ℚ := do
  let rates ← segmentRates segments index
  match pickQuality (downScale * rate) rates with
  | none => some 0
  | some quality => do
    let track ← segments[quality]?
    let info ← track[index]?
    some info.vmaf

/-- The rates of the table. -/
def scaleRates : List ℕ :=
  (List.range ((kbitmax - kbitmin) / kbitstep + 1)).map fun i => kbitmin + kbitstep * i

/-- `get_scale`. -/
def getScale (v : Tables) : Option (List ℚ) :=
  scaleRates.mapM fun rate => do
    let segmentPqs ← (List.range v.firstTrack.length).mapM (segmentPq v.segments rate)
    checkedDiv segmentPqs.sum segmentPqs.length

/-- The end of `computeNormalizationMap`: the means of the scales of all configurations. -/
def normScale (scales : List (List ℚ)) : Option (List ℚ) := do
  let first ← scales.head?
  (List.range first.length).mapM fun i => do
    let entries ← scales.mapM (·[i]?)
    checkedDiv entries.sum scales.length

/-- The table has one entry for each rate. -/
theorem length_normScale {v : Tables} {vs : List Tables} {scales : List (List ℚ)} {norm : List ℚ}
    (hscales : (v :: vs).mapM getScale = some scales) (hnorm : normScale scales = some norm) :
    norm.length = 471 := by
  rw [List.mapM_cons] at hscales
  simp only [Option.bind_eq_bind, Option.bind_eq_some_iff, Option.pure_def,
    Option.some.injEq] at hscales
  obtain ⟨first, hfirst, rest, -, rfl⟩ := hscales
  simp only [normScale, List.head?_cons, Option.bind_eq_bind, Option.bind_some] at hnorm
  rw [length_of_mapM hnorm, List.length_range, length_of_mapM hfirst]
  simp [scaleRates, kbitmax, kbitmin, kbitstep]

/-! ## The map -/

/-- The loop of `normalize`, with this many entries left. -/
def normalizeFrom (norm : List ℚ) (pq : ℚ) : ℕ → ℕ → Option ℚ
  | 0, _ => some kbitmax
  | left + 1, index => do
    let x1 ← norm[index]?
    let x2 ← norm[index + 1]?
    if x1 ≤ pq ∧ pq ≤ x2 then
      let y1 : ℚ := kbitmin + kbitstep * index
      let y2 : ℚ := y1 + kbitstep
      let share ← checkedDiv (pq - x1) (x2 - x1)
      some (y1 + share * (y2 - y1))
    else normalizeFrom norm pq left (index + 1)

def normalize (norm : List ℚ) (pq : ℚ) : Option ℚ := do
  let first ← norm[0]?
  if pq < first then some kbitmin
  else normalizeFrom norm pq ((kbitmax - kbitmin) / kbitstep) 0

/-- A table with an entry for each rate that does not decrease. -/
structure IsScale (norm : List ℚ) : Prop where
  length_eq : norm.length = 471
  mono : norm.Pairwise (· ≤ ·)

/-- An entry of the table. -/
def entry (norm : List ℚ) (i : ℕ) : ℚ := norm.getD i 0

/-- Where in the table a quality lies, and what `normalize` makes of it. Between two entries it
is not at the lower one, unless that is the first. -/
inductive Located (norm : List ℚ) (pq : ℚ) : Option ℚ → Prop
  | below (h : pq < entry norm 0) : Located norm pq (some 300)
  | flat (hpq : pq = entry norm 0) (heq : entry norm 0 = entry norm 1) : Located norm pq none
  | between (i : ℕ) (hi : i < 470) (hstep : entry norm i < entry norm (i + 1))
      (hlower : entry norm i ≤ pq) (hupper : pq ≤ entry norm (i + 1))
      (hfirst : i = 0 ∨ entry norm i < pq) :
      Located norm pq (some
        (300 + 10 * i + (pq - entry norm i) / (entry norm (i + 1) - entry norm i) * 10))
  | above (h : entry norm 470 < pq) : Located norm pq (some 5000)

variable {norm : List ℚ} {pq : ℚ} {r : Option ℚ}

namespace IsScale

theorem getElem?_eq (h : IsScale norm) {i : ℕ} (hi : i ≤ 470) : norm[i]? = some (entry norm i) := by
  have hlt : i < norm.length := by
    rw [h.length_eq]
    omega
  rw [entry, List.getElem?_eq_getElem hlt, List.getD_eq_getElem _ _ hlt]

theorem entry_mono (h : IsScale norm) {i j : ℕ} (hij : i ≤ j) (hj : j ≤ 470) :
    entry norm i ≤ entry norm j := by
  rcases hij.eq_or_lt with rfl | hlt
  · exact le_rfl
  · have hi' : i < norm.length := by rw [h.length_eq]; omega
    have hj' : j < norm.length := by rw [h.length_eq]; omega
    rw [entry, entry, List.getD_eq_getElem _ _ hi', List.getD_eq_getElem _ _ hj']
    exact List.pairwise_iff_getElem.mp h.mono i j hi' hj' hlt

end IsScale

theorem located_normalizeFrom (h : IsScale norm) {left index : ℕ} (hsum : left + index = 470)
    (hlower : entry norm index ≤ pq) (hfirst : index = 0 ∨ entry norm index < pq) :
    Located norm pq (normalizeFrom norm pq left index) := by
  induction left generalizing index with
  | zero =>
    have hindex : index = 470 := by omega
    rcases hfirst with h0 | hlt
    · omega
    · rw [hindex] at hlt
      exact .above hlt
  | succ left ih =>
    have hread := h.getElem?_eq (i := index) (by omega)
    have hread' := h.getElem?_eq (i := index + 1) (by omega)
    simp only [normalizeFrom, hread, hread', Option.bind_eq_bind, Option.bind_some]
    by_cases hupper : pq ≤ entry norm (index + 1)
    · rw [if_pos ⟨hlower, hupper⟩, checkedDiv]
      by_cases hflat : entry norm (index + 1) - entry norm index = 0
      · -- past the first entry the quality is above the lower one, so the two differ
        have hpq : pq = entry norm index := by linarith
        have hzero : index = 0 := by
          rcases hfirst with h0 | hlt
          · exact h0
          · linarith
        subst hzero
        rw [if_pos hflat]
        exact .flat hpq (sub_eq_zero.mp hflat).symm
      · have hle := h.entry_mono (i := index) (j := index + 1) (by omega) (by omega)
        have hlt : entry norm index < entry norm (index + 1) :=
          lt_of_le_of_ne hle fun heq => hflat (sub_eq_zero.mpr heq.symm)
        have hloc := Located.between index (by omega) hlt hlower hupper hfirst
        rw [if_neg hflat]
        simp only [kbitmin, kbitstep, Option.bind_some, add_sub_cancel_left]
        exact_mod_cast hloc
    · rw [if_neg fun hb => hupper hb.2]
      exact ih (by omega) (not_le.mp hupper).le (Or.inr (not_le.mp hupper))

theorem located_normalize (h : IsScale norm) (pq : ℚ) : Located norm pq (normalize norm pq) := by
  have hread := h.getElem?_eq (i := 0) (by omega)
  simp only [normalize, hread, Option.bind_eq_bind, Option.bind_some]
  split
  · next hlt => exact .below hlt
  · next hge => exact located_normalizeFrom h rfl (not_lt.mp hge) (Or.inl rfl)

/-- Between two entries the map stays between their rates. -/
theorem between_bounds {x1 x2 : ℚ} (hstep : x1 < x2) (hlower : x1 ≤ pq) (hupper : pq ≤ x2) (y : ℚ) :
    y ≤ y + (pq - x1) / (x2 - x1) * 10 ∧ y + (pq - x1) / (x2 - x1) * 10 ≤ y + 10 := by
  have hpos : 0 < x2 - x1 := sub_pos.mpr hstep
  have hge : 0 ≤ (pq - x1) / (x2 - x1) := div_nonneg (by linarith) hpos.le
  have hle : (pq - x1) / (x2 - x1) ≤ 1 := by
    rw [div_le_one hpos]
    linarith
  constructor <;> linarith

theorem Located.bounds {y : ℚ} (h : Located norm pq (some y)) : 300 ≤ y ∧ y ≤ 5000 := by
  cases h with
  | below h => norm_num
  | above h => norm_num
  | between i hi hstep hlower hupper hfirst =>
    obtain ⟨hge, hle⟩ := between_bounds hstep hlower hupper (300 + 10 * (i : ℚ))
    have hi0 : (0 : ℚ) ≤ i := Nat.cast_nonneg i
    have hi' : (i : ℚ) + 1 ≤ 470 := by exact_mod_cast hi
    constructor <;> linarith

theorem Located.eq_none_iff (h : Located norm pq r) (hscale : IsScale norm) :
    r = none ↔ entry norm 0 = entry norm 1 ∧ pq = entry norm 0 := by
  cases h with
  | flat hpq heq => exact ⟨fun _ => ⟨heq, hpq⟩, fun _ => rfl⟩
  | below h =>
    refine ⟨fun hnone => absurd hnone (Option.some_ne_none _), fun hflat => ?_⟩
    exact absurd hflat.2 h.ne
  | above h =>
    refine ⟨fun hnone => absurd hnone (Option.some_ne_none _), fun hflat => ?_⟩
    have hle := hscale.entry_mono (Nat.zero_le 470) le_rfl
    linarith [hflat.2]
  | between i hi hstep hlower hupper hfirst =>
    refine ⟨fun hnone => absurd hnone (Option.some_ne_none _), fun hflat => ?_⟩
    rcases hfirst with rfl | hlt
    · exact absurd hflat.1 hstep.ne
    · have hle := hscale.entry_mono (Nat.zero_le i) hi.le
      linarith [hflat.2]

theorem normalize_eq_none_iff (hscale : IsScale norm) :
    normalize norm pq = none ↔ entry norm 0 = entry norm 1 ∧ pq = entry norm 0 :=
  (located_normalize hscale pq).eq_none_iff hscale

theorem Located.mono (hscale : IsScale norm) {pq' y y' : ℚ} (hle : pq ≤ pq')
    (h : Located norm pq (some y)) (h' : Located norm pq' (some y')) : y ≤ y' := by
  have hbounds := h.bounds
  have hbounds' := h'.bounds
  cases h with
  | below h => exact hbounds'.1
  | above h =>
    -- what is above the last entry stays above it
    cases h' with
    | above h' => exact le_rfl
    | below h' =>
      have := hscale.entry_mono (Nat.zero_le 470) le_rfl
      linarith
    | between j hj hstep' hlower' hupper' hfirst' =>
      have := hscale.entry_mono (Nat.succ_le_of_lt hj) le_rfl
      linarith
  | between i hi hstep hlower hupper hfirst =>
    cases h' with
    | above h' => exact hbounds.2
    | below h' =>
      have := hscale.entry_mono (Nat.zero_le i) hi.le
      linarith
    | between j hj hstep' hlower' hupper' hfirst' =>
      obtain ⟨-, hupp⟩ := between_bounds hstep hlower hupper (300 + 10 * (i : ℚ))
      obtain ⟨hlow, -⟩ := between_bounds hstep' hlower' hupper' (300 + 10 * (j : ℚ))
      rcases lt_trichotomy i j with hij | rfl | hij
      · have hcast : (i : ℚ) + 1 ≤ j := by exact_mod_cast hij
        linarith
      · have hpos : 0 < entry norm (i + 1) - entry norm i := sub_pos.mpr hstep
        have hquot := (div_le_div_iff_of_pos_right hpos).mpr (sub_le_sub_right hle (entry norm i))
        linarith
      · -- the loop would have stopped for the first quality as well
        have hge := hscale.entry_mono (Nat.succ_le_of_lt hij) hi.le
        rcases hfirst with h0 | hlt
        · omega
        · linarith

/-- Two qualities in order are mapped to two rates in order, exactly if neither is the first
entry of a table that starts with two equal ones. -/
theorem normalize_monotone_iff (hscale : IsScale norm) {p p' : ℚ} (hle : p ≤ p') :
    (∃ y y', normalize norm p = some y ∧ normalize norm p' = some y' ∧
        (300 ≤ y ∧ y ≤ 5000) ∧ (300 ≤ y' ∧ y' ≤ 5000) ∧ y ≤ y') ↔
      ¬(entry norm 0 = entry norm 1 ∧ (p = entry norm 0 ∨ p' = entry norm 0)) := by
  have hloc := located_normalize hscale p
  have hloc' := located_normalize hscale p'
  constructor
  · rintro ⟨y, y', hy, hy', -⟩ ⟨hflat, hp | hp⟩
    · rw [(normalize_eq_none_iff hscale).mpr ⟨hflat, hp⟩] at hy
      cases hy
    · rw [(normalize_eq_none_iff hscale).mpr ⟨hflat, hp⟩] at hy'
      cases hy'
  · intro hflat
    have hp : normalize norm p ≠ none := fun hnone =>
      hflat ⟨((normalize_eq_none_iff hscale).mp hnone).1,
        Or.inl ((normalize_eq_none_iff hscale).mp hnone).2⟩
    have hp' : normalize norm p' ≠ none := fun hnone =>
      hflat ⟨((normalize_eq_none_iff hscale).mp hnone).1,
        Or.inr ((normalize_eq_none_iff hscale).mp hnone).2⟩
    obtain ⟨y, hy⟩ := Option.ne_none_iff_exists'.mp hp
    obtain ⟨y', hy'⟩ := Option.ne_none_iff_exists'.mp hp'
    rw [hy] at hloc
    rw [hy'] at hloc'
    exact ⟨y, y', hy, hy', hloc.bounds, hloc'.bounds, hloc.mono hscale hle hloc'⟩

/-- Quality 0 below the third rate and 1 from there on. -/
def stepScale : List ℚ := List.replicate 2 0 ++ List.replicate 469 1

theorem isScale_stepScale : IsScale stepScale where
  length_eq := by rw [stepScale, List.length_append, List.length_replicate, List.length_replicate]
  mono := by
    rw [stepScale, List.pairwise_append]
    refine ⟨?_, ?_, ?_⟩
    · exact List.pairwise_replicate.mpr (Or.inr le_rfl)
    · exact List.pairwise_replicate.mpr (Or.inr le_rfl)
    · intro x hx y hy
      rw [List.eq_of_mem_replicate hx, List.eq_of_mem_replicate hy]
      norm_num

theorem normalize_monotone_stepScale :
    ∃ y y', normalize stepScale (1 / 2) = some y ∧ normalize stepScale 1 = some y' ∧
      (300 ≤ y ∧ y ≤ 5000) ∧ (300 ≤ y' ∧ y' ≤ 5000) ∧ y ≤ y' := by
  refine (normalize_monotone_iff isScale_stepScale (by norm_num)).mpr ?_
  rintro ⟨-, h | h⟩
  · exact absurd h (by decide +kernel)
  · exact absurd h (by decide +kernel)

/-- The first two entries are equal, and the quality there divides by zero. -/
theorem normalize_stepScale_zero :
    IsScale stepScale ∧ normalize stepScale 0 = none ∧ normalize stepScale (1 / 2) = some 315 :=
  ⟨isScale_stepScale, by decide +kernel, by decide +kernel⟩

end Minerva
end LiveStream
