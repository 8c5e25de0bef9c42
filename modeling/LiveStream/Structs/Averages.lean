import LiveStream.Lib.Checked
import LiveStream.Lib.Window

/-!
# Moving averages

`MovingAverage` of `structs/averages.cc` keeps the last samples in a queue; what its subclasses
keep is updated by their methods `push` and `pop`. Floats are exact rationals. Reading or erasing
what is not there is `none`.

* `after_spec`, an invariant that `push` and `pop` keep holds after any samples;
* `SimpleMovingAverage.value_eq_mean`, the running total is that of the window;
* `WilderEMA.within_range_iff`, the exponential average starts from 0, so it leaves the range of
  the samples unless its weight is 1 or the first sample is 0.
-/

namespace LiveStream
namespace Structs

open Lib

/-! ## The base class -/

/-- The virtual methods of a subclass that keeps a `σ`. -/
structure Methods (σ : Type) where
  push : σ → ℚ → Option σ
  pop : σ → ℚ → Option σ

structure MovingAverage (σ : Type) where
  /-- The member `_size`. -/
  windowSize : ℕ
  samples : List ℚ
  state : σ

namespace MovingAverage

variable {σ : Type}

def new (windowSize : ℕ) (state : σ) : MovingAverage σ := ⟨windowSize, [], state⟩

/-- `sample`, up to the point where the oldest sample has gone. -/
def expire (methods : Methods σ) (a : MovingAverage σ) : Option (MovingAverage σ) :=
  if a.samples.length = a.windowSize then do
    let front ← a.samples.head?
    let state ← methods.pop a.state front
    some { a with samples := a.samples.tail, state := state }
  else some a

def sample (methods : Methods σ) (a : MovingAverage σ) (sample : ℚ) :
    Option (MovingAverage σ) := do
  let a ← a.expire methods
  let state ← methods.push a.state sample
  some { a with samples := a.samples ++ [sample], state := state }

/-- The average after a sample, for the use of an average that does not fail. -/
def sampled (methods : Methods σ) (a : MovingAverage σ) (x : ℚ) : MovingAverage σ :=
  (a.sample methods x).getD a

def size (a : MovingAverage σ) : ℕ := a.samples.length

def last (a : MovingAverage σ) : Option ℚ := a.samples.getLast?

def empty (a : MovingAverage σ) : Bool := a.samples.isEmpty

/-- `value_or`, with the subclass's `value`. -/
def valueOr (value : MovingAverage σ → Option ℚ) (default : ℚ) (a : MovingAverage σ) : Option ℚ :=
  if a.empty then some default else value a

/-- A new average of the given size after some samples. -/
def after (methods : Methods σ) (state : σ) (windowSize : ℕ) (samples : List ℚ) :
    Option (MovingAverage σ) :=
  samples.foldlM (sample methods) (new windowSize state)

/-- What `push` and `pop` keep of the samples so far, the window and what the subclass keeps. -/
structure Kept (methods : Methods σ) (windowSize : ℕ) (Inv : List ℚ → List ℚ → σ → Prop) :
    Prop where
  pop : ∀ seen front window state, Inv seen (front :: window) state →
    ∃ state', methods.pop state front = some state' ∧ Inv seen window state'
  push : ∀ seen window state x, window.length < windowSize → Inv seen window state →
    ∃ state', methods.push state x = some state' ∧ Inv (seen ++ [x]) (window ++ [x]) state'

/-- The window of an average is the last samples, and the subclass keeps its invariant. -/
structure Fits (windowSize : ℕ) (Inv : List ℚ → List ℚ → σ → Prop) (seen : List ℚ)
    (a : MovingAverage σ) : Prop where
  windowSize_eq : a.windowSize = windowSize
  samples_eq : a.samples = seen.rtake windowSize
  inv : Inv seen (seen.rtake windowSize) a.state

variable {methods : Methods σ} {windowSize : ℕ} {Inv : List ℚ → List ℚ → σ → Prop}

theorem expire_spec (hkept : Kept methods (windowSize + 1) Inv) {seen : List ℚ}
    {a : MovingAverage σ} (h : Fits (windowSize + 1) Inv seen a) :
    ∃ state, a.expire methods = some ⟨windowSize + 1, seen.rtake windowSize, state⟩ ∧
      Inv seen (seen.rtake windowSize) state := by
  obtain ⟨size, samples, state⟩ := a
  obtain ⟨hsize, hsamples, hinv⟩ := h
  simp only at hsize hsamples hinv
  subst hsize hsamples
  unfold expire
  by_cases hfull : (seen.rtake (windowSize + 1)).length = windowSize + 1
  · have htail := tail_rtake_of_full hfull
    rw [if_pos hfull]
    cases hw : seen.rtake (windowSize + 1) with
    | nil => rw [hw] at hfull; cases hfull
    | cons front window =>
      rw [hw] at hinv htail
      obtain ⟨state', hpop, hinv'⟩ := hkept.pop _ _ _ _ hinv
      refine ⟨state', ?_, htail ▸ hinv'⟩
      simp [hpop, ← htail]
  · have hsame := rtake_of_not_full hfull
    rw [if_neg hfull]
    exact ⟨state, by rw [hsame], hsame ▸ hinv⟩

theorem sample_spec (hkept : Kept methods (windowSize + 1) Inv) {seen : List ℚ}
    {a : MovingAverage σ} (h : Fits (windowSize + 1) Inv seen a) (x : ℚ) :
    ∃ a', a.sample methods x = some a' ∧ Fits (windowSize + 1) Inv (seen ++ [x]) a' := by
  obtain ⟨state, hexpire, hinv⟩ := expire_spec hkept h
  have hlen := length_rtake_le seen windowSize
  obtain ⟨state', hpush, hinv'⟩ := hkept.push _ _ _ x (by omega) hinv
  refine ⟨⟨windowSize + 1, seen.rtake windowSize ++ [x], state'⟩, ?_, ?_⟩
  · simp [sample, hexpire, hpush]
  · rw [← List.rtake_concat_succ] at hinv' ⊢
    exact ⟨rfl, rfl, hinv'⟩

/-- One more sample. -/
theorem sampled_eq {state : σ} {samples : List ℚ} {x : ℚ} {a b : MovingAverage σ}
    (ha : after methods state windowSize samples = some a)
    (hb : after methods state windowSize (samples ++ [x]) = some b) :
    a.sampled methods x = b := by
  unfold after at ha hb
  rw [List.foldlM_append, ha] at hb
  have hsample : a.sample methods x = some b := by simpa using hb
  rw [sampled, hsample]
  rfl

/-- Samples never fail, and leave the window and the invariant. -/
theorem after_spec (hsize : 1 ≤ windowSize) (hkept : Kept methods windowSize Inv) (state : σ)
    (hinit : Inv [] [] state) (samples : List ℚ) :
    ∃ a, after methods state windowSize samples = some a ∧ Fits windowSize Inv samples a := by
  obtain ⟨n, rfl⟩ : ∃ n, windowSize = n + 1 := ⟨windowSize - 1, by omega⟩
  apply foldlM_history
  · refine ⟨rfl, ?_, ?_⟩
    · simp [new, List.rtake]
    · simpa [new, List.rtake] using hinit
  · intro seen a x ha
    exact sample_spec hkept ha x

end MovingAverage

/-! ## The simple average -/

namespace SimpleMovingAverage

def methods : Methods ℚ where
  push := fun total value => some (total + value)
  pop := fun total value => some (total - value)

/-- `value`, which divides by zero without samples. -/
def value (a : MovingAverage ℚ) : Option ℚ := checkedDiv a.state a.size

theorem kept_sum (windowSize : ℕ) :
    MovingAverage.Kept methods windowSize fun _ window total => total = window.sum where
  pop := by
    intro seen front window total h
    refine ⟨_, rfl, ?_⟩
    rw [h, List.sum_cons]
    ring
  push := by
    intro seen window total x _ h
    exact ⟨_, rfl, by rw [h, List.sum_append, List.sum_singleton]⟩

theorem value_eq_mean {windowSize : ℕ} (hsize : 1 ≤ windowSize) {samples : List ℚ}
    (hne : samples ≠ []) :
    (MovingAverage.after methods 0 windowSize samples).bind value =
      some ((samples.rtake windowSize).sum / (samples.rtake windowSize).length) := by
  obtain ⟨a, hrun, hfits⟩ :=
    MovingAverage.after_spec hsize (kept_sum windowSize) 0 List.sum_nil.symm samples
  have hpos := length_rtake_pos hsize hne
  have hne0 : ((samples.rtake windowSize).length : ℚ) ≠ 0 := by
    exact_mod_cast hpos.ne'
  rw [hrun, Option.bind_some, value, MovingAverage.size, hfits.samples_eq, checkedDiv,
    if_neg hne0, hfits.inv]

end SimpleMovingAverage

/-! ## The exponential average -/

namespace WilderEMA

/-- The member `m`. -/
def m (windowSize : ℕ) : ℚ := 1 / windowSize

def methods (windowSize : ℕ) : Methods ℚ where
  push := fun ema value => some (m windowSize * value + (1 - m windowSize) * ema)
  pop := fun ema _ => some ema

def value (a : MovingAverage ℚ) : ℚ := a.state

def after (windowSize : ℕ) (samples : List ℚ) : Option (MovingAverage ℚ) :=
  MovingAverage.after (methods windowSize) 0 windowSize samples

/-- A value lies between the smallest and the largest of the samples. -/
def WithinRange (samples : List ℚ) (v : ℚ) : Prop := (∃ x ∈ samples, x ≤ v) ∧ ∃ x ∈ samples, v ≤ x

instance (samples : List ℚ) (v : ℚ) : Decidable (WithinRange samples v) :=
  inferInstanceAs (Decidable (_ ∧ _))

/-- After these samples, the average lies between the smallest and the largest of them. -/
def IsAverage (windowSize : ℕ) (samples : List ℚ) : Prop :=
  ∃ a, after windowSize samples = some a ∧ WithinRange samples (value a)

variable {windowSize : ℕ}

theorem m_nonneg (windowSize : ℕ) : 0 ≤ m windowSize := by
  unfold m
  positivity

theorem m_le_one (hsize : 1 ≤ windowSize) : m windowSize ≤ 1 := by
  have hcast : (1 : ℚ) ≤ windowSize := by exact_mod_cast hsize
  rw [m, div_le_one (by linarith)]
  exact hcast

theorem m_eq_one_iff : m windowSize = 1 ↔ windowSize = 1 := by
  unfold m
  by_cases hzero : windowSize = 0
  · subst hzero
    norm_num
  · have hne : (windowSize : ℚ) ≠ 0 := by exact_mod_cast hzero
    rw [div_eq_one_iff_eq hne]
    constructor
    · intro h
      exact_mod_cast h.symm
    · intro h
      rw [h, Nat.cast_one]

/-- A weighted mean of a new sample and a value within the range is within the range. -/
theorem WithinRange.push (hsize : 1 ≤ windowSize) {samples : List ℚ} {ema : ℚ}
    (h : WithinRange samples ema) (x : ℚ) :
    WithinRange (samples ++ [x]) (m windowSize * x + (1 - m windowSize) * ema) := by
  obtain ⟨⟨lo, hlo, hle⟩, hi, hhi, hge⟩ := h
  have h0 := m_nonneg windowSize
  have h1 : 0 ≤ 1 - m windowSize := sub_nonneg.mpr (m_le_one hsize)
  have hx : x ∈ samples ++ [x] := List.mem_append_right _ (List.mem_singleton_self x)
  rcases le_total x ema with hcase | hcase
  · refine ⟨⟨x, hx, ?_⟩, hi, List.mem_append_left _ hhi, ?_⟩
    · nlinarith [mul_le_mul_of_nonneg_left hcase h1]
    · nlinarith [mul_le_mul_of_nonneg_left hcase h0]
  · refine ⟨⟨lo, List.mem_append_left _ hlo, ?_⟩, x, hx, ?_⟩
    · nlinarith [mul_le_mul_of_nonneg_left hcase h0]
    · nlinarith [mul_le_mul_of_nonneg_left hcase h1]

/-- The initial 0 counts as a sample. -/
theorem kept_withinRange (hsize : 1 ≤ windowSize) :
    MovingAverage.Kept (methods windowSize) windowSize
      fun seen _ ema => WithinRange (0 :: seen) ema where
  pop := fun _ _ _ ema h => ⟨ema, rfl, h⟩
  push := fun _ _ _ x _ h => ⟨_, rfl, h.push hsize x⟩

theorem after_withinRange (hsize : 1 ≤ windowSize) (samples : List ℚ) :
    ∃ a, after windowSize samples = some a ∧ WithinRange (0 :: samples) (value a) := by
  have hinit : WithinRange [0] 0 := by simp [WithinRange]
  obtain ⟨a, hrun, hfits⟩ :=
    MovingAverage.after_spec hsize (kept_withinRange hsize) 0 hinit samples
  exact ⟨a, hrun, hfits.inv⟩

theorem isAverage_of_zero (hsize : 1 ≤ windowSize) {samples : List ℚ}
    (h : WithinRange samples 0) : IsAverage windowSize samples := by
  obtain ⟨a, hrun, ⟨lo, hlo, hle⟩, hi, hhi, hge⟩ := after_withinRange hsize samples
  obtain ⟨⟨x, hx, hx0⟩, y, hy, hy0⟩ := h
  refine ⟨a, hrun, ?_, ?_⟩
  · rcases List.mem_cons.mp hlo with rfl | hmem
    · exact ⟨x, hx, hx0.trans hle⟩
    · exact ⟨lo, hmem, hle⟩
  · rcases List.mem_cons.mp hhi with rfl | hmem
    · exact ⟨y, hy, hge.trans hy0⟩
    · exact ⟨hi, hmem, hge⟩

/-- A window of one keeps the last sample. -/
theorem kept_last : MovingAverage.Kept (methods 1) 1
    fun seen _ ema => ∀ x ∈ seen.getLast?, ema = x where
  pop := fun _ _ _ ema h => ⟨ema, rfl, h⟩
  push := by
    intro seen window ema x _ _
    refine ⟨_, rfl, ?_⟩
    simp [m]

theorem isAverage_one {samples : List ℚ} (hne : samples ≠ []) : IsAverage 1 samples := by
  obtain ⟨a, hrun, hfits⟩ :=
    MovingAverage.after_spec le_rfl kept_last 0 (by simp) samples
  have hlast := hfits.inv _ (List.getLast?_eq_some_getLast hne)
  have hmem := List.getLast_mem hne
  exact ⟨a, hrun, ⟨_, hmem, hlast.ge⟩, _, hmem, hlast.le⟩

theorem isAverage_singleton (hsize : 1 ≤ windowSize) (x : ℚ) :
    IsAverage windowSize [x] ↔ windowSize = 1 ∨ x = 0 := by
  have hne : ¬(0 = windowSize) := by omega
  have hrun : after windowSize [x] =
      some ⟨windowSize, [x], m windowSize * x + (1 - m windowSize) * 0⟩ := by
    simp [after, MovingAverage.after, MovingAverage.sample, MovingAverage.expire,
      MovingAverage.new, methods, hne]
  have heq : IsAverage windowSize [x] ↔ m windowSize * x = x := by
    simp only [IsAverage, hrun, Option.some.injEq, exists_eq_left', value, WithinRange,
      List.mem_singleton, exists_eq_left, mul_zero, add_zero]
    rw [and_comm, ← le_antisymm_iff]
  rw [heq, ← m_eq_one_iff]
  constructor
  · intro h
    by_cases hx : x = 0
    · exact Or.inr hx
    · exact Or.inl (mul_right_cancel₀ hx (by rw [h, one_mul]))
  · rintro (h | h)
    · rw [h, one_mul]
    · rw [h, mul_zero]

/-- All along the samples the value is within their range exactly if the window is one sample or
the first sample is 0; at one time, a range around 0 is enough. -/
theorem within_range_iff (hsize : 1 ≤ windowSize) {samples : List ℚ} (hne : samples ≠ []) :
    ((∀ seen, seen <+: samples → seen ≠ [] → IsAverage windowSize seen) ↔
      windowSize = 1 ∨ samples.head? = some 0) ∧
    (WithinRange samples 0 → IsAverage windowSize samples) := by
  refine ⟨⟨?_, ?_⟩, isAverage_of_zero hsize⟩
  · intro h
    cases samples with
    | nil => exact absurd rfl hne
    | cons first rest =>
      have hfirst := h [first] ⟨rest, rfl⟩ (by simp)
      rw [isAverage_singleton hsize] at hfirst
      simpa using hfirst
  · rintro (rfl | hzero) seen hseen hne'
    · exact isAverage_one hne'
    · -- the first sample is in every prefix
      apply isAverage_of_zero hsize
      obtain ⟨rest, rfl⟩ := hseen
      cases seen with
      | nil => exact absurd rfl hne'
      | cons first seen =>
        have hfirst : first = 0 := by simpa using hzero
        exact ⟨⟨first, by simp, hfirst.le⟩, first, by simp, hfirst.ge⟩

theorem within_range_from_zero :
    IsAverage 10 [0, 100] ∧ ¬(10 = 1 ∨ ([100] : List ℚ).head? = some 0) ∧
      ¬∀ seen, seen <+: [100] → seen ≠ [] → IsAverage 10 seen := by
  have hzero := (@within_range_iff 10 (by decide) [0, 100] (by simp)).1
  have hpos := (@within_range_iff 10 (by decide) [100] (by simp)).1
  refine ⟨hzero.mpr (Or.inr rfl) _ List.prefix_rfl (by simp), by simp, ?_⟩
  rw [hpos]
  simp

/-- On a link that delivers at 100, the first average of ten samples is 10. -/
theorem first_average_below_samples :
    (after 10 [100]).map value = some 10 ∧ ¬IsAverage 10 [100] := by
  refine ⟨by decide +kernel, ?_⟩
  rw [isAverage_singleton (by decide)]
  norm_num

end WilderEMA
end Structs
end LiveStream
