import LiveStream.Structs.Averages
import LiveStream.Worthed.WorthedAbr

/-!
# The rates of `WorthedAbr`

`StateTracker` keeps what the congestion control estimates: the last bandwidth, and an average in
which a sudden drop counts twice. From the last bandwidth `computeRates` takes a safe rate, and
climbs from it in equal steps to the first rate whose reward is worth the difference.

* `StateTracker.Tracked` and its step lemma, the range of what the tracker keeps;
* `climb_spec`, where the loop of `computeRates` ends;
* `computeRates_worthed`, what that means for the two rates.
-/

namespace LiveStream
namespace Worthed

open Lib AbrSchema WorthedAbrConstants
open Abr (Tables)
open Structs

/-! ## The tracker -/

namespace StateTrackerConstants

def bandwidthWindow : ℕ := 10

end StateTrackerConstants

open StateTrackerConstants

/-- What the interface of the congestion control answers, nothing before there is a connection. -/
structure Estimates where
  bandwidth : Option ℤ
  pacingGain : Option ℚ
  rtt : Option ℤ

/-- The members of `StateTracker` that are not in `WorthedAbr` already. -/
structure StateTracker where
  averageBandwidth : MovingAverage ℚ
  lastBandwidth : Option Value
  lastRtt : Option Value
  lastTimestamp : ℤ

namespace StateTracker

def init : StateTracker := ⟨.new bandwidthWindow 0, none, none, 0⟩

/-- `bw_value`: limited by the highest bitrate, scaled down in the aggressive part of a cycle. -/
def bwValue (topRate bandwidth : ℤ) (pacingGain : Option ℚ) : ℤ :=
  let bwValue := min bandwidth topRate
  match pacingGain with
  | none => bwValue
  | some gain => if 1 < gain then truncate (1 / gain * bwValue) else bwValue

/-- What happens to the average. A repeated value does not count, and a drop counts twice. -/
def average (a : MovingAverage ℚ) (bwValue : ℤ) : MovingAverage ℚ :=
  if a.empty ∨ a.last ≠ some (bwValue : ℚ) then
    let methods := WilderEMA.methods bandwidthWindow
    let a :=
      if !a.empty ∧ bwValue ≤ WilderEMA.value a * (7 / 10) then a.sampled methods bwValue else a
    a.sampled methods bwValue
  else a

/-- `registerMetrics`; the player time and the buffer level are kept by `registerReports`. -/
def registerMetrics (t : StateTracker) (topRate : ℤ) (metrics : Metrics) (e : Estimates) :
    StateTracker :=
  let timestamp := metrics.segments.foldl (fun last segment => max last segment.timestamp)
    t.lastTimestamp
  let t := { t with lastTimestamp := timestamp }
  let t :=
    match e.bandwidth with
    | none => t
    | some bandwidth =>
      let bwValue := bwValue topRate bandwidth e.pacingGain
      { t with
        lastBandwidth := some ⟨bwValue, timestamp⟩
        averageBandwidth := average t.averageBandwidth bwValue }
  match e.rtt with
  | none => t
  | some rtt => { t with lastRtt := some ⟨rtt, timestamp⟩ }

/-- `(int)average_bandwidth->value_or(bitrate_array[0])`. -/
def bandwidthForDecision (t : StateTracker) (lowestRate : ℤ) : ℤ :=
  if t.averageBandwidth.empty then lowestRate else truncate (WilderEMA.value t.averageBandwidth)

/-! ## What the tracker keeps -/

/-- An average over bandwidths between zero and the highest bitrate. -/
def Averages (topRate : ℤ) (a : MovingAverage ℚ) : Prop :=
  ∃ seen : List ℚ, (∀ x ∈ seen, 0 ≤ x ∧ x ≤ topRate) ∧ MovingAverage.Fits bandwidthWindow
    (fun seen _ ema => WilderEMA.WithinRange (0 :: seen) ema) seen a

/-- The range of what is kept. -/
structure Tracked (topRate : ℤ) (t : StateTracker) : Prop where
  average : Averages topRate t.averageBandwidth
  last : ∀ value ∈ t.lastBandwidth, 0 ≤ value.value ∧ value.value ≤ topRate

variable {topRate : ℤ}

theorem Averages.sampled {a : MovingAverage ℚ} (h : Averages topRate a) {x : ℚ}
    (hx : 0 ≤ x ∧ x ≤ topRate) :
    Averages topRate (a.sampled (WilderEMA.methods bandwidthWindow) x) := by
  obtain ⟨seen, hseen, hfits⟩ := h
  obtain ⟨a', ha', hfits'⟩ : ∃ a', a.sample (WilderEMA.methods bandwidthWindow) x = some a' ∧ _ :=
    MovingAverage.sample_spec (WilderEMA.kept_withinRange (by decide)) hfits x
  refine ⟨seen ++ [x], ?_, ?_⟩
  · rw [List.forall_mem_append]
    refine ⟨hseen, fun y hy => ?_⟩
    rw [List.mem_singleton.mp hy]
    exact hx
  · rw [MovingAverage.sampled, ha']
    exact hfits'

theorem Averages.average {a : MovingAverage ℚ} (h : Averages topRate a) {bwValue : ℤ}
    (hvalue : 0 ≤ bwValue ∧ bwValue ≤ topRate) :
    Averages topRate (StateTracker.average a bwValue) := by
  have hx : 0 ≤ (bwValue : ℚ) ∧ (bwValue : ℚ) ≤ topRate := by exact_mod_cast hvalue
  unfold StateTracker.average
  split
  · refine Averages.sampled ?_ hx
    split
    · exact h.sampled hx
    · exact h
  · exact h

/-- The value of the average is in the range as well: the zero it starts from is. -/
theorem Averages.value {a : MovingAverage ℚ} (h : Averages topRate a) (htop : 0 ≤ topRate) :
    0 ≤ WilderEMA.value a ∧ WilderEMA.value a ≤ topRate := by
  obtain ⟨seen, hseen, hfits⟩ := h
  obtain ⟨⟨low, hlow, hle⟩, high, hhigh, hge⟩ := hfits.inv
  have hrange : ∀ x ∈ 0 :: seen, 0 ≤ x ∧ x ≤ (topRate : ℚ) := by
    rw [List.forall_mem_cons]
    exact ⟨⟨le_rfl, by exact_mod_cast htop⟩, hseen⟩
  exact ⟨(hrange low hlow).1.trans hle, hge.trans (hrange high hhigh).2⟩

/-- Both the limit and the scaling only take away. -/
theorem bwValue_range (htop : 0 ≤ topRate) {bandwidth : ℤ} (hbandwidth : 0 ≤ bandwidth)
    (pacingGain : Option ℚ) :
    0 ≤ bwValue topRate bandwidth pacingGain ∧ bwValue topRate bandwidth pacingGain ≤ topRate := by
  have hmin : 0 ≤ min bandwidth topRate := le_min hbandwidth htop
  have hle : min bandwidth topRate ≤ topRate := min_le_right _ _
  unfold bwValue
  cases pacingGain with
  | none => exact ⟨hmin, hle⟩
  | some gain =>
    simp only
    split
    · next hgain =>
      have hpos : (0 : ℚ) < gain := by linarith
      have hmin' : (0 : ℚ) ≤ (min bandwidth topRate : ℤ) := by exact_mod_cast hmin
      have hscaled : 1 / gain * (min bandwidth topRate : ℤ) ≤ (min bandwidth topRate : ℤ) := by
        have hinv : 1 / gain ≤ 1 := by
          rw [div_le_one hpos]
          exact hgain.le
        exact mul_le_of_le_one_left hmin' hinv
      exact ⟨truncate_nonneg (by positivity), (truncate_le hscaled).trans hle⟩
    · exact ⟨hmin, hle⟩

/-- A report keeps the last bandwidth and the average between zero and the highest bitrate. -/
theorem Tracked.registerMetrics {t : StateTracker} (h : Tracked topRate t) (htop : 0 ≤ topRate)
    (metrics : Metrics) {e : Estimates} (he : ∀ bandwidth ∈ e.bandwidth, 0 ≤ bandwidth) :
    Tracked topRate (t.registerMetrics topRate metrics e) := by
  have hrtt : ∀ (t : StateTracker) (rtt : Option ℤ) (timestamp : ℤ), Tracked topRate t →
      Tracked topRate (match rtt with
        | none => t
        | some rtt => { t with lastRtt := some ⟨rtt, timestamp⟩ }) := by
    intro t rtt timestamp ht
    cases rtt with
    | none => exact ht
    | some rtt => exact ⟨ht.average, ht.last⟩
  unfold StateTracker.registerMetrics
  apply hrtt
  cases hbandwidth : e.bandwidth with
  | none => exact ⟨h.average, h.last⟩
  | some bandwidth =>
    have hrange := bwValue_range htop (he bandwidth hbandwidth) e.pacingGain
    refine ⟨h.average.average hrange, fun value hvalue => ?_⟩
    rw [← Option.some.inj hvalue]
    exact hrange

theorem tracked_init (topRate : ℤ) : Tracked topRate init where
  average := by
    refine ⟨[], fun x hx => absurd hx List.not_mem_nil, rfl, ?_, ?_⟩
    · simp [init, MovingAverage.new, List.rtake]
    · simp [init, MovingAverage.new, WilderEMA.WithinRange]
  last _ hvalue := absurd hvalue (by simp [init])

end StateTracker

/-! ## The two rates -/

namespace WorthedAbrConstants

def rewardDeltaStochastic : ℚ := 4000

def rewardDelta : ℚ := 5000

end WorthedAbrConstants

/-- `reward - reward_safe >= needed_reward`, where no reward is minus infinity: the difference of
two infinities is not a number, and compares with nothing. -/
def worthIt (needed : ℚ) : WithBot ℚ → WithBot ℚ → Bool
  | some reward, some safe => needed ≤ reward - safe
  | some _, none => true
  | none, _ => false

/-- The loop of `computeRates`. The rate tried in round `k` is compared by `enough k`. -/
def climb (enough : ℕ → ℚ → Bool) (step limit : ℚ) : ℕ → ℕ → ℚ → ℚ
  | 0, _, current => current
  | fuel + 1, k, current =>
    if current ≤ limit then
      if enough k (current + step) then current + step
      else climb enough step limit fuel (k + 1) (current + step)
    else current

/-- The rounds the loop can make from a rate. -/
def climbRounds (step limit current : ℚ) : ℕ := (⌊(limit - current) / step⌋ + 1).toNat

theorem lt_climbRounds {step : ℚ} (hstep : 0 < step) (limit current : ℚ) :
    limit < current + climbRounds step limit current * step := by
  have hfloor : (limit - current) / step < (⌊(limit - current) / step⌋ + 1 : ℤ) := by
    push_cast
    exact Int.lt_floor_add_one _
  have hle : ((⌊(limit - current) / step⌋ + 1 : ℤ) : ℚ) ≤ climbRounds step limit current := by
    exact_mod_cast Int.self_le_toNat _
  have hlt := (div_lt_iff₀ hstep).mp (hfloor.trans_le hle)
  linarith

/-- Where the loop ends, if it has rounds enough to pass the limit: after `n` steps, of which none
but the last was enough, and the last was, or has passed the limit. -/
theorem climb_spec (enough : ℕ → ℚ → Bool) {step limit : ℚ} (hstep : 0 < step) :
    ∀ (fuel k : ℕ) (current : ℚ), limit < current + fuel * step →
      ∃ n : ℕ, climb enough step limit fuel k current = current + n * step ∧
        (∀ j < n, current + j * step ≤ limit) ∧
        (∀ j, j + 1 < n → enough (k + j) (current + (j + 1 : ℕ) * step) = false) ∧
        (n = 0 → limit < current) ∧
        ∀ j, n = j + 1 → enough (k + j) (current + n * step) = true ∨ limit < current + n * step
  | 0, k, current, h => by
    refine ⟨0, by simp [climb], fun j hj => absurd hj (Nat.not_lt_zero j),
      fun j hj => absurd hj (Nat.not_lt_zero _), fun _ => ?_, fun j hj => by cases hj⟩
    simpa using h
  | fuel + 1, k, current, h => by
    unfold climb
    split
    · next hle =>
      have hzero : ∀ j < 1, current + (j : ℕ) * step ≤ limit := by
        intro j hj
        rw [Nat.lt_one_iff.mp hj]
        simpa using hle
      split
      · next henough =>
        refine ⟨1, by simp, hzero, fun j hj => by omega, fun h => absurd h Nat.one_ne_zero,
          fun j hj => ?_⟩
        obtain rfl : j = 0 := by omega
        left
        simpa using henough
      · next henough =>
        have hfuel : limit < current + step + fuel * step := by
          push_cast at h
          linarith
        obtain ⟨n, hn, hbelow, hnot, hstart, hend⟩ :=
          climb_spec enough hstep fuel (k + 1) (current + step) hfuel
        have hshift : ∀ j : ℕ, current + step + j * step = current + (j + 1 : ℕ) * step := by
          intro j
          push_cast
          ring
        refine ⟨n + 1, by rw [hn, hshift], ?_, ?_, fun h => absurd h n.succ_ne_zero, ?_⟩
        · intro j hj
          cases j with
          | zero => simpa using hle
          | succ j =>
            rw [← hshift]
            exact hbelow j (by omega)
        · intro j hj
          cases j with
          | zero => simpa using henough
          | succ j =>
            have hj' := hnot j (by omega)
            rw [hshift] at hj'
            rw [show k + (j + 1) = k + 1 + j by omega]
            exact hj'
        · intro j hj
          obtain rfl : j = n := by omega
          rw [← hshift]
          cases j with
          | zero =>
            right
            simpa using hstart rfl
          | succ j =>
            rw [show k + (j + 1) = k + 1 + j by omega]
            exact hend j rfl
    · next hlt =>
      refine ⟨0, by simp, fun j hj => absurd hj (Nat.not_lt_zero j),
        fun j hj => absurd hj (Nat.not_lt_zero _), fun _ => not_le.mp hlt, fun j hj => by cases hj⟩

/-- What a call of `computeRates` reads besides the object, for each of its calls of
`compute_reward_and_quality`: the random numbers, and what is returned where nothing is defined. -/
structure RateReadings where
  rand : ℕ → Draws
  undefined : ℕ → List ℤ → WithBot ℚ

namespace WorthedAbr

variable (s : WorthedAbr) (v : Tables) (e : RateReadings) (stochastic : Bool)

/-- The reward at a rate, in the given call of `compute_reward_and_quality`. -/
def rewardAt (call : ℕ) (rate : ℚ) : WithBot ℚ :=
  (computeRewardAndQuality v (e.rand call) (e.undefined call) (s.base.decisionIndex - 1 + 1)
    (truncate rate) s.lastBufferLevel.value s.lastQuality stochastic s.lastQuality).1

/-- `bandwidth_kbps`. -/
def bandwidthKbps (t : StateTracker) : ℤ :=
  match t.lastBandwidth with
  | some value => value.value
  | none => v.bitrateArray.head v.rates

def topRate (v : Tables) : ℤ := v.bitrateArray.getLast v.rates

/-- `rate_safe`. -/
def rateSafe (t : StateTracker) : ℚ := bandwidthKbps v t * safeDownscale

def scaleStepKbps (stochastic : Bool) : ℚ := if stochastic then 150 else 100

def neededReward (stochastic : Bool) : ℚ :=
  if stochastic then rewardDeltaStochastic else rewardDelta

def maxBandwidthKbps (v : Tables) : ℚ := 2 * topRate v

/-- Whether the rate of a round of the loop is worth the step up from the safe one, whose reward is
the first that is computed. -/
def enoughAt (t : StateTracker) (k : ℕ) (rate : ℚ) : Bool :=
  worthIt (neededReward stochastic) (s.rewardAt v e stochastic (k + 1) rate)
    (s.rewardAt v e stochastic 0 (rateSafe v t))

/-- `rate_worthed`. -/
def rateWorthed (t : StateTracker) : ℚ :=
  climb (s.enoughAt v e stochastic t) (scaleStepKbps stochastic) (maxBandwidthKbps v)
    (climbRounds (scaleStepKbps stochastic) (maxBandwidthKbps v) (rateSafe v t)) 0 (rateSafe v t)

/-- `computeRates`; the pair it returns is one of integers. -/
def computeRates (t : StateTracker) : ℤ × ℤ :=
  (truncate (rateSafe v t), truncate (s.rateWorthed v e stochastic t))

theorem scaleStepKbps_pos : 0 < scaleStepKbps stochastic := by
  cases stochastic
  · exact (by decide : (0 : ℚ) < 100)
  · exact (by decide : (0 : ℚ) < 150)

/-- Where the loop ends: it has rounds enough to pass the limit. -/
theorem rateWorthed_spec (t : StateTracker) :
    ∃ n : ℕ, s.rateWorthed v e stochastic t = rateSafe v t + n * scaleStepKbps stochastic ∧
      (∀ j < n, rateSafe v t + j * scaleStepKbps stochastic ≤ maxBandwidthKbps v) ∧
      (∀ j, j + 1 < n → s.enoughAt v e stochastic t j
        (rateSafe v t + (j + 1 : ℕ) * scaleStepKbps stochastic) = false) ∧
      (n = 0 → maxBandwidthKbps v < rateSafe v t) ∧
      ∀ j, n = j + 1 →
        s.enoughAt v e stochastic t j (rateSafe v t + n * scaleStepKbps stochastic) = true ∨
          maxBandwidthKbps v < rateSafe v t + n * scaleStepKbps stochastic := by
  have hstep := scaleStepKbps_pos stochastic
  have hspec := climb_spec (s.enoughAt v e stochastic t) hstep _ 0 _
    (lt_climbRounds hstep (maxBandwidthKbps v) (rateSafe v t))
  simp only [Nat.zero_add] at hspec
  exact hspec

theorem rateSafe_le_rateWorthed (t : StateTracker) :
    rateSafe v t ≤ s.rateWorthed v e stochastic t := by
  obtain ⟨n, hn, -⟩ := s.rateWorthed_spec v e stochastic t
  have hstep := scaleStepKbps_pos stochastic
  have hnonneg : 0 ≤ (n : ℚ) * scaleStepKbps stochastic := by positivity
  rw [hn]
  linarith

/-- Only the last step can pass the limit. -/
theorem rateWorthed_le (t : StateTracker) :
    s.rateWorthed v e stochastic t ≤
      max (rateSafe v t) (maxBandwidthKbps v + scaleStepKbps stochastic) := by
  obtain ⟨n, hn, hbelow, -⟩ := s.rateWorthed_spec v e stochastic t
  rw [hn]
  cases n with
  | zero => simp
  | succ j =>
    have hj := hbelow j (Nat.lt_succ_self j)
    apply le_max_of_le_right
    push_cast
    linarith

/-- The worthed rate is some steps above the safe one. None of the rates below it was worth it, and
it is worth it itself or the first one past twice the highest bitrate. So it is not below the
safe rate, and at most one step past that limit unless the safe rate is. -/
theorem computeRates_worthed (t : StateTracker) :
    ∃ n : ℕ, s.rateWorthed v e stochastic t = rateSafe v t + n * scaleStepKbps stochastic ∧
      (∀ j, j + 1 < n → s.enoughAt v e stochastic t j
        (rateSafe v t + (j + 1 : ℕ) * scaleStepKbps stochastic) = false) ∧
      ((∃ j, n = j + 1 ∧ s.enoughAt v e stochastic t j (s.rateWorthed v e stochastic t) = true) ∨
        maxBandwidthKbps v < s.rateWorthed v e stochastic t) ∧
      s.rateWorthed v e stochastic t ≤
        max (rateSafe v t) (maxBandwidthKbps v + scaleStepKbps stochastic) ∧
      (s.computeRates v e stochastic t).1 ≤ (s.computeRates v e stochastic t).2 := by
  obtain ⟨n, hn, -, hnot, hstart, hend⟩ := s.rateWorthed_spec v e stochastic t
  refine ⟨n, hn, hnot, ?_, s.rateWorthed_le v e stochastic t,
    truncate_mono (s.rateSafe_le_rateWorthed v e stochastic t)⟩
  rw [hn]
  cases n with
  | zero =>
    right
    simpa using hstart rfl
  | succ j => exact (hend j rfl).imp_left fun h => ⟨j, rfl, h⟩

end WorthedAbr

end Worthed
end LiveStream
