import LiveStream.Cc.BbrShared
import LiveStream.Cc.Minerva
import LiveStream.Structs.Estimators
import LiveStream.Target.TargetAbr

/-!
# `TargetAbr2` and its connections

`TargetAbr2::registerMetrics` takes the delivery rates that all `BbrTarget` connections have
registered since the last report, and samples their maximum in two estimators, from which a decision
computes the target rate that it hands back to the connections. `TargetAbr3` inherits both. The
subclasses `GapAbr` and `RemoteAbr` take the rates of a second interface as well.

* `Loop.samples_maxima`, what the estimators have seen: one maximum for each report, over all
  delivery rates that were measured, each of them in one report;
* `Loop.target_in_step`, the connections aim at the target of the last decision.
-/

namespace LiveStream
namespace Target

open Lib AbrSchema Structs
open Cc.Bbr (Sender)

namespace TargetAbrConstants

def bandwidthWindow : ℕ := 6

def projectionWindow : ℕ := 2

def timeDelta : ℚ := 100

/-- `StateTrackerConstants::bandwidth_window`. -/
def averageWindow : ℕ := 10

end TargetAbrConstants

open TargetAbrConstants

/-! ## The tracker -/

/-- The members of `TargetAbr2` that are not in `TargetAbr` already. -/
structure Tracker where
  averageBandwidth : MovingAverage ℚ
  bwEstimator : MovingAverage LineFit
  lastBandwidth : Option AbrSchema.Value
  lastRtt : Option AbrSchema.Value
  lastTimestamp : ℤ

namespace Tracker

def init : Tracker :=
  ⟨.new averageWindow 0, .new bandwidthWindow (.new bandwidthWindow), none, none, 0⟩

/-- `bw_value`: the largest of the delivery rates, limited by the highest bitrate. Without a
positive rate there is no sample. -/
def bwValue (topRate : ℤ) (deliveryRates : List ℕ) : Option ℤ :=
  let best := deliveryRates.foldl max 0
  if best ≠ 0 then some (min best topRate) else none

/-- `registerMetrics`, with the delivery rates that are popped; the player time and the buffer level
are kept by `TargetAbr.registerMetrics`. -/
def registerMetrics (t : Tracker) (topRate : ℤ) (metrics : Metrics) (deliveryRates : List ℕ)
    (rtt : Option ℤ) : Tracker :=
  let timestamp := metrics.segments.foldl (fun last segment => max last segment.timestamp)
    t.lastTimestamp
  let t := { t with lastTimestamp := timestamp }
  let t :=
    match bwValue topRate deliveryRates with
    | none => t
    | some bwValue =>
      { t with
        lastBandwidth := some ⟨bwValue, timestamp⟩
        averageBandwidth := t.averageBandwidth.sampled (WilderEMA.methods averageWindow) bwValue
        bwEstimator := t.bwEstimator.sampled (LineFit.methods bandwidthWindow timeDelta) bwValue }
  match rtt with
  | none => t
  | some rtt => { t with lastRtt := some ⟨rtt, timestamp⟩ }

/-- What a decision reads: `(int)average_bandwidth->value_or(bitrate_array[0])`, and the same of the
estimator with the average as default. -/
def estimates (t : Tracker) (lowestRate : ℤ) (order : ℚ → IterationOrder) : Estimates :=
  let bandwidth :=
    if t.averageBandwidth.empty then lowestRate else truncate (WilderEMA.value t.averageBandwidth)
  { bandwidth := bandwidth
    estimator :=
      if t.bwEstimator.empty then bandwidth
      else Cc.toInt (LineFit.value timeDelta projectionWindow t.bwEstimator)
    order := order }

/-- What the reports with these delivery rates sample. -/
def samplesOf (topRate : ℤ) (batches : List (List ℕ)) : List ℚ :=
  (batches.filterMap (bwValue topRate)).map fun value : ℤ => (value : ℚ)

/-- Both estimators have seen the samples. -/
structure Seen (topRate : ℤ) (batches : List (List ℕ)) (t : Tracker) : Prop where
  average : WilderEMA.after averageWindow (samplesOf topRate batches) = some t.averageBandwidth
  estimator : LineFit.after bandwidthWindow timeDelta (samplesOf topRate batches)
    = some t.bwEstimator

variable {topRate : ℤ} {t : Tracker} {batches : List (List ℕ)}

theorem seen_init (topRate : ℤ) : Seen topRate [] init := ⟨rfl, rfl⟩

theorem average_defined (samples : List ℚ) :
    ∃ a, WilderEMA.after averageWindow samples = some a := by
  have hsize : 1 ≤ averageWindow := by decide
  obtain ⟨a, ha, -⟩ := WilderEMA.after_withinRange hsize samples
  exact ⟨a, ha⟩

theorem estimator_defined (samples : List ℚ) :
    ∃ a, LineFit.after bandwidthWindow timeDelta samples = some a := by
  have hsize : 1 ≤ bandwidthWindow := by decide
  have hkept : MovingAverage.Kept (LineFit.methods bandwidthWindow timeDelta) bandwidthWindow
      (LineFit.Inv bandwidthWindow timeDelta) := LineFit.kept_inv hsize
  obtain ⟨a, ha, -⟩ := MovingAverage.after_spec hsize hkept _ LineFit.inv_new samples
  exact ⟨a, ha⟩

/-- **Step lemma.** A report samples the maximum of the rates it pops. -/
theorem Seen.registerMetrics (h : Seen topRate batches t) (metrics : Metrics)
    (deliveryRates : List ℕ) (rtt : Option ℤ) :
    Seen topRate (batches ++ [deliveryRates])
      (t.registerMetrics topRate metrics deliveryRates rtt) := by
  have hrtt : ∀ (t : Tracker) (timestamp : ℤ), Seen topRate (batches ++ [deliveryRates]) t →
      Seen topRate (batches ++ [deliveryRates]) (match rtt with
        | none => t
        | some rtt => { t with lastRtt := some ⟨rtt, timestamp⟩ }) := by
    intro t timestamp ht
    cases rtt with
    | none => exact ht
    | some rtt => exact ⟨ht.average, ht.estimator⟩
  unfold Tracker.registerMetrics
  apply hrtt
  cases hvalue : bwValue topRate deliveryRates with
  | none =>
    have hsamples : samplesOf topRate (batches ++ [deliveryRates]) = samplesOf topRate batches := by
      simp [samplesOf, hvalue]
    exact ⟨hsamples ▸ h.average, hsamples ▸ h.estimator⟩
  | some value =>
    have hsamples : samplesOf topRate (batches ++ [deliveryRates])
        = samplesOf topRate batches ++ [(value : ℚ)] := by
      simp [samplesOf, hvalue]
    obtain ⟨a, ha⟩ := average_defined (samplesOf topRate batches ++ [(value : ℚ)])
    obtain ⟨b, hb⟩ := estimator_defined (samplesOf topRate batches ++ [(value : ℚ)])
    refine ⟨?_, ?_⟩
    · rw [hsamples, ha]
      exact congrArg some (MovingAverage.sampled_eq h.average ha).symm
    · rw [hsamples, hb]
      exact congrArg some (MovingAverage.sampled_eq h.estimator hb).symm

/-- The bandwidth of a decision is an average of bandwidths up to the highest bitrate. -/
theorem Seen.bandwidth (h : Seen topRate batches t) {lowestRate : ℤ} (hlow : 0 ≤ lowestRate)
    (hle : lowestRate ≤ topRate) (order : ℚ → IterationOrder) :
    0 ≤ (t.estimates lowestRate order).bandwidth ∧
      (t.estimates lowestRate order).bandwidth ≤ topRate := by
  have htop : (0 : ℚ) ≤ topRate := by exact_mod_cast hlow.trans hle
  have hrange : ∀ x ∈ 0 :: samplesOf topRate batches, (0 : ℚ) ≤ x ∧ x ≤ topRate := by
    rw [List.forall_mem_cons]
    refine ⟨⟨le_rfl, htop⟩, fun x hx => ?_⟩
    obtain ⟨value, hvalue, rfl⟩ := List.mem_map.mp hx
    obtain ⟨rates, -, hrates⟩ := List.mem_filterMap.mp hvalue
    simp only [bwValue] at hrates
    split at hrates
    · have hmin := Option.some.inj hrates
      have hpos : (0 : ℤ) ≤ (rates.foldl max 0 : ℕ) := Int.natCast_nonneg _
      have hbounds : 0 ≤ value ∧ value ≤ topRate := by omega
      exact_mod_cast hbounds
    · exact absurd hrates.symm (Option.some_ne_none value)
  have hsize : 1 ≤ averageWindow := by decide
  obtain ⟨a, ha, ⟨low, hlow', hle'⟩, high, hhigh', hge'⟩ :=
    WilderEMA.after_withinRange hsize (samplesOf topRate batches)
  rw [h.average] at ha
  have heq : t.averageBandwidth = a := Option.some.inj ha
  unfold estimates
  simp only
  split
  · exact ⟨hlow, hle⟩
  · rw [heq]
    exact ⟨truncate_nonneg ((hrange low hlow').1.trans hle'),
      truncate_le (hge'.trans (hrange high hhigh').2)⟩

end Tracker

/-! ## The loop -/

/-- The scenario, with the first and the last of the bitrates. -/
structure Ladder extends Scenario where
  lowestRate : ℤ
  topRate : ℤ

/-- The algorithm with its tracker, and the connections over their interface. -/
structure Loop where
  abr : TargetAbr
  tracker : Tracker
  connections : Group Cc.BbrTarget.Interface Sender

namespace Loop

inductive Event where
  | create (name : ℕ) (a : Cc.Bbr.Arguments)
  | act (name : ℕ) (a : Sender.Action)
  | destroy (name : ℕ)
  | registerMetrics (metrics : Metrics)
  | registerAbort (index : ℤ)
  | decide (order : ℚ → IterationOrder)

def Event.isReport : Event → Bool
  | .registerMetrics _ => true
  | _ => false

variable (fl : Cc.Bbr.Flags) (c : Ladder)

def init : Loop := ⟨.init c.lowestRate, .init, .empty .init⟩

/-- `RttEstimate` of the interface, which asks its parent. -/
def rttEstimate (l : Loop) : Option ℤ :=
  match l.connections.shared.parent.bind l.connections.members with
  | none => none
  | some s => if s.minRtt ≠ 0 then some (s.minRtt / 1000 : ℕ) else none

/-- What an event of the connections or a call of their interface does. -/
def connect (l : Loop)
    (e : Group.Event Cc.Bbr.Arguments Sender.Action Cc.BbrTarget.Call) : Loop :=
  { l with connections := l.connections.step (Cc.BbrTarget.methods fl) e }

def registerMetrics (l : Loop) (metrics : Metrics) : Loop :=
  let tracker := l.tracker.registerMetrics c.topRate metrics l.connections.shared.deliveryRates
    l.rttEstimate
  { l.connect fl (.call .popDeliveryRates) with
    abr := l.abr.registerMetrics metrics
    tracker := tracker }

/-- Whether a decision gets to the search for a target. -/
def searches (l : Loop) (abr : TargetAbr) : Prop :=
  abr.base.decisionIndex ≠ l.abr.base.decisionIndex ∧
    ¬(l.abr.base.decisionIndex ≤ 1 ∨
      ((c.video.track 0).length : ℤ) < l.abr.base.decisionIndex)

instance (l : Loop) (abr : TargetAbr) : Decidable (l.searches c abr) := instDecidableAnd

/-- `decide()`. The target that is found goes to the connections. -/
def decide (l : Loop) (order : ℚ → IterationOrder) : Loop :=
  let abr := (l.abr.decide c.toScenario (l.tracker.estimates c.lowestRate order)).1
  if l.searches c abr then
    { l.connect fl (.call (.setTargetRate abr.bandwidthTarget)) with abr := abr }
  else { l with abr := abr }

def step (l : Loop) : Event → Loop
  | .create name a => l.connect fl (.create name a)
  | .act name a => l.connect fl (.act name a)
  | .destroy name => l.connect fl (.destroy name)
  | .registerMetrics metrics => l.registerMetrics fl c metrics
  | .registerAbort index => { l with abr := l.abr.step c.toScenario (.registerAbort index) }
  | .decide order => l.decide fl c order

/-- The delivery rates an event adds. -/
def ratesAt (l : Loop) : Event → List ℕ
  | .act name a => Cc.BbrTarget.ratesAt l.connections (.act name a)
  | _ => []

/-- The delivery rates of all connections, in the order in which they are measured. -/
def measured (l : Loop) : List Event → List ℕ
  | [] => []
  | e :: es => l.ratesAt e ++ measured (l.step fl c e) es

/-! ### Delivery rates -/

/-- What has been handed out and what is waiting. -/
def rates (l : Loop) : List ℕ :=
  l.connections.shared.popped ++ l.connections.shared.deliveryRates

variable {l : Loop}

theorem rates_connect (l : Loop)
    (e : Group.Event Cc.Bbr.Arguments Sender.Action Cc.BbrTarget.Call) :
    (l.connect fl e).rates = l.rates ++ Cc.BbrTarget.ratesAt l.connections e :=
  Cc.BbrTarget.rates_step fl l.connections e

theorem rates_step (l : Loop) (e : Event) : (l.step fl c e).rates = l.rates ++ l.ratesAt e := by
  cases e with
  | create name a => exact rates_connect fl l _
  | act name a => exact rates_connect fl l _
  | destroy name => exact rates_connect fl l _
  | registerMetrics metrics => exact rates_connect fl l _
  | registerAbort index => exact (List.append_nil _).symm
  | decide order =>
    show (l.decide fl c order).rates = _
    unfold Loop.decide
    simp only
    split
    · exact rates_connect fl l _
    · exact (List.append_nil _).symm

theorem rates_run (l : Loop) (es : List Event) :
    (run (step fl c) l es).rates = l.rates ++ l.measured fl c es := by
  induction es generalizing l with
  | nil => exact (List.append_nil _).symm
  | cons e es ih => rw [run_cons, ih, rates_step, measured, List.append_assoc]

/-! ### What a run keeps -/

/-- The batches are what the reports have popped, and the connections have the last target. -/
structure Inv (c : Ladder) (batches : List (List ℕ)) (l : Loop) : Prop where
  popped : l.connections.shared.popped = batches.flatten
  seen : l.tracker.Seen c.topRate batches
  target : ∀ rate ∈ l.connections.shared.targetRate, rate = l.abr.bandwidthTarget

variable {c} {batches : List (List ℕ)}

theorem inv_init : Inv c [] (init c) :=
  ⟨rfl, Tracker.seen_init c.topRate, fun rate hrate => absurd hrate (Option.not_mem_none rate)⟩

/-- The senders neither pop delivery rates nor set the target. -/
theorem shared_act (fl : Cc.Bbr.Flags) (g : Group Cc.BbrTarget.Interface Sender) (name : ℕ)
    (a : Sender.Action) :
    Same (fun i : Cc.BbrTarget.Interface => (i.popped, i.targetRate)) g.shared
      (g.step (Cc.BbrTarget.methods fl) (.act name a)).shared := by
  cases hs : g.members name with
  | none =>
    have hstep : g.step (Cc.BbrTarget.methods fl) (.act name a) = g := by
      simp only [Group.step, hs]
    rw [hstep]
    rfl
  | some s =>
    have hshared : ((Cc.BbrTarget.methods fl).act g.shared s a).1 = _ :=
      Cc.BbrTarget.interface_act fl g.shared s a
    unfold Same
    rw [Group.step_act _ hs, hshared]

theorem Inv.of_shared (h : Inv c batches l) {g : Group Cc.BbrTarget.Interface Sender}
    (hg : Same (fun i : Cc.BbrTarget.Interface => (i.popped, i.targetRate)) l.connections.shared
      g.shared) : Inv c batches { l with connections := g } := by
  have hpopped : g.shared.popped = l.connections.shared.popped := congrArg Prod.fst hg
  have htarget : g.shared.targetRate = l.connections.shared.targetRate := congrArg Prod.snd hg
  refine ⟨hpopped.trans h.popped, h.seen, ?_⟩
  show ∀ rate ∈ g.shared.targetRate, _
  rw [htarget]
  exact h.target

/-- A decision that does not get to the search leaves the target. -/
theorem bandwidthTarget_decide (s : TargetAbr) (c : Scenario) (e : Estimates)
    (h : ¬((s.decide c e).1.base.decisionIndex ≠ s.base.decisionIndex ∧
      ¬(s.base.decisionIndex ≤ 1 ∨ ((c.video.track 0).length : ℤ) < s.base.decisionIndex))) :
    (s.decide c e).1.bandwidthTarget = s.bandwidthTarget := by
  have hbase :
      (s.decide c e).1.base = (s.base.decide fun index => (s.decideQuality c e index).2).1 :=
    rfl
  rw [hbase] at h
  show (if _ then _ else _) = _
  split
  · next hrecorded =>
    have hearly : s.base.decisionIndex ≤ 1 ∨
        ((c.video.track 0).length : ℤ) < s.base.decisionIndex := by
      by_contra hlate
      exact h ⟨hrecorded, hlate⟩
    rw [TargetAbr.decideQuality, if_pos hearly]
  · rfl

/-- **Step lemma.** A report takes one more batch. -/
theorem Inv.step (fl : Cc.Bbr.Flags) (h : Inv c batches l) (e : Event) :
    ∃ batches', batches'.length = batches.length + (if e.isReport then 1 else 0) ∧
      Inv c batches' (l.step fl c e) := by
  cases e with
  | create name a => exact ⟨batches, rfl, h.of_shared rfl⟩
  | act name a => exact ⟨batches, rfl, h.of_shared (shared_act fl l.connections name a)⟩
  | destroy name =>
    refine ⟨batches, rfl, h.of_shared ?_⟩
    exact Same.ite (g := fun i : Cc.BbrTarget.Interface => (i.popped, i.targetRate)) rfl rfl
  | registerMetrics metrics =>
    refine ⟨batches ++ [l.connections.shared.deliveryRates], List.length_append, ?_, ?_, h.target⟩
    · show l.connections.shared.popped ++ l.connections.shared.deliveryRates = _
      rw [h.popped, List.flatten_append, List.flatten_singleton]
    · exact h.seen.registerMetrics metrics _ _
  | registerAbort index => exact ⟨batches, rfl, h.popped, h.seen, h.target⟩
  | decide order =>
    refine ⟨batches, rfl, ?_⟩
    show Inv c batches (l.decide fl c order)
    unfold Loop.decide
    simp only
    split
    · refine ⟨h.popped, h.seen, fun rate hrate => ?_⟩
      exact (Option.some.inj hrate).symm
    · next hnot =>
      refine ⟨h.popped, h.seen, fun rate hrate => ?_⟩
      exact (h.target rate hrate).trans (bandwidthTarget_decide _ _ _ hnot).symm

theorem inv_run (fl : Cc.Bbr.Flags) (c : Ladder) (es : List Event) :
    ∃ batches, batches.length = es.countP Event.isReport ∧
      Inv c batches (run (step fl c) (init c) es) := by
  refine run_history (P := fun es l => ∃ batches, batches.length = es.countP Event.isReport ∧
    Inv c batches l) ⟨[], rfl, inv_init⟩ ?_ es
  intro es l e hl
  obtain ⟨batches, hlength, hinv⟩ := hl
  obtain ⟨batches', hlength', hinv'⟩ := hinv.step fl e
  refine ⟨batches', ?_, hinv'⟩
  rw [hlength', hlength, List.countP_append, List.countP_singleton]

variable (c)

/-- In every order of connections being made and closed, their events, reports and decisions, the
delivery rates of all connections fall into one batch for each report, each rate into one of them
and in the order they were measured, up to those that are still waiting. The two estimators are
those of the maxima of the batches. -/
theorem samples_maxima (es : List Event) :
    let l := run (step fl c) (init c) es
    ∃ batches : List (List ℕ), batches.length = es.countP Event.isReport ∧
      batches.flatten ++ l.connections.shared.deliveryRates = (init c).measured fl c es ∧
      WilderEMA.after averageWindow (Tracker.samplesOf c.topRate batches)
        = some l.tracker.averageBandwidth ∧
      LineFit.after bandwidthWindow timeDelta (Tracker.samplesOf c.topRate batches)
        = some l.tracker.bwEstimator := by
  intro l
  obtain ⟨batches, hlength, hinv⟩ := inv_run fl c es
  have hrates := rates_run fl c (init c) es
  refine ⟨batches, hlength, ?_, hinv.seen.average, hinv.seen.estimator⟩
  rw [← hinv.popped]
  exact hrates

/-- In every such order, if the connections have a target rate it is the bandwidth target of the
algorithm, and the bandwidth of the next decision lies between zero and the highest bitrate. -/
theorem target_in_step (hlow : 0 ≤ c.lowestRate) (hle : c.lowestRate ≤ c.topRate) (es : List Event)
    (order : ℚ → IterationOrder) :
    let l := run (step fl c) (init c) es
    (∀ rate ∈ l.connections.shared.targetRate, rate = l.abr.bandwidthTarget) ∧
      0 ≤ (l.tracker.estimates c.lowestRate order).bandwidth ∧
      (l.tracker.estimates c.lowestRate order).bandwidth ≤ c.topRate := by
  intro l
  obtain ⟨batches, -, hinv⟩ := inv_run fl c es
  exact ⟨hinv.target, hinv.seen.bandwidth hlow hle order⟩

/-- The first rounds of a connection, and a report after them. -/
def firstReport : List Event :=
  .create 0 .default :: (Sender.firstRounds.map fun x => .act 0 x.2) ++ [.registerMetrics {}]

theorem target_in_step_firstReport :
    let c : Ladder := ⟨⟨Planner.shortVideo, TargetAbr2.localQoe⟩, 300, 2400⟩
    let l := run (step .default c) (init c) firstReport
    let bandwidth := (l.tracker.estimates 300 fun _ => .insertion).bandwidth
    l.connections.shared.popped = [8000, 8000, 8000, 8000] ∧ 0 < bandwidth ∧ bandwidth ≤ 2400 := by
  intro c l bandwidth
  have hrange := (target_in_step .default c (by decide) (by decide) firstReport
    fun _ => .insertion).2
  exact ⟨by decide +kernel, by decide +kernel, hrange.2⟩

end Loop

end Target
end LiveStream
