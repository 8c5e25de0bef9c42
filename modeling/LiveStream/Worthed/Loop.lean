import LiveStream.Cc.BbrShared
import LiveStream.Worthed.Rates

/-!
# `WorthedAbr` on top of `BbrAdapter`

The whole loop: the connections of the server, the interface they share, and the ABR algorithm that
reads its estimates from the connection that was made last and answers with proposals for the
gain cycle and the switch of the RTT probing. Connections come and go, and their events, the
reports of the front end and the decisions come in any order.

`adjustCC` of `WorthedAbr` says what becomes of the object. `ccCalls` says what is done to the
interface. The function of the two rates that uses logarithms is a parameter.

* `Loop.Inv.step`, what every event keeps;
* `Loop.rtt_probing_in_step`, the flag of the algorithm is the switch of the interface, and while it
  is off no connection enters `PROBE_RTT`;
* `Loop.rates_in_range`, the bandwidth of a decision and the two rates of `adjustCC`.
-/

namespace LiveStream
namespace Worthed

open Lib AbrSchema WorthedAbrConstants
open Abr (Tables Undefined)
open Cc (BbrAdapter.Interface BbrAdapter.Call)
open Cc.Bbr (Sender CycleOk)

/-! ## What `adjustCC` does to the interface -/

namespace WorthedAbrConstants

def cushion : ℤ := 10 * SECOND

end WorthedAbrConstants

/-- `aggress`, where the value between the two levels is given. -/
def aggressAt (bufferLevel : ℤ) (aggresivity : ℚ) : ℚ :=
  if bufferLevel ≤ reservoir then 1
  else if reservoir + cushion ≤ bufferLevel then 0
  else aggresivity

/-- The cycle that is proposed. -/
def proposedCycle (aggress : ℚ) : List ℚ :=
  if aggress = 1 then [3 / 2, 1, 3 / 2, 1, 1, 1, 1, 1]
  else if 4 / 10 ≤ aggress then [13 / 10, 8 / 10, 13 / 10, 8 / 10, 8 / 10, 1, 1, 1]
  else [5 / 4, 3 / 4, 1, 1, 1, 1, 1, 1]

/-- What `adjustCC` reads besides the object. -/
structure CCReadings where
  undefined : Undefined
  rates : RateReadings
  /-- `aggresivity`, of the safe rate and the difference to the worthed one. -/
  aggresivity : ℤ → ℤ → ℚ

namespace WorthedAbr

variable (s : WorthedAbr) (v : Tables)

/-- Whether there is enough in the buffer to probe the round trip time. -/
def wantsProbing (u : Undefined) : Bool :=
  let bufferLevel := (s.adjustedBufferLevel v u (s.base.decisionIndex - 1)).bufferLevel
  !(bufferLevel ≤ safeToRttProbe ∧ 3 < s.base.decisionIndex)

/-- The calls of the interface `adjustCC()` makes. -/
def ccCalls (t : StateTracker) (e : CCReadings) : List BbrAdapter.Call :=
  if s.base.decisionIndex ≤ 1 then []
  else
    let bufferLevel := (s.adjustedBufferLevel v e.undefined (s.base.decisionIndex - 1)).bufferLevel
    let rates := s.computeRates v e.rates true t
    let probe := s.wantsProbing v e.undefined
    (if s.isRttProbing ≠ probe then [.setRttProbing probe] else []) ++
      [.proposePacingGainCycle
        (proposedCycle (aggressAt bufferLevel (e.aggresivity rates.1 (rates.2 - rates.1))))]

end WorthedAbr

/-! ## The loop -/

/-- The algorithm with its tracker, and the connections over their interface. -/
structure Loop where
  abr : WorthedAbr
  tracker : StateTracker
  connections : Group BbrAdapter.Interface Sender

namespace Loop

def init (lastSegmentTimeLength : ℤ) (noAdaptation : Bool) : Loop where
  abr := .init lastSegmentTimeLength
  tracker := .init
  connections := .empty (.init noAdaptation)

/-- `BandwidthEstimate`, `PacingGain` and `RttEstimate` of the interface, which asks its parent. -/
def estimates (l : Loop) : Estimates :=
  match l.connections.shared.parent.bind l.connections.members with
  | none => ⟨none, none, none⟩
  | some c =>
    ⟨some (Cc.toKBitsPerSecond c.bandwidthEstimate), some c.pacingGain,
      if c.minRtt ≠ 0 then some (c.minRtt / 1000 : ℕ) else none⟩

inductive Event where
  | create (name : ℕ) (a : Cc.Bbr.Arguments)
  | act (name : ℕ) (a : Sender.Action)
  | destroy (name : ℕ)
  | registerMetrics (metrics : Metrics) (e : CCReadings)
  | registerAbort (index : ℤ)
  | decide (rand : Draws) (undefined : List ℤ → WithBot ℚ)

variable (fl : Cc.Bbr.Flags) (v : Tables)

/-- `registerMetrics`: the base classes first, then the congestion control. -/
def registerMetrics (l : Loop) (metrics : Metrics) (e : CCReadings) : Loop :=
  let abr := l.abr.registerReports metrics
  let tracker := l.tracker.registerMetrics (WorthedAbr.topRate v) metrics l.estimates
  { l with
    abr := abr.adjustCC v e.undefined
    tracker := tracker
    connections := { l.connections with
      shared := (abr.ccCalls v tracker e).foldl Cc.BbrAdapter.call l.connections.shared } }

/-- What a decision is made with: the average of the tracker. -/
def readings (l : Loop) (rand : Draws) (undefined : List ℤ → WithBot ℚ) : Readings :=
  ⟨l.tracker.bandwidthForDecision (v.bitrateArray.head v.rates), rand, undefined⟩

/-- What an event of the connections does. -/
def connect (l : Loop)
    (e : Group.Event Cc.Bbr.Arguments Sender.Action BbrAdapter.Call) : Loop :=
  { l with connections := l.connections.step (Cc.BbrAdapter.methods fl) e }

def step (l : Loop) : Event → Loop
  | .create name a => l.connect fl (.create name a)
  | .act name a => l.connect fl (.act name a)
  | .destroy name => l.connect fl (.destroy name)
  | .registerMetrics metrics e => l.registerMetrics v metrics e
  | .registerAbort index => { l with abr := l.abr.step v (.registerAbort index) }
  | .decide rand undefined =>
    { l with abr := (l.abr.decide v (l.readings v rand undefined)).1 }

/-! ## The switch and the cycles -/

/-- The interface as the algorithm left it: with cycles that can be used, and the switch in the
given position. -/
structure Switched (probing : Bool) (i : BbrAdapter.Interface) : Prop where
  ok : i.Ok (3 / 4) (3 / 2)
  adapts : i.noAdaptation = false
  probing : i.canProbeRtt = probing

theorem cycleOk_proposedCycle (aggress : ℚ) : CycleOk (3 / 4) (3 / 2) (proposedCycle aggress) := by
  unfold proposedCycle
  split
  · decide +kernel
  · split
    · decide +kernel
    · decide +kernel

/-- The senders can make the interface adopt a proposal, but not touch the switch. -/
theorem cycling_switched (probing : Bool) :
    Cc.BbrAdapter.hooks.Cycling (3 / 4) (3 / 2) (Switched probing) where
  cycle _ h := h.ok.cycle
  update i h := by
    refine ⟨h.ok.updatePacingGainCycle, ?_, h.probing⟩
    show i.toBbrInterface.updatePacingGainCycle.noAdaptation = false
    unfold Cc.BbrInterface.updatePacingGainCycle
    simp only
    split
    · exact h.adapts
    · split
      · exact h.adapts
      · exact h.adapts
  register _ h _ := h
  setParent _ h _ := ⟨⟨h.ok.cycle, h.ok.proposals⟩, h.adapts, h.probing⟩

theorem Switched.propose {probing : Bool} {i : BbrAdapter.Interface} (h : Switched probing i)
    (aggress : ℚ) : Switched probing (i.proposePacingGainCycle (proposedCycle aggress)) := by
  refine ⟨h.ok.call (c := .proposePacingGainCycle _) (cycleOk_proposedCycle aggress), ?_, h.probing⟩
  show (i.toBbrInterface.proposePacingGainCycle _).noAdaptation = false
  unfold Cc.BbrInterface.proposePacingGainCycle
  split
  · exact h.adapts
  · exact h.adapts

theorem Switched.setRttProbing {probing : Bool} {i : BbrAdapter.Interface} (h : Switched probing i)
    (probe : Bool) : Switched probe (i.setRttProbing probe) := by
  unfold Cc.BbrAdapter.Interface.setRttProbing
  rw [if_neg (by rw [h.adapts]; exact Bool.false_ne_true)]
  exact ⟨⟨h.ok.cycle, h.ok.proposals⟩, h.adapts, rfl⟩

theorem isRttProbing_adjustCC (s : WorthedAbr) (u : Undefined) :
    (s.adjustCC v u).isRttProbing =
      if s.base.decisionIndex ≤ 1 then s.isRttProbing else s.wantsProbing v u := by
  unfold WorthedAbr.adjustCC WorthedAbr.wantsProbing WorthedAbr.setRttProbing
  split
  · rfl
  · simp only
    split
    · next h => rw [decide_eq_true h]; rfl
    · next h => rw [decide_eq_false h]; rfl

/-- After `adjustCC` the switch is where the flag of the object is, if it was before. -/
theorem Switched.ccCalls {s : WorthedAbr} {i : BbrAdapter.Interface}
    (h : Switched s.isRttProbing i) (t : StateTracker) (e : CCReadings) :
    Switched (s.adjustCC v e.undefined).isRttProbing
      ((s.ccCalls v t e).foldl Cc.BbrAdapter.call i) := by
  rw [isRttProbing_adjustCC]
  unfold WorthedAbr.ccCalls
  split
  · exact h
  · extract_lets bufferLevel rates probe
    rw [List.foldl_append]
    have hswitch : Switched probe
        ((if s.isRttProbing ≠ probe then [Cc.BbrAdapter.Call.setRttProbing probe] else []).foldl
          Cc.BbrAdapter.call i) := by
      split
      · exact h.setRttProbing probe
      · next hsame =>
        rw [not_ne_iff] at hsame
        exact hsame ▸ h
    exact hswitch.propose _

/-! ## What every event keeps -/

/-- The invariant of the connections, with adaptation. -/
structure Inv (l : Loop) : Prop where
  connections : l.connections.Safe (Switched l.abr.isRttProbing) (Sender.GainOk (3 / 4) (3 / 2))
  parent : Cc.Bbr.ParentAlive Cc.BbrAdapter.hooks l.connections

variable {fl v}

theorem inv_init (lastSegmentTimeLength : ℤ) : Inv (init lastSegmentTimeLength false) where
  connections := Group.safe_empty _
    ⟨Cc.BbrAdapter.Interface.ok_init (by norm_num) (by norm_num) false, rfl, rfl⟩
  parent name h := (Option.some_ne_none name h.symm).elim

theorem Inv.connect {l : Loop} (h : Inv l)
    {e : Group.Event Cc.Bbr.Arguments Sender.Action BbrAdapter.Call}
    (he : e.Meets (fun _ => True) (fun _ => True) fun _ => False) : Inv (l.connect fl e) where
  connections := h.connections.step
    (Cc.Bbr.methods_keep (cycling_switched _) fl fun _ _ _ hc => hc.elim) he
  parent := h.parent.step Cc.BbrAdapter.parental_hooks fl e

/-- The calls from outside do not touch the parent. -/
theorem parent_foldl_call (calls : List BbrAdapter.Call) (i : BbrAdapter.Interface) :
    (calls.foldl Cc.BbrAdapter.call i).parent = i.parent :=
  run_frame (fun i c => Cc.BbrAdapter.parental_hooks.call i c) i calls

theorem Inv.registerMetrics {l : Loop} (h : Inv l) (metrics : Metrics) (e : CCReadings) :
    Inv (l.registerMetrics v metrics e) where
  connections := by
    have hshared : Switched (l.abr.registerReports metrics).isRttProbing l.connections.shared :=
      h.connections.1
    exact ⟨hshared.ccCalls v _ e, h.connections.2⟩
  parent name hname := h.parent name ((parent_foldl_call _ _).symm.trans hname)

theorem isRttProbing_decide (s : WorthedAbr) (e : Readings) :
    Same WorthedAbr.isRttProbing s (s.decide v e).1 := by
  unfold WorthedAbr.decide
  split
  · rfl
  · rfl

/-- Every event keeps the switch of the interface in step with the algorithm, the gains of the
connections in their interval, and the parent alive. -/
theorem Inv.step {l : Loop} (h : Inv l) (e : Event) : Inv (l.step fl v e) := by
  cases e with
  | create name a => exact h.connect (e := .create name a) trivial
  | act name a => exact h.connect (e := .act name a) trivial
  | destroy name => exact h.connect (e := .destroy name) trivial
  | registerMetrics metrics e => exact h.registerMetrics metrics e
  | registerAbort index => exact ⟨h.connections, h.parent⟩
  | decide rand undefined =>
    refine ⟨?_, h.parent⟩
    show l.connections.Safe (Switched (l.abr.decide v _).1.isRttProbing) _
    rw [isRttProbing_decide]
    exact h.connections

/-- A sender asks the switch after its own work on the interface, which leaves the switch alone. -/
theorem not_entersProbeRtt {i : BbrAdapter.Interface} (hi : Switched false i) {s : Sender}
    (hs : s.GainOk (3 / 4) (3 / 2)) (a : Sender.Action) :
    ¬ s.EntersProbeRtt Cc.BbrAdapter.hooks fl (i, a) := by
  intro henters
  obtain ⟨e, -, -, hallow, -⟩ := Sender.of_entersProbeRtt henters
  have hsettled := (Sender.gainOk_settled (cycling_switched false) hi hs e).1
  exact Bool.false_ne_true (hsettled.probing.symm.trans hallow)

/-- With adaptation, whatever connections there are and in whatever order things happen: the switch
of the interface is where the algorithm has put it, the interface never asks a connection that is
gone, and every connection has its gain from a cycle the algorithm proposes. While the algorithm
does not want the round trip time to be probed, no connection starts to. -/
theorem rtt_probing_in_step (fl : Cc.Bbr.Flags) (v : Tables) (lastSegmentTimeLength : ℤ)
    (es : List Event) :
    let l := run (step fl v) (init lastSegmentTimeLength false) es
    l.connections.shared.canProbeRtt = l.abr.isRttProbing ∧
      (∀ name, l.connections.shared.parent = some name → (l.connections.members name).isSome) ∧
      ∀ name s, l.connections.members name = some s →
        s.undefinedRead = false ∧
          (s.mode = .PROBE_BW → 3 / 4 ≤ s.pacingGain ∧ s.pacingGain ≤ 3 / 2) ∧
          (l.abr.isRttProbing = false →
            ∀ a, ¬ s.EntersProbeRtt Cc.BbrAdapter.hooks fl (l.connections.shared, a)) := by
  intro l
  have hl : Inv l := run_invariant (inv_init lastSegmentTimeLength) fun _ h e _ => h.step e
  refine ⟨hl.connections.1.probing, hl.parent, fun name s hs => ?_⟩
  have hgain := hl.connections.2 name s hs
  refine ⟨hgain.defined, fun hmode => ⟨hgain.lower hmode, hgain.upper hmode⟩, fun hoff a => ?_⟩
  exact not_entersProbeRtt (hoff ▸ hl.connections.1) hgain a

/-! ## The rates -/

theorem estimates_nonneg (l : Loop) : ∀ bandwidth ∈ l.estimates.bandwidth, 0 ≤ bandwidth := by
  intro bandwidth hbandwidth
  unfold estimates at hbandwidth
  split at hbandwidth
  · cases hbandwidth
  · rw [← Option.some.inj hbandwidth]
    exact Int.natCast_nonneg _

/-- Only reports touch the tracker, and the estimates they bring are never negative. -/
theorem tracked_step (htop : 0 ≤ WorthedAbr.topRate v) {l : Loop}
    (h : StateTracker.Tracked (WorthedAbr.topRate v) l.tracker) (e : Event) :
    StateTracker.Tracked (WorthedAbr.topRate v) (l.step fl v e).tracker := by
  cases e with
  | registerMetrics metrics e => exact h.registerMetrics htop metrics l.estimates_nonneg
  | _ => exact h

end Loop

/-- The last bandwidth is the lowest bitrate while there is none. -/
theorem StateTracker.Tracked.bandwidthKbps {v : Tables} {t : StateTracker}
    (h : Tracked (WorthedAbr.topRate v) t) (hlow : 0 ≤ v.bitrateArray.head v.rates)
    (hle : v.bitrateArray.head v.rates ≤ WorthedAbr.topRate v) :
    0 ≤ WorthedAbr.bandwidthKbps v t ∧ WorthedAbr.bandwidthKbps v t ≤ WorthedAbr.topRate v := by
  unfold WorthedAbr.bandwidthKbps
  cases hlast : t.lastBandwidth with
  | none => exact ⟨hlow, hle⟩
  | some value => exact h.last value hlast

theorem StateTracker.Tracked.bandwidthForDecision {topRate : ℤ} {t : StateTracker}
    (h : Tracked topRate t) {lowestRate : ℤ} (hlow : 0 ≤ lowestRate) (hle : lowestRate ≤ topRate) :
    0 ≤ t.bandwidthForDecision lowestRate ∧ t.bandwidthForDecision lowestRate ≤ topRate := by
  unfold StateTracker.bandwidthForDecision
  split
  · exact ⟨hlow, hle⟩
  · have hvalue := h.average.value (hlow.trans hle)
    exact ⟨truncate_nonneg hvalue.1, truncate_le hvalue.2⟩

namespace Loop

/-- What the algorithm works with, whatever the connections estimate: the bandwidth of a decision is
between zero and the highest bitrate, and the two rates of `adjustCC` are in order, between zero
and a step above twice that bitrate. -/
theorem rates_in_range (fl : Cc.Bbr.Flags) {v : Tables} (hlow : 0 ≤ v.bitrateArray.head v.rates)
    (hle : v.bitrateArray.head v.rates ≤ WorthedAbr.topRate v) (lastSegmentTimeLength : ℤ)
    (noAdaptation : Bool) (es : List Event) (rand : Draws) (undefined : List ℤ → WithBot ℚ)
    (e : RateReadings) :
    let l := run (step fl v) (init lastSegmentTimeLength noAdaptation) es
    let bandwidth := (l.readings v rand undefined).bandwidth
    let rates := l.abr.computeRates v e true l.tracker
    0 ≤ bandwidth ∧ bandwidth ≤ WorthedAbr.topRate v ∧
      0 ≤ rates.1 ∧ rates.1 ≤ rates.2 ∧ rates.2 ≤ 2 * WorthedAbr.topRate v + 150 := by
  intro l bandwidth rates
  have htop := hlow.trans hle
  have hl : StateTracker.Tracked (WorthedAbr.topRate v) l.tracker :=
    run_invariant (P := fun l : Loop => StateTracker.Tracked (WorthedAbr.topRate v) l.tracker)
      (StateTracker.tracked_init _) fun _ h e _ => tracked_step htop h e
  have hdecision := hl.bandwidthForDecision hlow hle
  have hkbps := hl.bandwidthKbps hlow hle
  have hkbps' : (0 : ℚ) ≤ WorthedAbr.bandwidthKbps v l.tracker ∧
      (WorthedAbr.bandwidthKbps v l.tracker : ℚ) ≤ WorthedAbr.topRate v := by exact_mod_cast hkbps
  have hsafe : 0 ≤ WorthedAbr.rateSafe v l.tracker ∧
      WorthedAbr.rateSafe v l.tracker ≤ WorthedAbr.maxBandwidthKbps v := by
    unfold WorthedAbr.rateSafe WorthedAbr.maxBandwidthKbps safeDownscale
    constructor
    · linarith
    · linarith
  have hworthed := l.abr.rateWorthed_le v e true l.tracker
  have hmax : l.abr.rateWorthed v e true l.tracker
      ≤ (2 * WorthedAbr.topRate v + 150 : ℤ) := by
    have hstep : WorthedAbr.scaleStepKbps true = 150 := rfl
    rw [max_eq_right (by linarith), hstep] at hworthed
    unfold WorthedAbr.maxBandwidthKbps at hworthed
    push_cast
    exact hworthed
  exact ⟨hdecision.1, hdecision.2, truncate_nonneg hsafe.1,
    truncate_mono (l.abr.rateSafe_le_rateWorthed v e true l.tracker), truncate_le hmax⟩

/-- Three bitrates. -/
def threeRates : Tables where
  segments := [[⟨0, 80, 100000⟩], [⟨0, 90, 300000⟩], [⟨0, 95, 600000⟩]]
  bitrateArray := [300, 1200, 2400]
  nonempty := by decide
  rates := by decide

def unread : Readings := .atBandwidth 0

/-- A connection that has seen its first rounds, and a report. -/
def firstReport : List Event :=
  .create 0 .default :: (Sender.firstRounds.map fun x => .act 0 x.2) ++
    [.registerMetrics {} ⟨⟨0, 0, .loading, ⟨0, 0, 0⟩, 0⟩,
      ⟨fun _ => unread.rand, fun _ => unread.undefined⟩, fun _ _ => 0⟩]

theorem rates_in_range_firstReport :
    let l := run (step .default threeRates) (init 0 false) firstReport
    let bandwidth := (l.readings threeRates unread.rand unread.undefined).bandwidth
    l.tracker.lastBandwidth ≠ none ∧ 0 < bandwidth ∧ bandwidth ≤ 2400 := by
  intro l bandwidth
  have hrange := rates_in_range (v := threeRates) .default (by decide) (by decide) 0 false
    firstReport unread.rand unread.undefined ⟨fun _ => unread.rand, fun _ => unread.undefined⟩
  exact ⟨by decide +kernel, by decide +kernel, hrange.2.1⟩

end Loop

end Worthed
end LiveStream
