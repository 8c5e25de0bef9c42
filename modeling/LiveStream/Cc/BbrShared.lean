import LiveStream.Cc.BbrModes

/-!
# What the BBR senders share

The pacing gain cycle belongs to the interface, which all connections share. It may be exchanged,
for one of another length, between any two events of a connection. `gain_act` says what one call
does to the gain and to the interface. `BbrAdapter.proposals_safe` and `BbrTarget.cycles_safe` are
the results for any number of connections, over every order of their events and of the calls of the
ABR algorithm.

`BbrTarget.delivery_rates_once` is about the other thing the connections share: the delivery rates
they leave for the ABR algorithm.
-/

namespace LiveStream
namespace Cc
namespace Bbr

open Lib
open BbrGap (MaxBandwidthFilter RecoveryState)

/-- A cycle that can be run through, with gains in an interval. -/
structure CycleOk (low high : ℚ) (cycle : List ℚ) : Prop where
  length : 2 ≤ cycle.length
  lower : ∀ gain ∈ cycle, low ≤ gain
  upper : ∀ gain ∈ cycle, gain ≤ high

instance (low high : ℚ) (cycle : List ℚ) : Decidable (CycleOk low high cycle) :=
  decidable_of_iff (2 ≤ cycle.length ∧ (∀ gain ∈ cycle, low ≤ gain) ∧ ∀ gain ∈ cycle, gain ≤ high)
    ⟨fun h => ⟨h.1, h.2.1, h.2.2⟩, fun h => ⟨h.length, h.lower, h.upper⟩⟩

theorem CycleOk.getD {low high : ℚ} {cycle : List ℚ} (h : CycleOk low high cycle) {offset : ℕ}
    (hlt : offset < cycle.length) : low ≤ cycle.getD offset 1 ∧ cycle.getD offset 1 ≤ high := by
  have hmem : cycle.getD offset 1 ∈ cycle := by
    rw [List.getD_eq_getElem _ _ hlt]
    exact List.getElem_mem hlt
  exact ⟨h.lower _ hmem, h.upper _ hmem⟩

theorem CycleOk.mono {low high low' high' : ℚ} {cycle : List ℚ} (h : CycleOk low high cycle)
    (hlow : low' ≤ low) (hhigh : high ≤ high') : CycleOk low' high' cycle where
  length := h.length
  lower gain hgain := hlow.trans (h.lower gain hgain)
  upper gain hgain := (h.upper gain hgain).trans hhigh

/-- The cycle both interfaces start with. -/
theorem cycleOk_default : CycleOk (3 / 4) (5 / 4) [5 / 4, 3 / 4, 1, 1, 1, 1, 1, 1] := by
  decide +kernel

/-- That what a sender makes of an interface in one of its calls keeps `Q`. -/
structure Hooks.Closed {ι : Type} (I : Hooks ι) (Q : ι → Prop) : Prop where
  update : ∀ i, Q i → Q (I.updatePacingGainCycle i)
  register : ∀ i, Q i → ∀ bandwidth, Q (I.registerDeliveryRate i bandwidth)

/-- That the states `Q` of an interface offer such a cycle, whatever the senders make it do. -/
structure Hooks.Cycling {ι : Type} (I : Hooks ι) (low high : ℚ) (Q : ι → Prop) : Prop
    extends I.Closed Q where
  cycle : ∀ i, Q i → CycleOk low high (I.getPacingGainCycle i)
  setParent : ∀ i, Q i → ∀ parent, Q (I.setParent i parent)

/-! ## What a call does to the interface -/

namespace Sender

variable {ι : Type} {I : Hooks ι} {Q : ι → Prop}

theorem closed_registerDeliveryRates (hI : I.Closed Q) {i : ι} (hi : Q i)
    (e : CongestionEvent) : Q (registerDeliveryRates I i e) := by
  unfold registerDeliveryRates
  generalize e.ackedPackets.filterMap (fun packet => packet.sample) = samples
  induction samples generalizing i with
  | nil => exact hi
  | cons b samples ih => exact ih (hI.register i hi b.bandwidth)

theorem closed_updateGainCyclePhase (hI : I.Closed Q) {i : ι} (hi : Q i) (s : Sender)
    (e : CongestionEvent) : Q (s.updateGainCyclePhase I i e).1 := by
  unfold updateGainCyclePhase
  split
  · simp only
    split
    · exact hI.update i hi
    · exact hi
  · exact hi

theorem closed_act (hI : I.Closed Q) (fl : Flags) {i : ι} (hi : Q i) (s : Sender) (a : Action) :
    Q (s.act I fl i a).1 := by
  cases a with
  | congestionEvent e =>
    have hregister := closed_registerDeliveryRates hI hi e
    show Q (s.cycled I i e).1
    unfold cycled
    simp only
    split
    · exact closed_updateGainCyclePhase hI hregister _ e
    · exact hregister
  | _ => exact hi

end Sender

/-! ## The parent -/

section Parent

variable {ι β : Type} {I : Hooks ι} {call : ι → β → ι}

/-- That the parent is changed by constructors and destructors only. -/
structure Hooks.Parental (I : Hooks ι) (call : ι → β → ι) : Prop where
  set : ∀ i parent, I.parent (I.setParent i parent) = parent
  closed : ∀ parent, I.Closed fun i => I.parent i = parent
  call : ∀ i c, I.parent (call i c) = I.parent i

/-- The parent is a sender that has not been destroyed. -/
def ParentAlive (I : Hooks ι) (g : Group ι Sender) : Prop :=
  ∀ name, I.parent g.shared = some name → (g.members name).isSome

/-- A sender becomes the parent when it is made, and is so no longer when it is destroyed. -/
theorem ParentAlive.step (hI : I.Parental call) (fl : Flags) {g : Group ι Sender}
    (h : ParentAlive I g) (e : Group.Event Arguments Sender.Action β) :
    ParentAlive I (g.step (methods I fl call) e) := by
  cases e with
  | create name arg =>
    intro other hother
    obtain rfl : name = other := Option.some.inj ((hI.set _ _).symm.trans hother)
    show (Function.update g.members name _ name).isSome
    rw [Function.update_self]
    rfl
  | act name a =>
    cases hs : g.members name with
    | none =>
      have hstep : g.step (methods I fl call) (.act name a) = g := by simp only [Group.step, hs]
      rw [hstep]
      exact h
    | some s =>
      rw [Group.step_act _ hs]
      intro other hother
      have hparent : I.parent (s.act I fl g.shared a).1 = I.parent g.shared :=
        Sender.closed_act (hI.closed _) fl rfl s a
      show (Function.update g.members name _ other).isSome
      by_cases hname : other = name
      · rw [hname, Function.update_self]
        rfl
      · rw [Function.update_of_ne hname]
        exact h other (hparent.symm.trans hother)
  | destroy name =>
    intro other hother
    change I.parent (if I.parent g.shared = some name then I.setParent g.shared none else g.shared)
      = some other at hother
    show (Function.update g.members name none other).isSome
    split at hother
    · rw [hI.set] at hother
      cases hother
    · next hne =>
      have hname : other ≠ name := fun heq => hne (heq ▸ hother)
      rw [Function.update_of_ne hname]
      exact h other hother
  | call c => exact fun other hother => h other ((hI.call _ c).symm.trans hother)

end Parent

namespace Sender

variable {ι : Type} {low high : ℚ}

/-- Nothing was read outside of a cycle, and in `PROBE_BW` the gain is in the interval. -/
structure GainOk (low high : ℚ) (s : Sender) : Prop where
  defined : s.undefinedRead = false
  lower : s.mode = .PROBE_BW → low ≤ s.pacingGain
  upper : s.mode = .PROBE_BW → s.pacingGain ≤ high

/-- What `GainOk` speaks about. -/
def tempo (s : Sender) : Mode × ℚ × Bool := (s.mode, s.gain)

theorem GainOk.of_tempo {s t : Sender} (h : GainOk low high s) (hst : Same tempo s t) :
    GainOk low high t := by
  have hmode : t.mode = s.mode := congrArg Prod.fst hst
  have hgain : t.pacingGain = s.pacingGain := congrArg (fun p => p.2.1) hst
  have hread : t.undefinedRead = s.undefinedRead := congrArg (fun p => p.2.2) hst
  refine ⟨hread.trans h.defined, ?_, ?_⟩
  · rw [hmode, hgain]
    exact h.lower
  · rw [hmode, hgain]
    exact h.upper

/-- In another mode only the reads count. -/
theorem gainOk_of_ne {s : Sender} (hread : s.undefinedRead = false) (hmode : s.mode ≠ .PROBE_BW) :
    GainOk low high s :=
  ⟨hread, fun h => absurd h hmode, fun h => absurd h hmode⟩

/-! ## Reading the cycle -/

/-- `PROBE_BW` starts anywhere in the cycle but at its second gain. -/
theorem gainOk_enterProbeBandwidthMode {s : Sender} (h : s.undefinedRead = false) {cycle : List ℚ}
    (hcycle : CycleOk low high cycle) (now random : ℕ) :
    GainOk low high (s.enterProbeBandwidthMode cycle now random) := by
  have hlength := hcycle.length
  have hmod : random % (cycle.length - 1) < cycle.length - 1 := Nat.mod_lt _ (by omega)
  unfold enterProbeBandwidthMode
  extract_lets drawn offset
  have hoffset : offset < cycle.length := by
    show (if 1 ≤ drawn then drawn + 1 else drawn) < cycle.length
    split
    · omega
    · omega
  refine ⟨?_, fun _ => (hcycle.getD hoffset).1, fun _ => (hcycle.getD hoffset).2⟩
  show (s.undefinedRead || decide (cycle.length ≤ 1) || decide (cycle.length ≤ offset)) = false
  rw [h, decide_eq_false (by omega), decide_eq_false (by omega)]
  rfl

/-- A gain taken within the cycle, or kept to drain the queue. -/
theorem GainOk.takeGain {s : Sender} (h : GainOk low high s) {cycle : List ℚ}
    (hcycle : CycleOk low high cycle) (hlt : s.cycleCurrentOffset < cycle.length)
    (targetRate : Option ℤ) (bytesInFlight : ℕ) :
    GainOk low high (s.takeGain cycle targetRate bytesInFlight) := by
  have hread : (s.undefinedRead || decide (cycle.length ≤ s.cycleCurrentOffset)) = false := by
    rw [h.defined, decide_eq_false (by omega)]
    rfl
  have hgain := hcycle.getD hlt
  unfold Sender.takeGain
  simp only
  split
  · exact ⟨hread, h.lower, h.upper⟩
  · exact ⟨hread, fun _ => hgain.1, fun _ => hgain.2⟩

section Interface

variable {I : Hooks ι} {Q : ι → Prop}

theorem gainOk_updateGainCyclePhase (hI : I.Cycling low high Q) {i : ι} (hi : Q i) {s : Sender}
    (h : GainOk low high s) (e : CongestionEvent) :
    Q (s.updateGainCyclePhase I i e).1 ∧ GainOk low high (s.updateGainCyclePhase I i e).2 := by
  unfold updateGainCyclePhase
  split
  · have hlength := (hI.cycle i hi).length
    have hadvanced : GainOk low high (s.advanceOffset (I.getPacingGainCycle i) e.eventTime) := by
      refine ⟨?_, h.lower, h.upper⟩
      show (s.undefinedRead || decide ((I.getPacingGainCycle i).length = 0)) = false
      rw [h.defined, decide_eq_false (by omega)]
      rfl
    have hoffset : (s.advanceOffset (I.getPacingGainCycle i) e.eventTime).cycleCurrentOffset
        < (I.getPacingGainCycle i).length := Nat.mod_lt _ (by omega)
    generalize s.advanceOffset (I.getPacingGainCycle i) e.eventTime = t at hadvanced hoffset ⊢
    simp only
    split
    · next hzero =>
      -- the new cycle may be shorter, but it has a first gain
      have hupdate := hI.update i hi
      have hnew := (hI.cycle _ hupdate).length
      exact ⟨hupdate, hadvanced.takeGain (hI.cycle _ hupdate) (by omega) _ _⟩
    · exact ⟨hi, hadvanced.takeGain (hI.cycle i hi) hoffset _ _⟩
  · exact ⟨hi, h⟩

/-! ## An event, stage by stage -/

theorem gainOk_cycled (hI : I.Cycling low high Q) {i : ι} (hi : Q i) {s : Sender}
    (h : GainOk low high s) (e : CongestionEvent) :
    Q (s.cycled I i e).1 ∧ GainOk low high (s.cycled I i e).2 := by
  have hacks := unacked_processAcks s e
  have hs : GainOk low high (s.processAcks e).1 :=
    h.of_tempo (Prod.ext (mode_of_phase (phase_of_unacked hacks)) (gain_of_unacked hacks))
  have hregister := closed_registerDeliveryRates hI.toClosed hi e
  unfold cycled
  simp only
  split
  · exact gainOk_updateGainCyclePhase hI hregister hs e
  · exact ⟨hregister, hs⟩

theorem tempo_checkIfFullBandwidthReached (s : Sender) :
    Same tempo s s.checkIfFullBandwidthReached := Same.ite rfl (Same.ite rfl rfl)

theorem gainOk_maybeExitStartupOrDrain (hI : I.Cycling low high Q) {i : ι} (hi : Q i) {s : Sender}
    (h : GainOk low high s) (e : CongestionEvent) :
    GainOk low high (s.maybeExitStartupOrDrain I i e) := by
  have hstartup : GainOk low high s.maybeExitStartup := by
    unfold maybeExitStartup
    split
    · exact gainOk_of_ne h.defined Mode.noConfusion
    · exact h
  unfold maybeExitStartupOrDrain
  simp only
  split
  · exact gainOk_enterProbeBandwidthMode hstartup.defined (hI.cycle i hi) _ _
  · exact hstartup

theorem gainOk_settled (hI : I.Cycling low high Q) {i : ι} (hi : Q i) {s : Sender}
    (h : GainOk low high s) (e : CongestionEvent) :
    Q (s.settled I i e).1 ∧ GainOk low high (s.settled I i e).2 := by
  obtain ⟨hQ, hcycled⟩ := gainOk_cycled hI hi h e
  refine ⟨hQ, gainOk_maybeExitStartupOrDrain hI hQ ?_ e⟩
  split
  · exact hcycled.of_tempo (tempo_checkIfFullBandwidthReached _)
  · exact hcycled

theorem gainOk_probeRtt (hI : I.Cycling low high Q) {i : ι} (hi : Q i) {s : Sender}
    (h : s.undefinedRead = false) (hmode : s.mode = .PROBE_RTT) (e : CongestionEvent)
    (isRoundStart : Bool) : GainOk low high (s.probeRtt I i e isRoundStart) := by
  obtain ⟨exitAt, passed, heq, -⟩ | ⟨passed, heq, -⟩ := probeRtt_cases I i s e isRoundStart
  · rw [heq]
    refine gainOk_of_ne h ?_
    rw [hmode]
    exact Mode.noConfusion
  · rw [heq]
    have hread : { s with probeRttRoundPassed := passed
                          minRttTimestamp := e.eventTime }.undefinedRead = false := h
    unfold leaveProbeRtt
    split
    · exact gainOk_of_ne hread Mode.noConfusion
    · exact gainOk_enterProbeBandwidthMode hread (hI.cycle i hi) _ _

theorem gainOk_updateModel (hI : I.Cycling low high Q) {i : ι} (hi : Q i) {s : Sender}
    (h : GainOk low high s) (e : CongestionEvent) :
    Q (s.updateModel I i e).1 ∧ GainOk low high (s.updateModel I i e).2 := by
  obtain ⟨hQ, hsettled⟩ := gainOk_settled hI hi h e
  refine ⟨hQ, ?_⟩
  unfold updateModel maybeEnterOrExitProbeRtt
  generalize s.settled I i e = r at hQ hsettled ⊢
  simp only
  have henter : GainOk low high
      (r.2.maybeEnterProbeRtt (I.allowRttProbing r.1) (s.processAcks e).2.2) := by
    unfold maybeEnterProbeRtt
    split
    · exact gainOk_of_ne hsettled.defined Mode.noConfusion
    · exact hsettled
  generalize r.2.maybeEnterProbeRtt (I.allowRttProbing r.1) (s.processAcks e).2.2 = t at henter ⊢
  have hprobe : GainOk low high
      (if t.mode = .PROBE_RTT then t.probeRtt I r.1 e (s.processAcks e).2.1 else t) := by
    split
    · next hmode => exact gainOk_probeRtt hI hQ henter.defined hmode e _
    · exact henter
  exact hprobe.of_tempo rfl

theorem tempo_recalculate (fl : Flags) (s : Sender) (targetRate : Option ℤ) (e : CongestionEvent) :
    Same tempo s (s.recalculate fl targetRate e) :=
  (steered_recalculate fl s targetRate e).map fun p => (p.1.1.1, p.2.1)

end Interface

/-! ## The other calls -/

/-- In `STARTUP` a high gain is taken at once, elsewhere the gain stays. -/
theorem GainOk.setHighGain {s : Sender} (h : GainOk low high s) (gain : ℚ) :
    GainOk low high (s.setHighGain gain) := by
  by_cases hmode : s.mode = .STARTUP
  · refine gainOk_of_ne h.defined ?_
    show s.mode ≠ .PROBE_BW
    rw [hmode]
    exact Mode.noConfusion
  · refine h.of_tempo ?_
    show (s.mode, (if s.mode = .STARTUP then gain else s.pacingGain), s.undefinedRead) = tempo s
    rw [if_neg hmode]
    rfl

theorem GainOk.setHighCwndGain {s : Sender} (h : GainOk low high s) (gain : ℚ) :
    GainOk low high (s.setHighCwndGain gain) := h.of_tempo rfl

theorem GainOk.setGains {s : Sender} (h : GainOk low high s) (has : ConnectionOption → Bool) :
    GainOk low high (s.setGains has) := by
  have hfirst : GainOk low high (if has .kBBQ1 then
      { (s.setHighGain kDerivedHighGain).setHighCwndGain kDerivedHighGain with
        drainGain := 1 / kDerivedHighGain } else s) := by
    split
    · exact ((h.setHighGain kDerivedHighGain).setHighCwndGain kDerivedHighGain).of_tempo rfl
    · exact h
  unfold Sender.setGains
  simp only
  split
  · exact hfirst.setHighCwndGain _
  · exact hfirst

theorem GainOk.adjustNetworkParameters {s : Sender} (h : GainOk low high s) (fl : Flags)
    (p : NetworkParams) : GainOk low high (s.adjustNetworkParameters fl p) := by
  have hinject : Same tempo s (s.injectParameters fl p) := by
    have hbandwidth : Same tempo s (if !fl.donotInjectBandwidth ∧ p.bandwidth ≠ 0 then
        { s with maxBandwidth := s.maxBandwidth.update p.bandwidth s.roundTripCount } else s) :=
      Same.ite rfl rfl
    exact hbandwidth.trans (Same.ite rfl rfl)
  have ht := h.of_tempo hinject
  unfold Sender.adjustNetworkParameters
  generalize s.injectParameters fl p = t at ht ⊢
  have hgains : GainOk low high (if fl.conservativeCwndAndPacingGains then
      (t.setHighGain kDerivedHighCWNDGain).setHighCwndGain kDerivedHighCWNDGain else t) := by
    split
    · exact (ht.setHighGain _).setHighCwndGain _
    · exact ht
  have hresume : GainOk low high (t.resume fl p) := hgains.of_tempo rfl
  simp only
  split
  · split
    · exact ht
    · split
      · exact ht
      · exact hresume
  · exact ht

/-- Whatever the event, nothing is read outside of a cycle, and in `PROBE_BW` the gain stays in the
interval. -/
theorem gain_act {I : Hooks ι} {Q : ι → Prop} (hI : I.Cycling low high Q) (fl : Flags) {i : ι}
    (hi : Q i) {s : Sender} (h : GainOk low high s) (a : Action) :
    Q (s.act I fl i a).1 ∧ GainOk low high (s.act I fl i a).2 := by
  cases a with
  | congestionEvent e =>
    obtain ⟨hQ, hmodel⟩ := gainOk_updateModel hI hi h e
    exact ⟨hQ, hmodel.of_tempo (tempo_recalculate fl _ _ e)⟩
  | packetSent bytesInFlight packetNumber isAppLimited => exact ⟨hi, h.of_tempo rfl⟩
  | applicationLimited bytesInFlight unackedBytes =>
    exact ⟨hi, h.of_tempo (Same.ite rfl (Same.ite rfl rfl))⟩
  | setInitialCongestionWindowInPackets packets => exact ⟨hi, h.of_tempo (Same.ite rfl rfl)⟩
  | adjustNetworkParameters p => exact ⟨hi, h.adjustNetworkParameters fl p⟩
  | setFromConfig has => exact ⟨hi, (h.setGains has).of_tempo rfl⟩

theorem gainOk_new (a : Arguments) (gainCycleLength : ℕ) :
    GainOk low high (new a gainCycleLength) :=
  gainOk_of_ne rfl Mode.noConfusion

end Sender

/-- The methods over an interface keep the gains of all connections, if the calls from outside
keep its cycles. -/
theorem methods_keep {ι β : Type} {I : Hooks ι} {low high : ℚ} {Q : ι → Prop}
    (hI : I.Cycling low high Q) (fl : Flags) {call : ι → β → ι} {B : β → Prop}
    (hcall : ∀ i, Q i → ∀ c, B c → Q (call i c)) :
    (methods I fl call).Keeps Q (Sender.GainOk low high) (fun _ => True) (fun _ => True) B where
  new i hi name a _ := ⟨hI.setParent i hi (some name), Sender.gainOk_new a _⟩
  act _ hi _ hs a _ := Sender.gain_act hI fl hi hs a
  destroy i hi name := by
    show Q (if I.parent i = some name then I.setParent i none else i)
    split
    · exact hI.setParent i hi none
    · exact hi
  call := hcall

end Bbr

/-! ## The adapter -/

namespace BbrAdapter

open Bbr

variable {low high : ℚ}

/-- The cycle, and the cycles that may replace it. -/
structure Interface.Ok (low high : ℚ) (i : Interface) : Prop where
  cycle : CycleOk low high i.kPacingGain
  proposals : ∀ p ∈ i.kPacingGainProposals, CycleOk low high p

theorem Interface.ok_init (hlow : low ≤ 3 / 4) (hhigh : 5 / 4 ≤ high) (noAdaptation : Bool) :
    (Interface.init noAdaptation).Ok low high where
  cycle := cycleOk_default.mono hlow hhigh
  proposals _ hp := absurd hp List.not_mem_nil

/-- A vote can only be won by a proposal. -/
theorem Interface.Ok.updatePacingGainCycle {i : Interface} (h : i.Ok low high) :
    i.updatePacingGainCycle.Ok low high := by
  unfold Interface.updatePacingGainCycle BbrInterface.updatePacingGainCycle
  simp only
  split
  · exact h
  · split
    · next hbest =>
      have hne : i.kPacingGainProposals ≠ [] := by
        rw [← List.length_pos_iff]
        exact Nat.lt_of_lt_of_le (by decide) hbest.2
      exact ⟨h.proposals _ (BbrInterface.best_proposal_mem hne),
        fun p hp => absurd hp List.not_mem_nil⟩
    · exact h

theorem cycling_hooks : hooks.Cycling low high (Interface.Ok low high) where
  cycle _ h := h.cycle
  update _ h := h.updatePacingGainCycle
  register _ h _ := h
  setParent _ h _ := ⟨h.cycle, h.proposals⟩

theorem parental_hooks : hooks.Parental call where
  set _ _ := rfl
  closed _ := ⟨fun _ h => h, fun _ h _ => h⟩
  call i c := by
    cases c with
    | proposePacingGainCycle gain => rfl
    | setRttProbing rttProbing => exact Lib.Same.ite rfl rfl

/-- That a call proposes a cycle that can be used. -/
def Call.Ok (low high : ℚ) : Call → Prop
  | .proposePacingGainCycle gain => CycleOk low high gain
  | .setRttProbing _ => True

theorem Interface.Ok.call {i : Interface} (h : i.Ok low high) {c : Call} (hc : c.Ok low high) :
    (BbrAdapter.call i c).Ok low high := by
  cases c with
  | proposePacingGainCycle gain =>
    show (i.proposePacingGainCycle gain).Ok low high
    unfold Interface.proposePacingGainCycle BbrInterface.proposePacingGainCycle
    split
    · exact h
    · refine ⟨h.cycle, ?_⟩
      rw [List.forall_mem_append]
      refine ⟨h.proposals, fun p hp => ?_⟩
      rw [List.mem_singleton.mp hp]
      exact hc
  | setRttProbing rttProbing =>
    show (i.setRttProbing rttProbing).Ok low high
    unfold Interface.setRttProbing
    split
    · exact h
    · exact ⟨h.cycle, h.proposals⟩

/-- With any number of connections, and proposals of at least two gains in an interval around the
default ones: no connection ever reads a gain that is not in the cycle or divides by zero, though
the cycles have different lengths and are exchanged while the connections are inside them. In
`PROBE_BW` the gain is in the interval. -/
theorem proposals_safe (fl : Flags) (hlow : low ≤ 3 / 4) (hhigh : 5 / 4 ≤ high)
    (noAdaptation : Bool) (es : List (Lib.Group.Event Arguments Sender.Action Call))
    (hes : ∀ e ∈ es, e.Meets (fun _ => True) (fun _ => True) (Call.Ok low high)) {name : ℕ}
    {s : Sender} (hs : (Lib.run (Lib.Group.step (methods fl)) (.empty (.init noAdaptation))
      es).members name = some s) :
    s.undefinedRead = false ∧
      (s.mode = .PROBE_BW → low ≤ s.pacingGain ∧ s.pacingGain ≤ high) := by
  have hkeeps : (methods fl).Keeps (Interface.Ok low high) (Sender.GainOk low high)
      (fun _ => True) (fun _ => True) (Call.Ok low high) :=
    methods_keep cycling_hooks fl fun _ hi _ hc => hi.call hc
  have hsafe := (Lib.Group.safe_empty (Sender.GainOk low high)
    (Interface.ok_init hlow hhigh noAdaptation)).run hkeeps hes
  have hgain := hsafe.2 name s hs
  exact ⟨hgain.defined, fun hmode => ⟨hgain.lower hmode, hgain.upper hmode⟩⟩

/-- Two connections, in turn; after the first cycles the ABR algorithm wants a shorter one, and the
first connection is closed. -/
def twoConnections : List (Lib.Group.Event Arguments Sender.Action Call) :=
  [.create 0 .default, .create 1 .default] ++
    (Sender.firstRounds.map fun x => .act 0 x.2) ++ (Sender.firstRounds.map fun x => .act 1 x.2) ++
    List.replicate 5 (.call (.proposePacingGainCycle [3 / 2, 1])) ++ [.destroy 0] ++
    (Sender.firstRounds.map fun x => .act 1 x.2)

theorem proposals_safe_twoConnections :
    ∃ s, (Lib.run (Lib.Group.step (methods .default)) (.empty (.init false))
        twoConnections).members 1 = some s ∧ s.mode = .PROBE_BW ∧ s.undefinedRead = false ∧
      s.pacingGain ≤ 3 / 2 := by
  have hmode : ((Lib.run (Lib.Group.step (methods .default)) (.empty (.init false))
      twoConnections).members 1).any fun s => s.mode = .PROBE_BW := by decide +kernel
  have hes : ∀ e ∈ twoConnections, e.Meets (fun _ => True) (fun _ => True)
      (Call.Ok (3 / 4) (3 / 2)) := by
    intro e he
    cases e with
    | create name arg => trivial
    | act name a => trivial
    | destroy name => trivial
    | call c =>
      have hc : c = .proposePacingGainCycle [3 / 2, 1] := by
        simpa [twoConnections] using he
      rw [hc]
      show CycleOk (3 / 4) (3 / 2) [3 / 2, 1]
      decide +kernel
  obtain ⟨s, hs⟩ := Option.isSome_iff_exists.mp (Option.isSome_of_any hmode)
  rw [hs, Option.any_some, decide_eq_true_eq] at hmode
  have hsafe := proposals_safe .default (by norm_num) (by norm_num) false twoConnections hes hs
  exact ⟨s, hs, hmode, hsafe.1, (hsafe.2 hmode).2⟩

end BbrAdapter

/-! ## The target -/

namespace BbrTarget

open Bbr

variable {low high : ℚ}

def Interface.Ok (low high : ℚ) (i : Interface) : Prop := CycleOk low high i.kPacingGain

theorem cycling_hooks : hooks.Cycling low high (Interface.Ok low high) where
  cycle _ h := h
  update _ h := h
  register _ h _ := h
  setParent _ h _ := h

def Call.Ok (low high : ℚ) : Call → Prop
  | .setPacingGainCycle gain => CycleOk low high gain
  | _ => True

theorem cycles_safe (fl : Flags) (hlow : low ≤ 3 / 4) (hhigh : 5 / 4 ≤ high)
    (es : List (Lib.Group.Event Arguments Sender.Action Call))
    (hes : ∀ e ∈ es, e.Meets (fun _ => True) (fun _ => True) (Call.Ok low high)) {name : ℕ}
    {s : Sender} (hs : (Lib.run (Lib.Group.step (methods fl)) (.empty .init) es).members name
      = some s) :
    s.undefinedRead = false ∧
      (s.mode = .PROBE_BW → low ≤ s.pacingGain ∧ s.pacingGain ≤ high) := by
  have hcall : ∀ i : Interface, i.Ok low high → ∀ c, Call.Ok low high c →
      (call i c).Ok low high := by
    intro i hi c hc
    cases c with
    | setPacingGainCycle gain => exact hc
    | popDeliveryRates => exact hi
    | setTargetRate rate => exact hi
  have hkeeps : (methods fl).Keeps (Interface.Ok low high) (Sender.GainOk low high)
      (fun _ => True) (fun _ => True) (Call.Ok low high) := methods_keep cycling_hooks fl hcall
  have hinit : Interface.init.Ok low high := cycleOk_default.mono hlow hhigh
  have hsafe := (Lib.Group.safe_empty (Sender.GainOk low high) hinit).run hkeeps hes
  have hgain := hsafe.2 name s hs
  exact ⟨hgain.defined, fun hmode => ⟨hgain.lower hmode, hgain.upper hmode⟩⟩

/-! ## Delivery rates -/

/-- The delivery rates of the valid samples of a call, in kbit/s. -/
def deliveryRatesOf : Sender.Action → List ℕ
  | .congestionEvent e => (e.ackedPackets.filterMap fun packet => packet.sample).map fun b =>
      toKBitsPerSecond b.bandwidth
  | _ => []

theorem foldl_registerDeliveryRate (i : Interface) (samples : List BbrGap.Sender.BandwidthSample) :
    samples.foldl (fun i b => hooks.registerDeliveryRate i b.bandwidth) i
      = { i with deliveryRates :=
            i.deliveryRates ++ samples.map fun b => toKBitsPerSecond b.bandwidth } := by
  induction samples generalizing i with
  | nil => rw [List.map_nil, List.append_nil, List.foldl_nil]
  | cons b samples ih =>
    rw [List.foldl_cons, ih, List.map_cons]
    show { i with deliveryRates := (i.deliveryRates ++ [_]) ++ _ } = _
    rw [List.append_assoc, List.singleton_append]

/-- The senders do nothing else to the interface than to register delivery rates. -/
theorem interface_act (fl : Flags) (i : Interface) (s : Sender) (a : Sender.Action) :
    (s.act hooks fl i a).1 = { i with deliveryRates := i.deliveryRates ++ deliveryRatesOf a } := by
  have hnone : i = { i with deliveryRates := i.deliveryRates ++ [] } := by rw [List.append_nil]
  cases a with
  | congestionEvent e =>
    have hphase : ∀ (j : Interface) (t : Sender), (t.updateGainCyclePhase hooks j e).1 = j := by
      intro j t
      unfold Sender.updateGainCyclePhase
      split
      · exact ite_self j
      · rfl
    rw [deliveryRatesOf, ← foldl_registerDeliveryRate]
    show (s.cycled hooks i e).1 = _
    unfold Sender.cycled
    simp only
    split
    · exact hphase _ _
    · rfl
  | _ => exact hnone

variable (fl : Flags)

/-- What an event of the server adds: only connections that exist acknowledge. -/
def ratesAt (g : Lib.Group Interface Sender) :
    Lib.Group.Event Arguments Sender.Action Call → List ℕ
  | .act name a => if (g.members name).isSome then deliveryRatesOf a else []
  | _ => []

/-- The delivery rates of all connections, in the order in which they are measured. -/
def measured (g : Lib.Group Interface Sender) :
    List (Lib.Group.Event Arguments Sender.Action Call) → List ℕ
  | [] => []
  | e :: es => ratesAt g e ++ measured (g.step (methods fl) e) es

/-- **Step lemma.** What has been handed out and what is waiting, together. -/
theorem rates_step (g : Lib.Group Interface Sender)
    (e : Lib.Group.Event Arguments Sender.Action Call) :
    (g.step (methods fl) e).shared.popped ++ (g.step (methods fl) e).shared.deliveryRates
      = g.shared.popped ++ g.shared.deliveryRates ++ ratesAt g e := by
  cases e with
  | create name arg => exact (List.append_nil _).symm
  | act name a =>
    cases hs : g.members name with
    | none =>
      have hstep : g.step (methods fl) (.act name a) = g := by simp only [Lib.Group.step, hs]
      have hrates : ratesAt g (.act name a) = [] := by simp [ratesAt, hs]
      rw [hstep, hrates, List.append_nil]
    | some s =>
      have hshared : ((methods fl).act g.shared s a).1 = _ := interface_act fl g.shared s a
      have hrates : ratesAt g (.act name a) = deliveryRatesOf a := by simp [ratesAt, hs]
      rw [Lib.Group.step_act _ hs, hshared, hrates]
      exact (List.append_assoc ..).symm
  | destroy name =>
    have hsame : Lib.Same (fun i : Interface => i.popped ++ i.deliveryRates) g.shared
        ((methods fl).destroy g.shared name) := Lib.Same.ite rfl rfl
    exact Eq.trans hsame (List.append_nil _).symm
  | call c =>
    show (call g.shared c).popped ++ (call g.shared c).deliveryRates = _ ++ []
    rw [List.append_nil]
    cases c with
    | setPacingGainCycle gain => rfl
    | popDeliveryRates => exact List.append_nil _
    | setTargetRate rate => rfl

theorem rates_run (g : Lib.Group Interface Sender)
    (es : List (Lib.Group.Event Arguments Sender.Action Call)) :
    (Lib.run (Lib.Group.step (methods fl)) g es).shared.popped ++
        (Lib.run (Lib.Group.step (methods fl)) g es).shared.deliveryRates
      = g.shared.popped ++ g.shared.deliveryRates ++ measured fl g es := by
  induction es generalizing g with
  | nil => exact (List.append_nil _).symm
  | cons e es ih => rw [Lib.run_cons, ih, rates_step, measured, List.append_assoc _ (ratesAt g e)]

/-- Over any number of connections and every order of their events and the calls of the ABR
algorithm, what `popDeliveryRates` has returned so far and what is still waiting are together the
delivery rates of all valid samples, each once and in the order they were measured. -/
theorem delivery_rates_once (es : List (Lib.Group.Event Arguments Sender.Action Call)) :
    let i := (Lib.run (Lib.Group.step (methods fl)) (.empty .init) es).shared
    i.popped ++ i.deliveryRates = measured fl (.empty .init) es :=
  rates_run fl (.empty .init) es

end BbrTarget

end Cc
end LiveStream
