import LiveStream.Cc.Bbr

/-!
# The modes of the BBR senders

What one call does to the mode of a sender of `Cc.Bbr`, whatever its interface holds at that time.
A run is a list of calls, each with the state of the interface it finds. It covers every order in
which the other connections and the ABR algorithm come in between.

* `unacked`, `held`, `base` and `steered`, the parts of a sender that the stages of an event leave
  alone;
* `ModeInv.step`, the modes after `STARTUP` need full bandwidth, and full bandwidth ends `STARTUP`;
* `startup_never_returns` and `probeRtt_schedule`, what follows for whole runs.
-/

namespace LiveStream
namespace Cc
namespace Bbr

open Lib
open BbrGap (MaxBandwidthFilter RecoveryState)
open BbrGap.Sender (AckedPacket isAfter kMinRttExpiry kProbeRttTime kMaxOutgoingPacketSize)

namespace Sender

variable {ι : Type}

/-- A call, with the state of the interface it finds. -/
def step (I : Hooks ι) (fl : Flags) (s : Sender) (x : ι × Action) : Sender := (s.act I fl x.1 x.2).2

/-! ## What the acknowledgements leave alone -/

/-- The limits of the window and what decides about the pacing rate of `STARTUP`. -/
def kept (s : Sender) : (ℕ × ℕ × ℕ × Bool) × (ℕ × Bool × ℕ) :=
  ((s.congestionWindow, s.minCongestionWindow, s.maxCongestionWindow, s.rateBasedStartup),
    (s.pacingRate, s.slowerStartup, s.startupRateReductionMultiplier))

/-- Where the sender is between its modes. -/
def phase (s : Sender) : Mode × Bool × ℕ := (s.mode, s.isAtFullBandwidth, s.exitProbeRttAt)

/-- The gain, and whether it was read where nothing is. -/
def gain (s : Sender) : ℚ × Bool := (s.pacingGain, s.undefinedRead)

/-- What the part of an event on acknowledgements has nothing to do with. -/
def unacked (s : Sender) :
    ((ℕ × ℕ × ℕ × Bool) × (ℕ × Bool × ℕ)) × (Mode × Bool × ℕ) × (ℚ × Bool) :=
  (s.kept, s.phase, s.gain)

theorem kept_of_unacked {s t : Sender} (h : Same unacked s t) : Same kept s t := h.map Prod.fst

theorem phase_of_unacked {s t : Sender} (h : Same unacked s t) : Same phase s t :=
  h.map fun p => p.2.1

theorem gain_of_unacked {s t : Sender} (h : Same unacked s t) : Same gain s t :=
  h.map fun p => p.2.2

theorem mode_of_phase {s t : Sender} (h : Same phase s t) : t.mode = s.mode := congrArg Prod.fst h

theorem full_of_phase {s t : Sender} (h : Same phase s t) :
    t.isAtFullBandwidth = s.isAtFullBandwidth :=
  congrArg (fun p => p.2.1) h

theorem exit_of_phase {s t : Sender} (h : Same phase s t) : t.exitProbeRttAt = s.exitProbeRttAt :=
  congrArg (fun p => p.2.2) h

theorem unacked_discardLostPackets (s : Sender) (e : CongestionEvent) :
    Same unacked s (s.discardLostPackets e) := Same.ite rfl rfl

theorem unacked_updateRoundTripCounter (s : Sender) (lastAckedPacket : ℕ) :
    Same unacked s (s.updateRoundTripCounter lastAckedPacket).1 := by
  unfold updateRoundTripCounter
  split
  · exact rfl
  · exact rfl

/-- What the loop over the acknowledged packets has nothing to do with. -/
def unsampled (s : Sender) :
    (((ℕ × ℕ × ℕ × Bool) × (ℕ × Bool × ℕ)) × (Mode × Bool × ℕ) × (ℚ × Bool)) × (ℕ × ℕ) :=
  (s.unacked, (s.minRttTimestamp, s.roundTripCount))

theorem unsampled_acknowledge (r : Sender × WithTop ℕ) (packet : AckedPacket) :
    Same unsampled r.1 (acknowledge r packet).1 := by
  unfold acknowledge
  split
  · exact rfl
  · simp only
    split
    · exact rfl
    · exact rfl

theorem unsampled_foldl_acknowledge (acked : List AckedPacket) (r : Sender × WithTop ℕ) :
    Same unsampled r.1 (acked.foldl acknowledge r).1 := by
  induction acked generalizing r with
  | nil => exact rfl
  | cons packet acked ih => exact (unsampled_acknowledge r packet).trans (ih _)

/-- What the round trip time has nothing to do with. -/
def untimed (s : Sender) :
    (((ℕ × ℕ × ℕ × Bool) × (ℕ × Bool × ℕ)) × (Mode × Bool × ℕ) × (ℚ × Bool)) ×
      (MaxBandwidthFilter × ℕ) :=
  (s.unacked, (s.maxBandwidth, s.roundTripCount))

theorem untimed_updateMinRtt (s : Sender) (now : ℕ) (sampleMinRtt : WithTop ℕ) :
    Same untimed s (s.updateMinRtt now sampleMinRtt).1 := by
  unfold updateMinRtt
  split
  · exact rfl
  · simp only
    split
    · exact rfl
    · exact rfl

/-- What the recovery has nothing to do with. -/
def unrecovered (s : Sender) :
    ((((ℕ × ℕ × ℕ × Bool) × (ℕ × Bool × ℕ)) × (Mode × Bool × ℕ) × (ℚ × Bool)) ×
      (MaxBandwidthFilter × ℕ)) × ℕ :=
  (s.untimed, s.minRttTimestamp)

theorem unrecovered_updateRecoveryState (s : Sender) (lastAckedPacket : ℕ)
    (hasLosses isRoundStart : Bool) :
    Same unrecovered s (s.updateRecoveryState lastAckedPacket hasLosses isRoundStart) := by
  have hend : Same unrecovered s
      (if hasLosses then { s with endRecoveryAt := s.lastSentPacket } else s) := Same.ite rfl rfl
  have hexit : ∀ t : Sender, Same unrecovered t (t.exitRecovery lastAckedPacket hasLosses) :=
    fun _ => Same.ite rfl rfl
  refine hend.trans ?_
  unfold updateRecoveryState
  generalize (if hasLosses then { s with endRecoveryAt := s.lastSentPacket } else s) = t
  simp only
  split
  · exact Same.ite rfl rfl
  · have hgrowth : Same unrecovered t
        (if isRoundStart then { t with recoveryState := .GROWTH } else t) := Same.ite rfl rfl
    exact hgrowth.trans (hexit _)
  · exact hexit _

/-- The acknowledgements leave the modes to what follows. -/
theorem unacked_processAcks (s : Sender) (e : CongestionEvent) :
    Same unacked s (s.processAcks e).1 := by
  refine (unacked_discardLostPackets s e).trans ?_
  unfold processAcks
  generalize s.discardLostPackets e = t
  simp only
  cases e.ackedPackets.getLast? with
  | none => exact rfl
  | some last =>
    have hround := unacked_updateRoundTripCounter t last.packetNumber
    have hloop := (unsampled_foldl_acknowledge e.ackedPackets
      ((t.updateRoundTripCounter last.packetNumber).1, ⊤)).map Prod.fst
    have hrtt := fun u : Sender => (untimed_updateMinRtt u e.eventTime (e.ackedPackets.foldl
      acknowledge ((t.updateRoundTripCounter last.packetNumber).1, ⊤)).2).map Prod.fst
    have hrecovery := fun u : Sender => (unrecovered_updateRecoveryState u last.packetNumber
      e.hasLosses (t.updateRoundTripCounter last.packetNumber).2).map fun p => p.1.1
    exact ((hround.trans hloop).trans (hrtt _)).trans (hrecovery _)

/-! ## What the gain cycle leaves alone -/

/-- What the modes have nothing to do with: the limits and the rate, and the filter of bandwidths
with its clock. -/
def base (s : Sender) : ((ℕ × ℕ × ℕ × Bool) × (ℕ × Bool × ℕ)) × (MaxBandwidthFilter × ℕ) :=
  (s.kept, (s.maxBandwidth, s.roundTripCount))

/-- What the gain cycle has nothing to do with. -/
def held (s : Sender) :
    (((ℕ × ℕ × ℕ × Bool) × (ℕ × Bool × ℕ)) × (MaxBandwidthFilter × ℕ)) × (Mode × Bool × ℕ) :=
  (s.base, s.phase)

theorem base_of_held {s t : Sender} (h : Same held s t) : Same base s t := h.map Prod.fst

theorem phase_of_held {s t : Sender} (h : Same held s t) : Same phase s t := h.map Prod.snd

theorem held_updateGainCyclePhase (I : Hooks ι) (i : ι) (s : Sender) (e : CongestionEvent) :
    Same held s (s.updateGainCyclePhase I i e).2 := by
  unfold updateGainCyclePhase
  split
  · have htake : ∀ (t : Sender) (cycle : List ℚ) (rate : Option ℤ) (bytes : ℕ),
        Same held t (t.takeGain cycle rate bytes) := fun t cycle rate bytes => Same.ite rfl rfl
    exact Same.trans (g := held) (t := s.advanceOffset (I.getPacingGainCycle i) e.eventTime) rfl
      (htake _ _ _ _)
  · exact rfl

theorem held_cycled (I : Hooks ι) (i : ι) (s : Sender) (e : CongestionEvent) :
    Same held (s.processAcks e).1 (s.cycled I i e).2 := by
  unfold cycled
  simp only
  split
  · exact held_updateGainCyclePhase I _ _ e
  · exact rfl

theorem phase_cycled (I : Hooks ι) (i : ι) (s : Sender) (e : CongestionEvent) :
    Same phase s (s.cycled I i e).2 :=
  (phase_of_unacked (unacked_processAcks s e)).trans (phase_of_held (held_cycled I i s e))

/-! ## What the modes leave alone -/

theorem base_checkIfFullBandwidthReached (s : Sender) :
    Same base s s.checkIfFullBandwidthReached := Same.ite rfl (Same.ite rfl rfl)

theorem base_maybeExitStartupOrDrain (I : Hooks ι) (i : ι) (s : Sender) (e : CongestionEvent) :
    Same base s (s.maybeExitStartupOrDrain I i e) := by
  have hstartup : Same base s s.maybeExitStartup := Same.ite rfl rfl
  exact hstartup.trans (Same.ite rfl rfl)

theorem base_settled (I : Hooks ι) (i : ι) (s : Sender) (e : CongestionEvent) :
    Same base (s.processAcks e).1 (s.settled I i e).2 := by
  have hcycled := base_of_held (held_cycled I i s e)
  have hcheck : Same base (s.processAcks e).1
      (if (s.processAcks e).2.1 && !(s.cycled I i e).2.isAtFullBandwidth then
        (s.cycled I i e).2.checkIfFullBandwidthReached else (s.cycled I i e).2) :=
    Same.ite (hcycled.trans (base_checkIfFullBandwidthReached _)) hcycled
  exact hcheck.trans (base_maybeExitStartupOrDrain I _ _ e)

/-- What can happen to a sender in `PROBE_RTT`: it stays, and the time of its exit may be set, or
that time has come and it leaves. -/
theorem probeRtt_cases (I : Hooks ι) (i : ι) (s : Sender) (e : CongestionEvent)
    (isRoundStart : Bool) :
    (∃ exitAt passed, s.probeRtt I i e isRoundStart
        = { s with exitProbeRttAt := exitAt, probeRttRoundPassed := passed } ∧
      (exitAt = s.exitProbeRttAt ∨
        s.exitProbeRttAt = 0 ∧ exitAt = e.eventTime + kProbeRttTime)) ∨
    (∃ passed, s.probeRtt I i e isRoundStart
        = { s with probeRttRoundPassed := passed, minRttTimestamp := e.eventTime }.leaveProbeRtt
          (I.getPacingGainCycle i) e.eventTime e.random ∧
      s.exitProbeRttAt ≠ 0 ∧ s.exitProbeRttAt ≤ e.eventTime) := by
  by_cases hzero : s.exitProbeRttAt = 0
  · left
    unfold probeRtt
    rw [if_pos hzero]
    split
    · exact ⟨_, _, rfl, Or.inr ⟨hzero, rfl⟩⟩
    · exact ⟨_, _, rfl, Or.inl rfl⟩
  · obtain ⟨passed, hpassed⟩ : ∃ passed,
        (if isRoundStart then { s with probeRttRoundPassed := true } else s)
          = { s with probeRttRoundPassed := passed } := by
      cases isRoundStart
      · exact ⟨_, rfl⟩
      · exact ⟨true, rfl⟩
    unfold probeRtt
    rw [if_neg hzero]
    simp only [hpassed]
    split
    · next hexit => exact Or.inr ⟨passed, rfl, hzero, hexit.1⟩
    · exact Or.inl ⟨_, passed, rfl, Or.inl rfl⟩

theorem base_leaveProbeRtt (s : Sender) (cycle : List ℚ) (now random : ℕ) :
    Same base s (s.leaveProbeRtt cycle now random) := Same.ite rfl rfl

theorem full_leaveProbeRtt (s : Sender) (cycle : List ℚ) (now random : ℕ) :
    (s.leaveProbeRtt cycle now random).isAtFullBandwidth = s.isAtFullBandwidth := by
  unfold leaveProbeRtt
  split
  · rfl
  · rfl

theorem base_probeRtt (I : Hooks ι) (i : ι) (s : Sender) (e : CongestionEvent)
    (isRoundStart : Bool) : Same base s (s.probeRtt I i e isRoundStart) := by
  obtain ⟨exitAt, passed, heq, -⟩ | ⟨passed, heq, -⟩ := probeRtt_cases I i s e isRoundStart
  · rw [heq]
    exact rfl
  · rw [heq]
    exact base_leaveProbeRtt
      { s with probeRttRoundPassed := passed, minRttTimestamp := e.eventTime }
      _ _ _

theorem base_maybeEnterOrExitProbeRtt (I : Hooks ι) (i : ι) (s : Sender) (e : CongestionEvent)
    (isRoundStart minRttExpired : Bool) :
    Same base s (s.maybeEnterOrExitProbeRtt I i e isRoundStart minRttExpired) := by
  have henter : Same base s (s.maybeEnterProbeRtt (I.allowRttProbing i) minRttExpired) :=
    Same.ite rfl rfl
  refine henter.trans ?_
  unfold maybeEnterOrExitProbeRtt
  generalize s.maybeEnterProbeRtt (I.allowRttProbing i) minRttExpired = t
  have hprobe : Same base t (if t.mode = .PROBE_RTT then t.probeRtt I i e isRoundStart else t) :=
    Same.ite (base_probeRtt I i t e isRoundStart) rfl
  exact hprobe.trans rfl

theorem base_updateModel (I : Hooks ι) (i : ι) (s : Sender) (e : CongestionEvent) :
    Same base (s.processAcks e).1 (s.updateModel I i e).2 :=
  (base_settled I i s e).trans (base_maybeEnterOrExitProbeRtt I _ _ e _ _)

/-- Up to the last steps of an event, the windows and the pacing rate are as they were. -/
theorem kept_updateModel (I : Hooks ι) (i : ι) (s : Sender) (e : CongestionEvent) :
    Same kept s (s.updateModel I i e).2 :=
  (kept_of_unacked (unacked_processAcks s e)).trans ((base_updateModel I i s e).map Prod.fst)

/-! ## The modes and full bandwidth -/

/-- The modes after `STARTUP` need full bandwidth, and full bandwidth ends `STARTUP`. -/
structure ModeInv (s : Sender) : Prop where
  full : s.mode = .DRAIN ∨ s.mode = .PROBE_BW → s.isAtFullBandwidth
  left : s.isAtFullBandwidth → s.mode ≠ .STARTUP

/-- Full bandwidth is not taken back. -/
def FullKept (s t : Sender) : Prop := s.isAtFullBandwidth → t.isAtFullBandwidth

theorem ModeInv.of_phase {s t : Sender} (h : ModeInv s) (hst : Same phase s t) : ModeInv t := by
  refine ⟨?_, ?_⟩
  · rw [mode_of_phase hst, full_of_phase hst]
    exact h.full
  · rw [mode_of_phase hst, full_of_phase hst]
    exact h.left

theorem fullKept_checkIfFullBandwidthReached (s : Sender) :
    FullKept s s.checkIfFullBandwidthReached := by
  intro h
  unfold checkIfFullBandwidthReached
  split
  · exact h
  · split
    · exact h
    · simp [h]

theorem mode_checkIfFullBandwidthReached (s : Sender) :
    s.checkIfFullBandwidthReached.mode = s.mode := by
  unfold checkIfFullBandwidthReached
  split
  · rfl
  · split
    · rfl
    · rfl

/-- What is there before `MaybeExitStartupOrDrain`: full bandwidth may have just been reached. -/
theorem full_checked {I : Hooks ι} {i : ι} {s : Sender} (h : ModeInv s) (e : CongestionEvent) :
    let r := (s.cycled I i e).2
    let t := if (s.processAcks e).2.1 && !r.isAtFullBandwidth then r.checkIfFullBandwidthReached
      else r
    (t.mode = .DRAIN ∨ t.mode = .PROBE_BW → t.isAtFullBandwidth) ∧ FullKept s t ∧
      t.mode = s.mode := by
  have hphase := phase_cycled I i s e
  have hr := h.of_phase hphase
  have hfull : FullKept s (s.cycled I i e).2 := fun hs => by rw [full_of_phase hphase]; exact hs
  simp only
  split
  · refine ⟨?_, ?_, ?_⟩
    · rw [mode_checkIfFullBandwidthReached]
      exact fun hm => fullKept_checkIfFullBandwidthReached _ (hr.full hm)
    · exact fun hs => fullKept_checkIfFullBandwidthReached _ (hfull hs)
    · rw [mode_checkIfFullBandwidthReached, mode_of_phase hphase]
  · exact ⟨hr.full, hfull, mode_of_phase hphase⟩

theorem full_maybeExitStartupOrDrain (I : Hooks ι) (i : ι) (s : Sender) (e : CongestionEvent) :
    (s.maybeExitStartupOrDrain I i e).isAtFullBandwidth = s.isAtFullBandwidth := by
  have hstartup : s.maybeExitStartup.isAtFullBandwidth = s.isAtFullBandwidth := by
    unfold maybeExitStartup
    split
    · rfl
    · rfl
  unfold maybeExitStartupOrDrain
  simp only
  split
  · exact hstartup
  · exact hstartup

/-- `MaybeExitStartupOrDrain` leaves `STARTUP` with full bandwidth, and only with it. -/
theorem modeInv_maybeExitStartupOrDrain (I : Hooks ι) (i : ι) {s : Sender}
    (h : s.mode = .DRAIN ∨ s.mode = .PROBE_BW → s.isAtFullBandwidth) (e : CongestionEvent) :
    ModeInv (s.maybeExitStartupOrDrain I i e) := by
  have hfull := full_maybeExitStartupOrDrain I i s e
  by_cases hexit : s.mode = .STARTUP ∧ s.isAtFullBandwidth
  · -- the mode is `DRAIN` now, or `PROBE_BW`
    have hstartup : s.maybeExitStartup.mode = .DRAIN := by rw [maybeExitStartup, if_pos hexit]
    refine ⟨fun _ => hfull.trans hexit.2, fun _ => ?_⟩
    unfold maybeExitStartupOrDrain
    simp only
    split
    · exact Mode.noConfusion
    · rw [hstartup]
      exact Mode.noConfusion
  · have hstartup : s.maybeExitStartup = s := if_neg hexit
    by_cases hdrain : s.mode = .DRAIN ∧
        e.bytesInFlight ≤ s.getTargetCongestionWindow (I.getTargetRate i) 1
    · have heq : s.maybeExitStartupOrDrain I i e =
          s.enterProbeBandwidthMode (I.getPacingGainCycle i) e.eventTime e.random := by
        unfold maybeExitStartupOrDrain
        simp only [hstartup]
        rw [if_pos hdrain]
      refine ⟨fun _ => hfull.trans (h (Or.inl hdrain.1)), fun _ => ?_⟩
      rw [heq]
      exact Mode.noConfusion
    · have heq : s.maybeExitStartupOrDrain I i e = s := by
        unfold maybeExitStartupOrDrain
        simp only [hstartup]
        rw [if_neg hdrain]
      rw [heq]
      exact ⟨h, fun hs hm => hexit ⟨hm, hs⟩⟩

theorem modeInv_leaveProbeRtt (s : Sender) (cycle : List ℚ) (now random : ℕ) :
    ModeInv (s.leaveProbeRtt cycle now random) := by
  unfold leaveProbeRtt
  split
  · next hfull =>
    refine ⟨?_, ?_⟩
    · rintro (h | h)
      · exact absurd h Mode.noConfusion
      · exact absurd h Mode.noConfusion
    · intro h
      simp only [Bool.not_eq_true'] at hfull
      exact absurd (hfull.symm.trans h) Bool.noConfusion
  · next hfull =>
    refine ⟨fun _ => ?_, fun _ => Mode.noConfusion⟩
    show s.isAtFullBandwidth = true
    simpa using hfull

theorem full_probeRtt (I : Hooks ι) (i : ι) (s : Sender) (e : CongestionEvent)
    (isRoundStart : Bool) :
    (s.probeRtt I i e isRoundStart).isAtFullBandwidth = s.isAtFullBandwidth := by
  obtain ⟨exitAt, passed, heq, -⟩ | ⟨passed, heq, -⟩ := probeRtt_cases I i s e isRoundStart
  · rw [heq]
  · rw [heq, full_leaveProbeRtt]

theorem modeInv_probeRtt (I : Hooks ι) (i : ι) {s : Sender} (h : s.mode = .PROBE_RTT)
    (e : CongestionEvent) (isRoundStart : Bool) :
    ModeInv (s.probeRtt I i e isRoundStart) := by
  obtain ⟨exitAt, passed, heq, -⟩ | ⟨passed, heq, -⟩ := probeRtt_cases I i s e isRoundStart
  · rw [heq]
    refine ⟨?_, ?_⟩
    · show s.mode = .DRAIN ∨ s.mode = .PROBE_BW → _
      rw [h]
      rintro (h | h)
      · exact absurd h Mode.noConfusion
      · exact absurd h Mode.noConfusion
    · intro _
      show s.mode ≠ .STARTUP
      rw [h]
      exact Mode.noConfusion
  · rw [heq]
    exact modeInv_leaveProbeRtt _ _ _ _

theorem maybeEnterProbeRtt_cases (s : Sender) (allowRttProbing minRttExpired : Bool) :
    (s.maybeEnterProbeRtt allowRttProbing minRttExpired
        = { s with mode := .PROBE_RTT, pacingGain := 1, exitProbeRttAt := 0 } ∧
      minRttExpired ∧ s.mode ≠ .PROBE_RTT ∧ allowRttProbing) ∨
    s.maybeEnterProbeRtt allowRttProbing minRttExpired = s := by
  unfold maybeEnterProbeRtt
  split
  · next h => exact Or.inl ⟨rfl, h.1, h.2.2.1, h.2.2.2⟩
  · exact Or.inr rfl

theorem full_maybeEnterProbeRtt (s : Sender) (allowRttProbing minRttExpired : Bool) :
    (s.maybeEnterProbeRtt allowRttProbing minRttExpired).isAtFullBandwidth
      = s.isAtFullBandwidth := by
  obtain ⟨heq, -⟩ | heq := maybeEnterProbeRtt_cases s allowRttProbing minRttExpired
  · rw [heq]
  · rw [heq]

theorem full_maybeEnterOrExitProbeRtt (I : Hooks ι) (i : ι) (s : Sender) (e : CongestionEvent)
    (isRoundStart minRttExpired : Bool) :
    (s.maybeEnterOrExitProbeRtt I i e isRoundStart minRttExpired).isAtFullBandwidth
      = s.isAtFullBandwidth := by
  rw [← full_maybeEnterProbeRtt s (I.allowRttProbing i) minRttExpired]
  unfold maybeEnterOrExitProbeRtt
  simp only
  split
  · exact full_probeRtt I i _ e isRoundStart
  · rfl

theorem modeInv_maybeEnterOrExitProbeRtt (I : Hooks ι) (i : ι) {s : Sender} (h : ModeInv s)
    (e : CongestionEvent) (isRoundStart minRttExpired : Bool) :
    ModeInv (s.maybeEnterOrExitProbeRtt I i e isRoundStart minRttExpired) := by
  have hprobe : ModeInv (if (s.maybeEnterProbeRtt (I.allowRttProbing i) minRttExpired).mode
      = .PROBE_RTT then (s.maybeEnterProbeRtt (I.allowRttProbing i) minRttExpired).probeRtt I i e
        isRoundStart else s.maybeEnterProbeRtt (I.allowRttProbing i) minRttExpired) := by
    split
    · next hmode => exact modeInv_probeRtt I i hmode e isRoundStart
    · next hmode =>
      obtain ⟨heq, -⟩ | heq := maybeEnterProbeRtt_cases s (I.allowRttProbing i) minRttExpired
      · rw [heq] at hmode
        exact absurd rfl hmode
      · rw [heq]
        exact h
  exact hprobe.of_phase rfl

/-- The part of an event that decides about the mode. -/
theorem modeInv_updateModel (I : Hooks ι) (i : ι) {s : Sender} (h : ModeInv s)
    (e : CongestionEvent) :
    ModeInv (s.updateModel I i e).2 ∧ FullKept s (s.updateModel I i e).2 := by
  obtain ⟨hfull, hkept, -⟩ := full_checked (I := I) (i := i) h e
  refine ⟨modeInv_maybeEnterOrExitProbeRtt I _
    (modeInv_maybeExitStartupOrDrain I _ hfull e) e _ _, ?_⟩
  intro hs
  unfold updateModel
  rw [full_maybeEnterOrExitProbeRtt]
  unfold settled
  rw [full_maybeExitStartupOrDrain]
  exact hkept hs

/-! ## The last steps of an event, and the other calls -/

/-- The mode with its two clocks: when to leave `PROBE_RTT`, and when the round trip time was
measured. -/
def course (s : Sender) : (Mode × Bool × ℕ) × ℕ := (phase s, s.minRttTimestamp)

theorem phase_of_course {s t : Sender} (h : Same course s t) : Same phase s t := h.map Prod.fst

theorem timestamp_of_course {s t : Sender} (h : Same course s t) :
    t.minRttTimestamp = s.minRttTimestamp := congrArg Prod.snd h

/-- What the calculations at the end of an event have nothing to do with. -/
def steered (s : Sender) : ((Mode × Bool × ℕ) × ℕ) × (ℚ × Bool) × (MaxBandwidthFilter × ℕ) :=
  (s.course, s.gain, (s.maxBandwidth, s.roundTripCount))

theorem steered_recalculate (fl : Flags) (s : Sender) (targetRate : Option ℤ)
    (e : CongestionEvent) : Same steered s (s.recalculate fl targetRate e) := by
  have htotal : Same steered s { s with totalBytesAcked := s.totalBytesAcked + e.bytesAcked } := rfl
  unfold recalculate
  simp only
  generalize { s with totalBytesAcked := s.totalBytesAcked + e.bytesAcked } = t at htotal ⊢
  have hrate : Same steered t (t.calculatePacingRate targetRate e) := by
    have hset : ∀ rate, Same steered t { t with pacingRate := rate } := fun _ => rfl
    exact Same.ite rfl (Same.ite (hset _) (Same.ite (hset _) (Same.ite (hset _)
      (Same.ite (hset _) (hset _)))))
  have hwindow : ∀ u : Sender, Same steered u (u.calculateCongestionWindow fl targetRate e) :=
    fun _ => Same.ite rfl rfl
  have hrecovery : ∀ u : Sender, Same steered u (u.calculateRecoveryWindow fl e) :=
    fun _ => Same.ite rfl (Same.ite rfl (Same.ite rfl rfl))
  exact ((htotal.trans hrate).trans (hwindow _)).trans (hrecovery _)

theorem course_recalculate (fl : Flags) (s : Sender) (targetRate : Option ℤ)
    (e : CongestionEvent) : Same course s (s.recalculate fl targetRate e) :=
  (steered_recalculate fl s targetRate e).map Prod.fst

/-- Calls other than congestion events leave the modes alone. -/
theorem course_act (I : Hooks ι) (fl : Flags) (i : ι) (s : Sender) {a : Action}
    (h : ∀ e, a ≠ .congestionEvent e) : Same course s (s.act I fl i a).2 := by
  cases a with
  | congestionEvent e => exact absurd rfl (h e)
  | packetSent bytesInFlight packetNumber isAppLimited => exact rfl
  | applicationLimited bytesInFlight unackedBytes => exact Same.ite rfl (Same.ite rfl rfl)
  | setInitialCongestionWindowInPackets packets => exact Same.ite rfl rfl
  | adjustNetworkParameters p =>
    have hinject : Same course s (s.injectParameters fl p) := by
      have hbandwidth : Same course s (if !fl.donotInjectBandwidth ∧ p.bandwidth ≠ 0 then
          { s with maxBandwidth := s.maxBandwidth.update p.bandwidth s.roundTripCount } else s) :=
        Same.ite rfl rfl
      exact hbandwidth.trans (Same.ite rfl rfl)
    refine hinject.trans ?_
    have hgains : ∀ t : Sender, Same course t (if fl.conservativeCwndAndPacingGains then
        (t.setHighGain kDerivedHighCWNDGain).setHighCwndGain kDerivedHighCWNDGain else t) :=
      fun t => Same.ite rfl rfl
    exact Same.ite (Same.ite rfl (Same.ite rfl ((hgains _).trans rfl))) rfl
  | setFromConfig has =>
    have hgains : Same course s (s.setGains has) := by
      have hfirst : Same course s (if has .kBBQ1 then
          { (s.setHighGain kDerivedHighGain).setHighCwndGain kDerivedHighGain with
            drainGain := 1 / kDerivedHighGain } else s) := Same.ite rfl rfl
      exact hfirst.trans (Same.ite rfl rfl)
    exact hgains.trans rfl

/-- No event takes full bandwidth back, or enters a mode that full bandwidth does not allow. -/
theorem ModeInv.step {I : Hooks ι} {fl : Flags} {s : Sender} (h : ModeInv s) (x : ι × Action) :
    ModeInv (s.step I fl x) ∧ FullKept s (s.step I fl x) := by
  obtain ⟨i, a⟩ := x
  by_cases ha : ∃ e, a = .congestionEvent e
  · obtain ⟨e, rfl⟩ := ha
    have hmodel := modeInv_updateModel I i h e
    have hphase := phase_of_course (course_recalculate fl (s.updateModel I i e).2
      (I.getTargetRate (s.updateModel I i e).1) e)
    refine ⟨hmodel.1.of_phase hphase, fun hs => ?_⟩
    have hfull := hmodel.2 hs
    rw [← full_of_phase hphase] at hfull
    exact hfull
  · have hphase := phase_of_course (course_act I fl i s (a := a) fun e he => ha ⟨e, he⟩)
    refine ⟨h.of_phase hphase, fun hs => ?_⟩
    rw [← full_of_phase hphase] at hs
    exact hs

theorem modeInv_new (a : Arguments) (gainCycleLength : ℕ) : ModeInv (new a gainCycleLength) where
  full h := by rcases h with h | h <;> exact absurd h Mode.noConfusion
  left h := absurd h Bool.noConfusion

theorem modeInv_run (I : Hooks ι) (fl : Flags) {s : Sender} (h : ModeInv s)
    (xs : List (ι × Action)) : ModeInv (run (step I fl) s xs) :=
  run_invariant h fun _ ht x _ => (ht.step x).1

/-- A sender that has once been at full bandwidth never comes back to `STARTUP`. -/
theorem startup_never_returns (I : Hooks ι) (fl : Flags) (a : Arguments) (gainCycleLength : ℕ)
    (before after : List (ι × Action))
    (h : (run (step I fl) (new a gainCycleLength) before).isAtFullBandwidth) :
    (run (step I fl) (new a gainCycleLength) (before ++ after)).isAtFullBandwidth ∧
      (run (step I fl) (new a gainCycleLength) (before ++ after)).mode ≠ .STARTUP := by
  have hinv := modeInv_run I fl (modeInv_new a gainCycleLength) before
  rw [run_append]
  have hfull : FullKept (run (step I fl) (new a gainCycleLength) before)
      (run (step I fl) (run (step I fl) (new a gainCycleLength) before) after) :=
    run_rel (R := FullKept) (fun _ h => h) (fun _ _ _ hst htu h => htu (hst h))
      (fun t x (ht : ModeInv t) => (ht.step x).1) (fun t x ht => (ht.step x).2) hinv after
  exact ⟨hfull h, (modeInv_run I fl hinv after).left (hfull h)⟩

/-- The acknowledgement of a packet of 1460 bytes, on a path of 8 Mbit/s and 40 ms. -/
def ackEvent (now packetNumber : ℕ) : CongestionEvent where
  priorInFlight := 1460
  eventTime := now
  ackedPackets := [⟨packetNumber, some ⟨8000000, 40000, false⟩⟩]
  lostPackets := []
  bytesInFlight := 0
  bytesAcked := 1460
  excessAcked := 0
  maxAckHeight := 0
  rttStatsMinRtt := 40000
  random := 0

/-- A packet is sent, and acknowledged at the time `now`. -/
def roundTrip (i : ι) (now packetNumber : ℕ) : List (ι × Action) :=
  [(i, .packetSent 0 packetNumber false), (i, .congestionEvent (ackEvent now packetNumber))]

/-- The first rounds of a connection, with an interface that adapts. -/
def firstRounds : List (BbrAdapter.Interface × Action) :=
  roundTrip (.init false) 40000 1 ++ roundTrip (.init false) 80000 2 ++
    roundTrip (.init false) 120000 3 ++ roundTrip (.init false) 160000 4

theorem startup_never_returns_firstRounds :
    (run (step BbrAdapter.hooks .default) (new .default 8)
      (firstRounds ++ roundTrip (.init false) 200000 5)).mode ≠ .STARTUP :=
  (startup_never_returns BbrAdapter.hooks .default .default 8 firstRounds
    (roundTrip (.init false) 200000 5) (by decide +kernel)).2

/-! ## Into `PROBE_RTT` and out of it -/

/-- The two clocks of `PROBE_RTT`: when the round trip time was measured, and when to leave. -/
def clocks (s : Sender) : ℕ × ℕ := (s.minRttTimestamp, s.exitProbeRttAt)

theorem timestamp_of_clocks {s t : Sender} (h : Same clocks s t) :
    t.minRttTimestamp = s.minRttTimestamp := congrArg Prod.fst h

theorem exit_of_clocks {s t : Sender} (h : Same clocks s t) :
    t.exitProbeRttAt = s.exitProbeRttAt := congrArg Prod.snd h

/-- The round trip time is too old ten seconds after it was measured, and measured anew then. -/
theorem timestamp_updateMinRtt (s : Sender) (now : ℕ) (sampleMinRtt : WithTop ℕ) :
    ((s.updateMinRtt now sampleMinRtt).1.minRttTimestamp = s.minRttTimestamp ∨
      (s.updateMinRtt now sampleMinRtt).1.minRttTimestamp = now) ∧
    ((s.updateMinRtt now sampleMinRtt).2 = true → s.minRttTimestamp + kMinRttExpiry < now) := by
  unfold updateMinRtt
  split
  · exact ⟨Or.inl rfl, fun h => absurd h Bool.noConfusion⟩
  · simp only
    split
    · refine ⟨Or.inr rfl, fun h => ?_⟩
      simp only [Bool.and_eq_true, decide_eq_true_eq] at h
      exact h.1.2
    · refine ⟨Or.inl rfl, fun h => ?_⟩
      exact (of_decide_eq_true h).2

theorem timestamp_processAcks (s : Sender) (e : CongestionEvent) :
    ((s.processAcks e).1.minRttTimestamp = s.minRttTimestamp ∨
      (s.processAcks e).1.minRttTimestamp = e.eventTime) ∧
    ((s.processAcks e).2.2 = true → s.minRttTimestamp + kMinRttExpiry < e.eventTime) := by
  have hdiscard : (s.discardLostPackets e).minRttTimestamp = s.minRttTimestamp := by
    unfold discardLostPackets
    split
    · rfl
    · rfl
  rw [← hdiscard]
  unfold processAcks
  generalize s.discardLostPackets e = t
  simp only
  cases e.ackedPackets.getLast? with
  | none => exact ⟨Or.inl rfl, fun h => absurd h Bool.noConfusion⟩
  | some last =>
    have hround : (t.updateRoundTripCounter last.packetNumber).1.minRttTimestamp
        = t.minRttTimestamp := by
      unfold updateRoundTripCounter
      split
      · rfl
      · rfl
    have hloop : (e.ackedPackets.foldl acknowledge
        ((t.updateRoundTripCounter last.packetNumber).1, ⊤)).1.minRttTimestamp
          = (t.updateRoundTripCounter last.packetNumber).1.minRttTimestamp :=
      congrArg (fun p => p.2.1) (unsampled_foldl_acknowledge e.ackedPackets
        ((t.updateRoundTripCounter last.packetNumber).1, ⊤))
    have hrtt := timestamp_updateMinRtt (e.ackedPackets.foldl acknowledge
      ((t.updateRoundTripCounter last.packetNumber).1, ⊤)).1 e.eventTime
      (e.ackedPackets.foldl acknowledge ((t.updateRoundTripCounter last.packetNumber).1, ⊤)).2
    rw [hloop.trans hround] at hrtt
    have hrecovery := congrArg Prod.snd (unrecovered_updateRecoveryState
      ((t.updateRoundTripCounter last.packetNumber).1.updateBandwidthAndMinRtt e.eventTime
        e.ackedPackets).1 last.packetNumber e.hasLosses
      (t.updateRoundTripCounter last.packetNumber).2)
    exact ⟨hrtt.1.imp (Eq.trans hrecovery) (Eq.trans hrecovery), hrtt.2⟩

theorem clocks_updateGainCyclePhase (I : Hooks ι) (i : ι) (s : Sender) (e : CongestionEvent) :
    Same clocks s (s.updateGainCyclePhase I i e).2 := by
  unfold updateGainCyclePhase
  split
  · have htake : ∀ (t : Sender) (cycle : List ℚ) (rate : Option ℤ) (bytes : ℕ),
        Same clocks t (t.takeGain cycle rate bytes) := fun t cycle rate bytes => Same.ite rfl rfl
    exact Same.trans (g := clocks) (t := s.advanceOffset (I.getPacingGainCycle i) e.eventTime) rfl
      (htake _ _ _ _)
  · exact rfl

theorem clocks_settled (I : Hooks ι) (i : ι) (s : Sender) (e : CongestionEvent) :
    Same clocks (s.processAcks e).1 (s.settled I i e).2 := by
  have hcycled : Same clocks (s.processAcks e).1 (s.cycled I i e).2 := by
    unfold cycled
    simp only
    split
    · exact clocks_updateGainCyclePhase I _ _ e
    · exact rfl
  have hcheck : ∀ t : Sender, Same clocks t t.checkIfFullBandwidthReached :=
    fun _ => Same.ite rfl (Same.ite rfl rfl)
  have hstartup : ∀ t : Sender, Same clocks t t.maybeExitStartup := fun _ => Same.ite rfl rfl
  have hexit : ∀ (t : Sender) (j : ι), Same clocks t (t.maybeExitStartupOrDrain I j e) :=
    fun t j => (hstartup t).trans (Same.ite rfl rfl)
  have hround : Same clocks (s.processAcks e).1
      (if (s.processAcks e).2.1 && !(s.cycled I i e).2.isAtFullBandwidth then
        (s.cycled I i e).2.checkIfFullBandwidthReached else (s.cycled I i e).2) :=
    Same.ite (hcycled.trans (hcheck _)) hcycled
  exact hround.trans (hexit _ _)

theorem probeRtt_maybeExitStartupOrDrain_iff (I : Hooks ι) (i : ι) (s : Sender)
    (e : CongestionEvent) :
    (s.maybeExitStartupOrDrain I i e).mode = .PROBE_RTT ↔ s.mode = .PROBE_RTT := by
  have hstartup : s.maybeExitStartup.mode = .PROBE_RTT ↔ s.mode = .PROBE_RTT := by
    unfold maybeExitStartup
    split
    · next h => simp [h.1]
    · exact Iff.rfl
  rw [← hstartup]
  unfold maybeExitStartupOrDrain
  simp only
  split
  · next h => simp [enterProbeBandwidthMode, h.1]
  · exact Iff.rfl

/-- Up to `MaybeEnterOrExitProbeRtt`, an event does not touch `PROBE_RTT`. -/
theorem probeRtt_settled_iff (I : Hooks ι) (i : ι) (s : Sender) (e : CongestionEvent) :
    (s.settled I i e).2.mode = .PROBE_RTT ↔ s.mode = .PROBE_RTT := by
  have hphase := phase_cycled I i s e
  unfold settled
  simp only
  rw [probeRtt_maybeExitStartupOrDrain_iff, ← mode_of_phase hphase]
  split
  · rw [mode_checkIfFullBandwidthReached]
  · exact Iff.rfl

theorem exit_settled (I : Hooks ι) (i : ι) (s : Sender) (e : CongestionEvent) :
    (s.settled I i e).2.exitProbeRttAt = s.exitProbeRttAt :=
  (exit_of_clocks (clocks_settled I i s e)).trans
    (exit_of_phase (phase_of_unacked (unacked_processAcks s e)))

theorem mode_leaveProbeRtt_ne (s : Sender) (cycle : List ℚ) (now random : ℕ) :
    (s.leaveProbeRtt cycle now random).mode ≠ .PROBE_RTT := by
  unfold leaveProbeRtt
  split
  · exact Mode.noConfusion
  · exact Mode.noConfusion

theorem timestamp_leaveProbeRtt (s : Sender) (cycle : List ℚ) (now random : ℕ) :
    (s.leaveProbeRtt cycle now random).minRttTimestamp = s.minRttTimestamp := by
  unfold leaveProbeRtt
  split
  · rfl
  · rfl

/-- A stay in `PROBE_RTT`, one event further. -/
theorem updateModel_of_probeRtt (I : Hooks ι) (i : ι) {s : Sender} (h : s.mode = .PROBE_RTT)
    (e : CongestionEvent) :
    ((s.updateModel I i e).2.mode = .PROBE_RTT ∧
      ((s.updateModel I i e).2.exitProbeRttAt = s.exitProbeRttAt ∨
        (s.updateModel I i e).2.exitProbeRttAt = e.eventTime + kProbeRttTime)) ∨
    ((s.updateModel I i e).2.mode ≠ .PROBE_RTT ∧ s.exitProbeRttAt ≠ 0 ∧
      s.exitProbeRttAt ≤ e.eventTime ∧ (s.updateModel I i e).2.minRttTimestamp = e.eventTime) := by
  have hmode := (probeRtt_settled_iff I i s e).mpr h
  have hexit := exit_settled I i s e
  unfold updateModel
  generalize s.settled I i e = r at hmode hexit ⊢
  have henter : r.2.maybeEnterProbeRtt (I.allowRttProbing r.1) (s.processAcks e).2.2 = r.2 := by
    obtain ⟨-, -, hne, -⟩ | heq :=
      maybeEnterProbeRtt_cases r.2 (I.allowRttProbing r.1) (s.processAcks e).2.2
    · exact absurd hmode hne
    · exact heq
  unfold maybeEnterOrExitProbeRtt
  simp only [henter]
  rw [if_pos hmode]
  obtain ⟨exitAt, passed, heq, hat⟩ | ⟨passed, heq, hne, hle⟩ :=
    probeRtt_cases I r.1 r.2 e (s.processAcks e).2.1
  · rw [heq]
    left
    refine ⟨hmode, ?_⟩
    rcases hat with hat | ⟨-, hat⟩
    · exact Or.inl (hat.trans hexit)
    · exact Or.inr hat
  · rw [heq]
    right
    rw [hexit] at hne hle
    exact ⟨mode_leaveProbeRtt_ne _ _ _ _, hne, hle, timestamp_leaveProbeRtt _ _ _ _⟩

/-- An event on a sender that is not in `PROBE_RTT`. -/
theorem updateModel_of_ne_probeRtt (I : Hooks ι) (i : ι) {s : Sender} (h : s.mode ≠ .PROBE_RTT)
    (e : CongestionEvent) :
    ((s.updateModel I i e).2.mode ≠ .PROBE_RTT ∧
      (s.updateModel I i e).2.minRttTimestamp = (s.processAcks e).1.minRttTimestamp) ∨
    ((s.updateModel I i e).2.mode = .PROBE_RTT ∧ (s.processAcks e).2.2 = true ∧
      I.allowRttProbing (s.settled I i e).1 = true ∧
      ((s.updateModel I i e).2.exitProbeRttAt = 0 ∨
        (s.updateModel I i e).2.exitProbeRttAt = e.eventTime + kProbeRttTime)) := by
  have hmode := (probeRtt_settled_iff I i s e).not.mpr h
  have hclocks := clocks_settled I i s e
  unfold updateModel
  generalize s.settled I i e = r at hmode hclocks ⊢
  obtain ⟨heq, hexpired, -, hallow⟩ | heq :=
    maybeEnterProbeRtt_cases r.2 (I.allowRttProbing r.1) (s.processAcks e).2.2
  · right
    unfold maybeEnterOrExitProbeRtt
    simp only [heq, ↓reduceIte]
    -- the sender cannot leave the mode in the event that enters it
    obtain ⟨exitAt, passed, hprobe, hat⟩ | ⟨passed, hprobe, hne, -⟩ := probeRtt_cases I r.1
      { r.2 with mode := .PROBE_RTT, pacingGain := 1, exitProbeRttAt := 0 } e (s.processAcks e).2.1
    · rw [hprobe]
      exact ⟨rfl, hexpired, hallow, hat.imp_right And.right⟩
    · exact absurd rfl hne
  · left
    unfold maybeEnterOrExitProbeRtt
    simp only [heq]
    rw [if_neg hmode]
    exact ⟨hmode, timestamp_of_clocks hclocks⟩

/-- The call makes the sender enter `PROBE_RTT`. -/
def EntersProbeRtt (I : Hooks ι) (fl : Flags) (s : Sender) (x : ι × Action) : Prop :=
  s.mode ≠ .PROBE_RTT ∧ (s.step I fl x).mode = .PROBE_RTT

instance (I : Hooks ι) (fl : Flags) (s : Sender) (x : ι × Action) :
    Decidable (EntersProbeRtt I fl s x) := instDecidableAnd

/-- At the time `now`: `PROBE_RTT` was entered at the time `t` or later, and if it has been left,
then not before its 200 ms were over. -/
def ProbedSince (t now : ℕ) (s : Sender) : Prop :=
  (s.mode = .PROBE_RTT ∧ (s.exitProbeRttAt = 0 ∨ t + kProbeRttTime ≤ s.exitProbeRttAt)) ∨
    (s.mode ≠ .PROBE_RTT ∧ t + kProbeRttTime ≤ s.minRttTimestamp ∧ s.minRttTimestamp ≤ now)

theorem ProbedSince.of_course {t now : ℕ} {s s' : Sender} (h : ProbedSince t now s)
    (hcourse : Same course s s') : ProbedSince t now s' := by
  have hphase := phase_of_course hcourse
  unfold ProbedSince
  rw [mode_of_phase hphase, exit_of_phase hphase, timestamp_of_course hcourse]
  exact h

/-- Only an event more than ten seconds after the last measured round trip time makes a sender
enter `PROBE_RTT`, and only if the interface allows it. -/
theorem of_entersProbeRtt {I : Hooks ι} {fl : Flags} {s : Sender} {x : ι × Action}
    (h : EntersProbeRtt I fl s x) :
    ∃ e, x.2 = .congestionEvent e ∧ s.minRttTimestamp + kMinRttExpiry < e.eventTime ∧
      I.allowRttProbing (s.settled I x.1 e).1 = true ∧
      ProbedSince e.eventTime e.eventTime (s.step I fl x) := by
  obtain ⟨i, a⟩ := x
  by_cases ha : ∃ e, a = .congestionEvent e
  · obtain ⟨e, rfl⟩ := ha
    have hcourse := course_recalculate fl (s.updateModel I i e).2
      (I.getTargetRate (s.updateModel I i e).1) e
    have hmode : (s.updateModel I i e).2.mode = .PROBE_RTT :=
      (mode_of_phase (phase_of_course hcourse)).symm.trans h.2
    obtain ⟨hne, -⟩ | ⟨-, hexpired, hallow, hexit⟩ := updateModel_of_ne_probeRtt I i h.1 e
    · exact absurd hmode hne
    · refine ⟨e, rfl, (timestamp_processAcks s e).2 hexpired, hallow, ?_⟩
      have hsince : ProbedSince e.eventTime e.eventTime (s.updateModel I i e).2 :=
        Or.inl ⟨hmode, hexit.imp_right Eq.ge⟩
      exact hsince.of_course hcourse
  · have hcourse := course_act I fl i s (a := a) fun e he => ha ⟨e, he⟩
    exact absurd ((mode_of_phase (phase_of_course hcourse)).symm.trans h.2) h.1

theorem ProbedSince.updateModel {I : Hooks ι} {i : ι} {t now : ℕ} {s : Sender}
    (h : ProbedSince t now s) {e : CongestionEvent} (ht : t ≤ now) (hnow : now ≤ e.eventTime) :
    ProbedSince t e.eventTime (s.updateModel I i e).2 := by
  rcases h with ⟨hmode, hexit⟩ | ⟨hmode, htime, hpast⟩
  · obtain ⟨hstay, hsame | hset⟩ | ⟨hleft, hne, hreached, htime⟩ :=
      updateModel_of_probeRtt I i hmode e
    · exact Or.inl ⟨hstay, hsame ▸ hexit⟩
    · exact Or.inl ⟨hstay, Or.inr (by omega)⟩
    · have hafter := hexit.resolve_left hne
      exact Or.inr ⟨hleft, by omega, by omega⟩
  · obtain ⟨hout, hsame⟩ | ⟨hin, -, -, hexit⟩ := updateModel_of_ne_probeRtt I i hmode e
    · -- the clock stands still or moves to this event, which is not before the last
      have hclock := (timestamp_processAcks s e).1
      exact Or.inr ⟨hout, by omega, by omega⟩
    · exact Or.inl ⟨hin, hexit.imp_right (by omega)⟩

/-- The times of the congestion events among the calls. -/
def eventTimes (xs : List (ι × Action)) : List ℕ :=
  xs.filterMap fun x => match x.2 with
    | .congestionEvent e => some e.eventTime
    | _ => none

/-- While the events come in order, `PROBE_RTT` is not left before its 200 ms are over. -/
theorem ProbedSince.run {I : Hooks ι} {fl : Flags} {t now : ℕ} {s : Sender}
    (h : ProbedSince t now s) (ht : t ≤ now) {xs : List (ι × Action)}
    (htimes : (now :: eventTimes xs).Pairwise (· ≤ ·)) :
    ∃ now', ProbedSince t now' (Lib.run (step I fl) s xs) := by
  induction xs generalizing s now with
  | nil => exact ⟨now, h⟩
  | cons x xs ih =>
    obtain ⟨i, a⟩ := x
    by_cases ha : ∃ e, a = .congestionEvent e
    · obtain ⟨e, rfl⟩ := ha
      have hnow : now ≤ e.eventTime := List.rel_of_pairwise_cons htimes (List.mem_cons_self ..)
      have hmodel := (h.updateModel (I := I) (i := i) ht hnow).of_course
        (course_recalculate fl (s.updateModel I i e).2 (I.getTargetRate (s.updateModel I i e).1) e)
      exact ih hmodel (ht.trans hnow) htimes.of_cons
    · have hcourse := course_act I fl i s (a := a) fun e he => ha ⟨e, he⟩
      have hsame : eventTimes ((i, a) :: xs) = eventTimes xs := by
        cases a with
        | congestionEvent e => exact absurd ⟨e, rfl⟩ ha
        | _ => rfl
      rw [hsame] at htimes
      exact ih (h.of_course hcourse) ht htimes

/-- Whatever happens between them, two entries into `PROBE_RTT` are more than the 200 ms of the
first stay and the ten seconds of a fresh round trip time apart. -/
theorem probeRtt_schedule (I : Hooks ι) (fl : Flags) (s : Sender) (x y : ι × Action)
    (between : List (ι × Action)) {e e' : CongestionEvent} (hx : x.2 = .congestionEvent e)
    (hy : y.2 = .congestionEvent e') (htimes : (eventTimes (x :: between)).Pairwise (· ≤ ·))
    (hfirst : EntersProbeRtt I fl s x)
    (hnext : EntersProbeRtt I fl (Lib.run (step I fl) s (x :: between)) y) :
    e.eventTime + kProbeRttTime + kMinRttExpiry < e'.eventTime := by
  obtain ⟨e₀, hx₀, -, -, hsince⟩ := of_entersProbeRtt hfirst
  obtain ⟨e₁, hy₁, hexpired, -, -⟩ := of_entersProbeRtt hnext
  obtain rfl : e = e₀ := Action.congestionEvent.inj (hx.symm.trans hx₀)
  obtain rfl : e' = e₁ := Action.congestionEvent.inj (hy.symm.trans hy₁)
  have hcons : eventTimes (x :: between) = e.eventTime :: eventTimes between := by
    simp only [eventTimes, List.filterMap_cons, hx]
  rw [hcons] at htimes
  have hrun : ∃ now, ProbedSince e.eventTime now (Lib.run (step I fl) s (x :: between)) :=
    hsince.run le_rfl htimes
  obtain ⟨now, ⟨hmode, -⟩ | ⟨-, htime, -⟩⟩ := hrun
  · exact absurd hmode hnext.1
  · omega

theorem probeRtt_schedule_two_stays :
    10160000 + kProbeRttTime + kMinRttExpiry < 20400001 :=
  probeRtt_schedule BbrAdapter.hooks .default
    (run (step BbrAdapter.hooks .default) (new .default 8)
      (firstRounds ++ [(.init false, .packetSent 0 5 false)]))
    (.init false, .congestionEvent (ackEvent 10160000 5))
    (.init false, .congestionEvent (ackEvent 20400001 8))
    (roundTrip (.init false) 10200000 6 ++ roundTrip (.init false) 10400000 7 ++
      [(.init false, .packetSent 0 8 false)])
    rfl rfl (by decide +kernel) (by decide +kernel) (by decide +kernel)

end Sender
end Bbr
end Cc
end LiveStream
