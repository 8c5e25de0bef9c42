import LiveStream.Cc.BbrModes

/-!
# The congestion window of the BBR senders

* `WindowInv`, the limits of the windows that every call keeps;
* `window_bounds`, at all times one segment can be sent when nothing is in flight, and the window
  stays under its maximum;
* `window_growth`, from a window or the minimum window it grows by what was acknowledged at most,
  and before full bandwidth is reached neither the window nor the pacing rate goes down.
-/

namespace LiveStream
namespace Cc
namespace Bbr

open Lib
open BbrGap (MaxBandwidthFilter RecoveryState)

namespace Sender

variable {ι : Type}

/-! ## Limits -/

/-- The limits of the window of a connection with at most `n` packets. -/
structure Bounded (n : ℕ) (s : Sender) : Prop where
  segment : kMaxSegmentSize ≤ s.minCongestionWindow
  minimum : s.minCongestionWindow ≤ kDefaultMinimumCongestionWindow
  maximum : s.maxCongestionWindow = n * kDefaultTCPMSS
  resumable : kMaxInitialCongestionWindow ≤ n
  lower : kMaxSegmentSize ≤ s.congestionWindow
  upper : s.congestionWindow ≤ n * kDefaultTCPMSS

/-- Where the recovery window counts, it is not under the minimum. -/
def Recoverable (s : Sender) : Prop :=
  s.inRecovery → ¬(s.rateBasedStartup ∧ s.mode = .STARTUP) →
    s.minCongestionWindow ≤ s.recoveryWindow

structure WindowInv (n : ℕ) (s : Sender) : Prop extends Bounded n s where
  recoverable : Recoverable s

/-- What decides about the recovery window, and the limits. -/
def limits (s : Sender) : (ℕ × ℕ × Bool) × (Mode × RecoveryState × ℕ) :=
  ((s.minCongestionWindow, s.maxCongestionWindow, s.rateBasedStartup),
    (s.mode, s.recoveryState, s.recoveryWindow))

theorem min_of_limits {s t : Sender} (h : Same limits s t) :
    t.minCongestionWindow = s.minCongestionWindow := congrArg (fun p => p.1.1) h

theorem max_of_limits {s t : Sender} (h : Same limits s t) :
    t.maxCongestionWindow = s.maxCongestionWindow := congrArg (fun p => p.1.2.1) h

theorem Bounded.of_eq {n : ℕ} {s t : Sender} (h : Bounded n s)
    (hmin : t.minCongestionWindow = s.minCongestionWindow)
    (hmax : t.maxCongestionWindow = s.maxCongestionWindow)
    (hlower : kMaxSegmentSize ≤ t.congestionWindow)
    (hupper : t.congestionWindow ≤ n * kDefaultTCPMSS) : Bounded n t where
  segment := hmin ▸ h.segment
  minimum := hmin ▸ h.minimum
  maximum := hmax.trans h.maximum
  resumable := h.resumable
  lower := hlower
  upper := hupper

theorem Recoverable.of_limits {s t : Sender} (h : Recoverable s) (hst : Same limits s t) :
    Recoverable t := by
  have hrate : t.rateBasedStartup = s.rateBasedStartup := congrArg (fun p => p.1.2.2) hst
  have hmode : t.mode = s.mode := congrArg (fun p => p.2.1) hst
  have hstate : t.recoveryState = s.recoveryState := congrArg (fun p => p.2.2.1) hst
  have hwindow : t.recoveryWindow = s.recoveryWindow := congrArg (fun p => p.2.2.2) hst
  unfold Recoverable inRecovery
  rw [hrate, hmode, hstate, hwindow, min_of_limits hst]
  exact h

theorem WindowInv.of_limits {n : ℕ} {s t : Sender} (h : WindowInv n s) (hst : Same limits s t)
    (hlower : kMaxSegmentSize ≤ t.congestionWindow)
    (hupper : t.congestionWindow ≤ n * kDefaultTCPMSS) : WindowInv n t where
  toBounded := h.toBounded.of_eq (min_of_limits hst) (max_of_limits hst) hlower hupper
  recoverable := h.recoverable.of_limits hst

/-! ## The window after an event -/

theorem window_of_kept {s t : Sender} (h : Same kept s t) :
    t.congestionWindow = s.congestionWindow := congrArg (fun p => p.1.1) h

theorem min_of_kept {s t : Sender} (h : Same kept s t) :
    t.minCongestionWindow = s.minCongestionWindow := congrArg (fun p => p.1.2.1) h

theorem max_of_kept {s t : Sender} (h : Same kept s t) :
    t.maxCongestionWindow = s.maxCongestionWindow := congrArg (fun p => p.1.2.2.1) h

theorem rate_of_kept {s t : Sender} (h : Same kept s t) : t.pacingRate = s.pacingRate :=
  congrArg (fun p => p.2.1) h

theorem slower_of_kept {s t : Sender} (h : Same kept s t) : t.slowerStartup = s.slowerStartup :=
  congrArg (fun p => p.2.2.1) h

theorem multiplier_of_kept {s t : Sender} (h : Same kept s t) :
    t.startupRateReductionMultiplier = s.startupRateReductionMultiplier :=
  congrArg (fun p => p.2.2.2) h

/-- What the calculation of the pacing rate leaves alone. -/
def unpaced (s : Sender) :
    ((ℕ × ℕ × Bool) × (Mode × RecoveryState × ℕ)) × (ℕ × Bool × Bool × ℕ) :=
  (limits s, (s.congestionWindow, s.isAtFullBandwidth, s.slowerStartup,
    s.startupRateReductionMultiplier))

theorem unpaced_calculatePacingRate (s : Sender) (targetRate : Option ℤ) (e : CongestionEvent) :
    Same unpaced s (s.calculatePacingRate targetRate e) := by
  have hrate : ∀ rate, Same unpaced s { s with pacingRate := rate } := fun _ => rfl
  exact Same.ite rfl (Same.ite (hrate _) (Same.ite (hrate _) (Same.ite (hrate _)
    (Same.ite (hrate _) (hrate _)))))

/-- The window grows by the acknowledged bytes at most. -/
theorem grownWindow_le (fl : Flags) (s : Sender) (targetRate : Option ℤ) (e : CongestionEvent) :
    s.grownWindow fl targetRate e ≤ s.congestionWindow + e.bytesAcked := by
  unfold grownWindow
  extract_lets base targetWindow addBytesAcked
  split
  · exact min_le_right _ _
  · split
    · exact le_rfl
    · exact Nat.le_add_right _ _

/-- Before full bandwidth is reached it does not shrink. -/
theorem le_grownWindow (fl : Flags) {s : Sender} (h : ¬s.isAtFullBandwidth)
    (targetRate : Option ℤ) (e : CongestionEvent) :
    s.congestionWindow ≤ s.grownWindow fl targetRate e := by
  unfold grownWindow
  extract_lets base targetWindow addBytesAcked
  rw [if_neg h]
  split
  · exact Nat.le_add_right _ _
  · exact le_rfl

theorem limits_calculateCongestionWindow (fl : Flags) (s : Sender) (targetRate : Option ℤ)
    (e : CongestionEvent) : Same limits s (s.calculateCongestionWindow fl targetRate e) :=
  Same.ite rfl rfl

theorem Bounded.calculateCongestionWindow {n : ℕ} {s : Sender} (h : Bounded n s) (fl : Flags)
    (targetRate : Option ℤ) (e : CongestionEvent) :
    Bounded n (s.calculateCongestionWindow fl targetRate e) := by
  have hlimits := limits_calculateCongestionWindow fl s targetRate e
  have hmax := h.maximum
  have hsegment := h.segment
  have hn : kMaxSegmentSize ≤ n * kDefaultTCPMSS := h.lower.trans h.upper
  refine h.of_eq (min_of_limits hlimits) (max_of_limits hlimits) ?_ ?_
  · unfold Sender.calculateCongestionWindow
    split
    · exact h.lower
    · show kMaxSegmentSize ≤ min (max (s.grownWindow fl targetRate e) s.minCongestionWindow)
        s.maxCongestionWindow
      omega
  · unfold Sender.calculateCongestionWindow
    split
    · exact h.upper
    · show min (max (s.grownWindow fl targetRate e) s.minCongestionWindow)
        s.maxCongestionWindow ≤ n * kDefaultTCPMSS
      omega

theorem window_calculateCongestionWindow_le (fl : Flags) (s : Sender) (targetRate : Option ℤ)
    (e : CongestionEvent) :
    (s.calculateCongestionWindow fl targetRate e).congestionWindow ≤
      max s.congestionWindow s.minCongestionWindow + e.bytesAcked := by
  have hgrown := grownWindow_le fl s targetRate e
  unfold calculateCongestionWindow
  split
  · omega
  · show min (max (s.grownWindow fl targetRate e) s.minCongestionWindow) s.maxCongestionWindow ≤ _
    omega

theorem le_window_calculateCongestionWindow (fl : Flags) {s : Sender} (h : ¬s.isAtFullBandwidth)
    (hmax : s.congestionWindow ≤ s.maxCongestionWindow) (targetRate : Option ℤ)
    (e : CongestionEvent) :
    s.congestionWindow ≤ (s.calculateCongestionWindow fl targetRate e).congestionWindow := by
  have hgrown := le_grownWindow fl h targetRate e
  unfold calculateCongestionWindow
  split
  · exact le_rfl
  · show _ ≤ min (max (s.grownWindow fl targetRate e) s.minCongestionWindow) s.maxCongestionWindow
    omega

/-- The recovery window is put right in every event of a recovery. -/
theorem recoverable_calculateRecoveryWindow (fl : Flags) (s : Sender) (e : CongestionEvent) :
    Recoverable (s.calculateRecoveryWindow fl e) := by
  unfold calculateRecoveryWindow
  split
  · next hrate => exact fun _ hnot => absurd hrate hnot
  · split
    · next hstate => exact fun hrecovery => absurd hstate (of_decide_eq_true hrecovery)
    · split
      · exact fun _ _ => le_max_left _ _
      · exact fun _ _ => le_max_left _ _

/-- The recovery window is calculated last and touches nothing else. -/
theorem window_calculateRecoveryWindow (fl : Flags) (s : Sender) (e : CongestionEvent) :
    Same (fun s => (s.minCongestionWindow, s.maxCongestionWindow, s.congestionWindow, s.pacingRate))
      s (s.calculateRecoveryWindow fl e) :=
  Same.ite rfl (Same.ite rfl (Same.ite rfl rfl))

theorem le_rate_calculatePacingRate {s : Sender} (hfull : ¬s.isAtFullBandwidth)
    (hslower : s.slowerStartup = false) (hmultiplier : s.startupRateReductionMultiplier = 0)
    (targetRate : Option ℤ) (e : CongestionEvent) :
    s.pacingRate ≤ (s.calculatePacingRate targetRate e).pacingRate := by
  unfold calculatePacingRate
  split
  · exact le_rfl
  · extract_lets target hasEverDetectedLoss
    split
    · next hzero => exact hzero.1.trans_le (Nat.zero_le _)
    · rw [if_neg (by simp [hslower]), if_neg (by simp [hmultiplier])]
      exact le_max_left _ _

/-! ## One event -/

section Event

variable (I : Hooks ι) (fl : Flags) (i : ι) (s : Sender) (e : CongestionEvent)

/-- The sender when the windows are calculated. -/
def paced : Sender :=
  let t := (s.updateModel I i e).2
  { t with totalBytesAcked := t.totalBytesAcked + e.bytesAcked }.calculatePacingRate
    (I.getTargetRate (s.updateModel I i e).1) e

theorem onCongestionEvent_eq : (s.onCongestionEvent I fl i e).2 =
    ((s.paced I i e).calculateCongestionWindow fl (I.getTargetRate (s.updateModel I i e).1)
      e).calculateRecoveryWindow fl e := rfl

theorem unpaced_paced : Same unpaced (s.updateModel I i e).2 (s.paced I i e) := by
  unfold paced
  generalize s.updateModel I i e = r
  have htotal : Same unpaced r.2
      { r.2 with totalBytesAcked := r.2.totalBytesAcked + e.bytesAcked } := rfl
  exact htotal.trans (unpaced_calculatePacingRate _ _ e)

theorem window_paced : (s.paced I i e).congestionWindow = s.congestionWindow := by
  have hpaced := congrArg (fun p => p.2.1) (unpaced_paced I i s e)
  exact hpaced.trans (window_of_kept (kept_updateModel I i s e))

theorem min_paced : (s.paced I i e).minCongestionWindow = s.minCongestionWindow := by
  have hpaced := congrArg (fun p => p.1.1.1) (unpaced_paced I i s e)
  exact hpaced.trans (min_of_kept (kept_updateModel I i s e))

theorem max_paced : (s.paced I i e).maxCongestionWindow = s.maxCongestionWindow := by
  have hpaced := congrArg (fun p => p.1.1.2.1) (unpaced_paced I i s e)
  exact hpaced.trans (max_of_kept (kept_updateModel I i s e))

end Event

theorem WindowInv.onCongestionEvent {n : ℕ} {s : Sender} (h : WindowInv n s) (I : Hooks ι)
    (fl : Flags) (i : ι) (e : CongestionEvent) :
    WindowInv n (s.onCongestionEvent I fl i e).2 := by
  rw [onCongestionEvent_eq]
  have hpaced : Bounded n (s.paced I i e) :=
    h.toBounded.of_eq (min_paced I i s e) (max_paced I i s e)
      ((window_paced I i s e).symm ▸ h.lower) ((window_paced I i s e).symm ▸ h.upper)
  have hwindow := hpaced.calculateCongestionWindow fl (I.getTargetRate (s.updateModel I i e).1) e
  generalize (s.paced I i e).calculateCongestionWindow fl
    (I.getTargetRate (s.updateModel I i e).1) e = t at hwindow ⊢
  have hsame := window_calculateRecoveryWindow fl t e
  have hcwnd : (t.calculateRecoveryWindow fl e).congestionWindow = t.congestionWindow :=
    congrArg (fun p => p.2.2.1) hsame
  exact
    { toBounded := hwindow.of_eq (congrArg Prod.fst hsame) (congrArg (fun p => p.2.1) hsame)
        (hcwnd.symm ▸ hwindow.lower) (hcwnd.symm ▸ hwindow.upper)
      recoverable := recoverable_calculateRecoveryWindow fl t e }

/-! ## Every call -/

/-- The calls that hand over an initial window hand over one of at least one packet and at most
`n`. -/
def Action.WellFormed (n : ℕ) : Action → Prop
  | .setInitialCongestionWindowInPackets packets => 1 ≤ packets ∧ packets ≤ n
  | _ => True

instance (n : ℕ) : ∀ a : Action, Decidable (a.WellFormed n)
  | .congestionEvent _ => isTrue trivial
  | .packetSent _ _ _ => isTrue trivial
  | .applicationLimited _ _ => isTrue trivial
  | .setInitialCongestionWindowInPackets _ => instDecidableAnd
  | .adjustNetworkParameters _ => isTrue trivial
  | .setFromConfig _ => isTrue trivial

theorem resumedWindow_bounds (fl : Flags) (s : Sender) (p : NetworkParams) :
    kMaxSegmentSize ≤ s.resumedWindow fl p ∧
      s.resumedWindow fl p ≤ kMaxInitialCongestionWindow * kDefaultTCPMSS := by
  unfold resumedWindow kMinInitialCongestionWindow kMaxInitialCongestionWindow kMaxSegmentSize
    kDefaultTCPMSS
  omega

theorem limits_injectParameters (fl : Flags) (s : Sender) (p : NetworkParams) :
    Same (fun s => (limits s, s.congestionWindow)) s (s.injectParameters fl p) := by
  have hbandwidth : Same (fun s => (limits s, s.congestionWindow)) s
      (if !fl.donotInjectBandwidth ∧ p.bandwidth ≠ 0 then
        { s with maxBandwidth := s.maxBandwidth.update p.bandwidth s.roundTripCount } else s) :=
    Same.ite rfl rfl
  exact hbandwidth.trans (Same.ite rfl rfl)

theorem limits_resume (fl : Flags) (s : Sender) (p : NetworkParams) :
    Same limits s (s.resume fl p) := by
  have hgains : Same limits s (if fl.conservativeCwndAndPacingGains then
      (s.setHighGain kDerivedHighCWNDGain).setHighCwndGain kDerivedHighCWNDGain else s) :=
    Same.ite rfl rfl
  exact hgains.trans rfl

theorem WindowInv.adjustNetworkParameters {n : ℕ} {s : Sender} (h : WindowInv n s) (fl : Flags)
    (p : NetworkParams) : WindowInv n (s.adjustNetworkParameters fl p) := by
  have hinject := limits_injectParameters fl s p
  have hwindow : (s.injectParameters fl p).congestionWindow = s.congestionWindow :=
    congrArg Prod.snd hinject
  have ht : WindowInv n (s.injectParameters fl p) :=
    h.of_limits (hinject.map Prod.fst) (hwindow.symm ▸ h.lower) (hwindow.symm ▸ h.upper)
  unfold Sender.adjustNetworkParameters
  generalize s.injectParameters fl p = t at ht ⊢
  have hbounds := resumedWindow_bounds fl t p
  have hresume : WindowInv n (t.resume fl p) :=
    ht.of_limits (limits_resume fl t p) hbounds.1
      (hbounds.2.trans (Nat.mul_le_mul_right _ ht.resumable))
  simp only
  split
  · split
    · exact ht
    · split
      · exact ht
      · exact hresume
  · exact ht

/-- The options only ever turn features on, and take the minimum down to one segment. -/
theorem WindowInv.setFromConfig {n : ℕ} {s : Sender} (h : WindowInv n s) (fl : Flags)
    (has : ConnectionOption → Bool) : WindowInv n (s.setFromConfig fl has) := by
  have hgains : Same (fun s => (limits s, s.congestionWindow)) s (s.setGains has) := by
    have hfirst : Same (fun s => (limits s, s.congestionWindow)) s (if has .kBBQ1 then
        { (s.setHighGain kDerivedHighGain).setHighCwndGain kDerivedHighGain with
          drainGain := 1 / kDerivedHighGain } else s) := Same.ite rfl rfl
    exact hfirst.trans (Same.ite rfl rfl)
  have hcwnd : (s.setFromConfig fl has).congestionWindow = s.congestionWindow :=
    congrArg Prod.snd hgains
  have hmax : (s.setFromConfig fl has).maxCongestionWindow = s.maxCongestionWindow :=
    congrArg (fun p => p.1.1.2.1) hgains
  have hmode : (s.setFromConfig fl has).mode = s.mode := congrArg (fun p => p.1.2.1) hgains
  have hstate : (s.setFromConfig fl has).recoveryState = s.recoveryState :=
    congrArg (fun p => p.1.2.2.1) hgains
  have hrecovery : (s.setFromConfig fl has).recoveryWindow = s.recoveryWindow :=
    congrArg (fun p => p.1.2.2.2) hgains
  have hmin : (s.setFromConfig fl has).minCongestionWindow
      = if has .kMIN1 then kMaxSegmentSize else s.minCongestionWindow := rfl
  have hsegment := h.segment
  have hminimum := h.minimum
  have hminle : (s.setFromConfig fl has).minCongestionWindow ≤ s.minCongestionWindow := by
    rw [hmin]
    split
    · exact hsegment
    · exact le_rfl
  constructor
  · constructor
    · rw [hmin]
      split
      · exact le_rfl
      · exact hsegment
    · exact hminle.trans hminimum
    · rw [hmax]
      exact h.maximum
    · exact h.resumable
    · rw [hcwnd]
      exact h.lower
    · rw [hcwnd]
      exact h.upper
  · intro hin hnot
    rw [hrecovery]
    refine hminle.trans (h.recoverable ?_ fun hrate => hnot ?_)
    · rw [inRecovery, hstate] at hin
      exact hin
    · refine ⟨?_, hmode.trans hrate.2⟩
      show (s.rateBasedStartup || has .kBBS1 || _ || _) = true
      rw [hrate.1]
      rfl

/-- Every event and every setting in range leaves the window between the limits, and the recovery
window at the minimum at least. -/
theorem WindowInv.step {n : ℕ} {s : Sender} (h : WindowInv n s) {I : Hooks ι} {fl : Flags}
    {x : ι × Action} (hx : x.2.WellFormed n) : WindowInv n (s.step I fl x) := by
  obtain ⟨i, a⟩ := x
  cases a with
  | congestionEvent e => exact h.onCongestionEvent I fl i e
  | packetSent bytesInFlight packetNumber isAppLimited => exact h.of_limits rfl h.lower h.upper
  | applicationLimited bytesInFlight unackedBytes =>
    show WindowInv n (s.onApplicationLimited _ _ _)
    unfold onApplicationLimited
    split
    · exact h
    · split
      · exact h
      · exact h.of_limits rfl h.lower h.upper
  | setInitialCongestionWindowInPackets packets =>
    show WindowInv n (s.setInitialCongestionWindowInPackets packets)
    unfold setInitialCongestionWindowInPackets
    split
    · exact h.of_limits rfl (Nat.le_mul_of_pos_left _ hx.1) (Nat.mul_le_mul_right _ hx.2)
    · exact h
  | adjustNetworkParameters p => exact h.adjustNetworkParameters fl p
  | setFromConfig has => exact h.setFromConfig fl has

theorem windowInv_new {a : Arguments} (hinitial : 1 ≤ a.initialTcpCongestionWindow)
    (hle : a.initialTcpCongestionWindow ≤ a.maxTcpCongestionWindow)
    (hmax : kMaxInitialCongestionWindow ≤ a.maxTcpCongestionWindow) (gainCycleLength : ℕ) :
    WindowInv a.maxTcpCongestionWindow (new a gainCycleLength) where
  segment := Nat.le_mul_of_pos_left _ (by decide)
  minimum := le_rfl
  maximum := rfl
  resumable := hmax
  lower := Nat.le_mul_of_pos_left _ hinitial
  upper := Nat.mul_le_mul_right _ hle
  recoverable := fun h => absurd h Bool.noConfusion

theorem windowInv_run {I : Hooks ι} {fl : Flags} {n : ℕ} {s : Sender} (h : WindowInv n s)
    {xs : List (ι × Action)} (hxs : ∀ x ∈ xs, x.2.WellFormed n) :
    WindowInv n (run (step I fl) s xs) :=
  run_invariant h fun _ ht x hx => ht.step (hxs x hx)

theorem WindowInv.bounds {n : ℕ} {s : Sender} (h : WindowInv n s) (targetRate : Option ℤ) :
    kMaxSegmentSize ≤ s.getCongestionWindow targetRate ∧
      (s.mode ≠ .PROBE_RTT ∨ s.probeRttBasedOnBdp = false →
        s.getCongestionWindow targetRate ≤ n * kDefaultTCPMSS) := by
  have hsegment := h.segment
  have hlower := h.lower
  have hupper := h.upper
  have hminimum : s.minCongestionWindow ≤ n * kDefaultTCPMSS := by
    have hle : kDefaultMinimumCongestionWindow ≤ kMaxInitialCongestionWindow * kDefaultTCPMSS := by
      decide
    exact h.minimum.trans (hle.trans (Nat.mul_le_mul_right _ h.resumable))
  unfold getCongestionWindow
  split
  · next hmode =>
    unfold probeRttCongestionWindow
    split
    · next hbdp =>
      refine ⟨hsegment.trans (le_max_right _ _), fun hor => ?_⟩
      rcases hor with hor | hor
      · exact absurd hmode hor
      · exact absurd hbdp (Bool.not_eq_true _ ▸ hor)
    · exact ⟨hsegment, fun _ => hminimum⟩
  · split
    · next hrecovery =>
      have hwindow := h.recoverable hrecovery.1 hrecovery.2
      exact ⟨by omega, fun _ => by omega⟩
    · exact ⟨hlower, fun _ => hupper⟩

/-- Whatever a connection goes through, one segment can be sent when nothing is in flight: no loss,
recovery or probe closes the window. And the window stays under the maximum, except for the one of
a probe that is based on the bandwidth-delay product. -/
theorem window_bounds (I : Hooks ι) (fl : Flags) (a : Arguments) (gainCycleLength : ℕ)
    (hinitial : 1 ≤ a.initialTcpCongestionWindow)
    (hle : a.initialTcpCongestionWindow ≤ a.maxTcpCongestionWindow)
    (hmax : kMaxInitialCongestionWindow ≤ a.maxTcpCongestionWindow) (xs : List (ι × Action))
    (hxs : ∀ x ∈ xs, x.2.WellFormed a.maxTcpCongestionWindow) (targetRate : Option ℤ) :
    let s := run (step I fl) (new a gainCycleLength) xs
    s.canSend targetRate 0 ∧ kMaxSegmentSize ≤ s.getCongestionWindow targetRate ∧
      (s.mode ≠ .PROBE_RTT ∨ s.probeRttBasedOnBdp = false →
        s.getCongestionWindow targetRate ≤ a.maxTcpCongestionWindow * kDefaultTCPMSS) := by
  intro s
  have hinv : WindowInv a.maxTcpCongestionWindow s :=
    windowInv_run (windowInv_new hinitial hle hmax gainCycleLength) hxs
  obtain ⟨hlower, hupper⟩ := hinv.bounds targetRate
  refine ⟨?_, hlower, hupper⟩
  have hpos : 0 < kMaxSegmentSize := by decide
  exact decide_eq_true (hpos.trans_le hlower)

theorem window_bounds_firstRounds :
    let s := run (step BbrAdapter.hooks .default) (new .default 8)
      ((BbrAdapter.Interface.init false, .setInitialCongestionWindowInPackets 3) :: firstRounds)
    s.canSend none 0 ∧ kMaxSegmentSize ≤ s.getCongestionWindow none ∧
      (s.mode ≠ .PROBE_RTT ∨ s.probeRttBasedOnBdp = false →
        s.getCongestionWindow none ≤ 2000 * kDefaultTCPMSS) :=
  window_bounds BbrAdapter.hooks .default .default 8 (by decide) (by decide)
    (by decide) ((.init false, .setInitialCongestionWindowInPackets 3) :: firstRounds)
    (by decide) none

/-! ## Growth -/

/-- Between `s` and `t` the window has grown by `acked` at most. If `t` is not at full bandwidth,
neither the window nor, without the options that reduce it, the pacing rate has gone down. -/
structure Grown (acked : ℕ) (s t : Sender) : Prop where
  window : max t.congestionWindow t.minCongestionWindow ≤
    max s.congestionWindow s.minCongestionWindow + acked
  startup : ¬t.isAtFullBandwidth → ¬s.isAtFullBandwidth ∧ s.congestionWindow ≤ t.congestionWindow
  rate : ¬t.isAtFullBandwidth → t.slowerStartup = false → t.startupRateReductionMultiplier = 0 →
    s.slowerStartup = false ∧ s.startupRateReductionMultiplier = 0 ∧ s.pacingRate ≤ t.pacingRate

theorem Grown.trans {m n : ℕ} {s t u : Sender} (hst : Grown m s t) (htu : Grown n t u) :
    Grown (m + n) s u where
  window := by
    have h₁ := hst.window
    have h₂ := htu.window
    omega
  startup hu := by
    obtain ⟨ht, hle⟩ := htu.startup hu
    exact ⟨(hst.startup ht).1, (hst.startup ht).2.trans hle⟩
  rate hu hslower hmultiplier := by
    obtain ⟨hslower', hmultiplier', hle⟩ := htu.rate hu hslower hmultiplier
    obtain ⟨hslower'', hmultiplier'', hle'⟩ :=
      hst.rate (htu.startup hu).1 hslower' hmultiplier'
    exact ⟨hslower'', hmultiplier'', hle'.trans hle⟩

/-- What `Grown` speaks about. -/
def growth (s : Sender) : (ℕ × ℕ × Bool) × ℕ × Bool × ℕ :=
  ((s.congestionWindow, s.pacingRate, s.isAtFullBandwidth),
    (s.minCongestionWindow, s.slowerStartup, s.startupRateReductionMultiplier))

theorem grown_of_growth {s t : Sender} (h : Same growth s t) : Grown 0 s t := by
  have hwindow : t.congestionWindow = s.congestionWindow := congrArg (fun p => p.1.1) h
  have hrate : t.pacingRate = s.pacingRate := congrArg (fun p => p.1.2.1) h
  have hfull : t.isAtFullBandwidth = s.isAtFullBandwidth := congrArg (fun p => p.1.2.2) h
  have hmin : t.minCongestionWindow = s.minCongestionWindow := congrArg (fun p => p.2.1) h
  have hslower : t.slowerStartup = s.slowerStartup := congrArg (fun p => p.2.2.1) h
  have hmultiplier : t.startupRateReductionMultiplier = s.startupRateReductionMultiplier :=
    congrArg (fun p => p.2.2.2) h
  constructor
  · rw [hwindow, hmin]
    exact le_rfl
  · rw [hfull, hwindow]
    exact fun hs => ⟨hs, le_rfl⟩
  · rw [hslower, hmultiplier, hrate]
    exact fun _ hs hm => ⟨hs, hm, le_rfl⟩

theorem grown_setFromConfig (fl : Flags) {s : Sender}
    (hsegment : kMaxSegmentSize ≤ s.minCongestionWindow) (has : ConnectionOption → Bool) :
    Grown 0 s (s.setFromConfig fl has) := by
  have hgains : Same (fun s => (growth s).1) s (s.setGains has) := by
    have hfirst : Same (fun s => (growth s).1) s (if has .kBBQ1 then
        { (s.setHighGain kDerivedHighGain).setHighCwndGain kDerivedHighGain with
          drainGain := 1 / kDerivedHighGain } else s) := Same.ite rfl rfl
    exact hfirst.trans (Same.ite rfl rfl)
  have hwindow : (s.setFromConfig fl has).congestionWindow = s.congestionWindow :=
    congrArg (fun p => p.1) hgains
  have hrate : (s.setFromConfig fl has).pacingRate = s.pacingRate :=
    congrArg (fun p => p.2.1) hgains
  have hfull : (s.setFromConfig fl has).isAtFullBandwidth = s.isAtFullBandwidth :=
    congrArg (fun p => p.2.2) hgains
  have hmin : (s.setFromConfig fl has).minCongestionWindow
      = if has .kMIN1 then kMaxSegmentSize else s.minCongestionWindow := rfl
  have hslower : (s.setFromConfig fl has).slowerStartup = (s.slowerStartup || has .kBBRS) := rfl
  have hmultiplier : (s.setFromConfig fl has).startupRateReductionMultiplier
      = if fl.startupRateReduction && has .kBBS5 then 2
        else if fl.startupRateReduction && has .kBBS4 then 1
        else s.startupRateReductionMultiplier := rfl
  generalize s.setFromConfig fl has = t at *
  constructor
  · rw [hwindow, hmin]
    split
    · omega
    · omega
  · rw [hfull, hwindow]
    exact fun hs => ⟨hs, le_rfl⟩
  · intro _ hs hm
    rw [hslower, Bool.or_eq_false_iff] at hs
    refine ⟨hs.1, ?_, hrate.ge⟩
    -- both reductions are positive
    rw [hmultiplier] at hm
    split at hm
    · exact absurd hm (by decide)
    · split at hm
      · exact absurd hm (by decide)
      · exact hm

theorem grown_updateModel (I : Hooks ι) (i : ι) {s : Sender} (h : ModeInv s)
    (e : CongestionEvent) : Grown 0 s (s.updateModel I i e).2 := by
  have hkept := kept_updateModel I i s e
  have hfull := (modeInv_updateModel I i h e).2
  generalize (s.updateModel I i e).2 = t at hkept hfull ⊢
  constructor
  · rw [window_of_kept hkept, min_of_kept hkept]
    exact le_rfl
  · exact fun ht => ⟨fun hs => ht (hfull hs), (window_of_kept hkept).ge⟩
  · rw [slower_of_kept hkept, multiplier_of_kept hkept, rate_of_kept hkept]
    exact fun _ hs hm => ⟨hs, hm, le_rfl⟩

theorem grown_calculatePacingRate (s : Sender) (targetRate : Option ℤ) (e : CongestionEvent) :
    Grown 0 s (s.calculatePacingRate targetRate e) := by
  have hunpaced := unpaced_calculatePacingRate s targetRate e
  have hrate := fun hfull hslower hmultiplier =>
    le_rate_calculatePacingRate (s := s) hfull hslower hmultiplier targetRate e
  generalize s.calculatePacingRate targetRate e = t at hunpaced hrate ⊢
  have hwindow : t.congestionWindow = s.congestionWindow := congrArg (fun p => p.2.1) hunpaced
  have hfull : t.isAtFullBandwidth = s.isAtFullBandwidth := congrArg (fun p => p.2.2.1) hunpaced
  have hslower : t.slowerStartup = s.slowerStartup := congrArg (fun p => p.2.2.2.1) hunpaced
  have hmultiplier : t.startupRateReductionMultiplier = s.startupRateReductionMultiplier :=
    congrArg (fun p => p.2.2.2.2) hunpaced
  constructor
  · rw [hwindow, min_of_limits (hunpaced.map Prod.fst)]
    exact le_rfl
  · rw [hfull, hwindow]
    exact fun hs => ⟨hs, le_rfl⟩
  · rw [hfull, hslower, hmultiplier]
    exact fun hs hl hm => ⟨hl, hm, hrate hs hl hm⟩

theorem grown_calculateCongestionWindow (fl : Flags) {s : Sender}
    (hmax : s.congestionWindow ≤ s.maxCongestionWindow) (targetRate : Option ℤ)
    (e : CongestionEvent) :
    Grown e.bytesAcked s (s.calculateCongestionWindow fl targetRate e) := by
  have hle := window_calculateCongestionWindow_le fl s targetRate e
  have hge := fun hfull => le_window_calculateCongestionWindow fl (s := s) hfull hmax targetRate e
  have hsame : Same (fun s => (s.pacingRate, s.isAtFullBandwidth, (growth s).2)) s
      (s.calculateCongestionWindow fl targetRate e) := Same.ite rfl rfl
  generalize s.calculateCongestionWindow fl targetRate e = t at hle hge hsame ⊢
  have hrate : t.pacingRate = s.pacingRate := congrArg Prod.fst hsame
  have hfull : t.isAtFullBandwidth = s.isAtFullBandwidth := congrArg (fun p => p.2.1) hsame
  have hmin : t.minCongestionWindow = s.minCongestionWindow := congrArg (fun p => p.2.2.1) hsame
  have hslower : t.slowerStartup = s.slowerStartup := congrArg (fun p => p.2.2.2.1) hsame
  have hmultiplier : t.startupRateReductionMultiplier = s.startupRateReductionMultiplier :=
    congrArg (fun p => p.2.2.2.2) hsame
  constructor
  · omega
  · rw [hfull]
    exact fun hs => ⟨hs, hge hs⟩
  · rw [hslower, hmultiplier, hrate]
    exact fun _ hs hm => ⟨hs, hm, le_rfl⟩

theorem grown_onCongestionEvent (I : Hooks ι) (fl : Flags) (i : ι) {n : ℕ} {s : Sender}
    (hmode : ModeInv s) (h : Bounded n s) (e : CongestionEvent) :
    Grown e.bytesAcked s (s.onCongestionEvent I fl i e).2 := by
  have hmodel := grown_updateModel I i hmode e
  have htotal : Grown 0 (s.updateModel I i e).2 (s.paced I i e) := by
    unfold paced
    generalize s.updateModel I i e = r
    have hcount : Grown 0 r.2
        { r.2 with totalBytesAcked := r.2.totalBytesAcked + e.bytesAcked } := grown_of_growth rfl
    exact hcount.trans (grown_calculatePacingRate _ _ e)
  have hmax : (s.paced I i e).congestionWindow ≤ (s.paced I i e).maxCongestionWindow := by
    rw [window_paced, max_paced, h.maximum]
    exact h.upper
  have hwindow :=
    grown_calculateCongestionWindow fl hmax (I.getTargetRate (s.updateModel I i e).1) e
  rw [onCongestionEvent_eq]
  have hrecovery : ∀ t : Sender, Grown 0 t (t.calculateRecoveryWindow fl e) :=
    fun t => grown_of_growth (Same.ite rfl (Same.ite rfl (Same.ite rfl rfl)))
  have hevent := ((hmodel.trans htotal).trans hwindow).trans (hrecovery _)
  rwa [Nat.zero_add, Nat.add_zero] at hevent

/-- The calls that do not set the window: all but the setting of the initial window and the
resumption of a connection. -/
def Action.KeepsWindow : Action → Prop
  | .setInitialCongestionWindowInPackets _ => False
  | .adjustNetworkParameters _ => False
  | _ => True

instance : ∀ a : Action, Decidable a.KeepsWindow
  | .congestionEvent _ => isTrue trivial
  | .packetSent _ _ _ => isTrue trivial
  | .applicationLimited _ _ => isTrue trivial
  | .setInitialCongestionWindowInPackets _ => isFalse id
  | .adjustNetworkParameters _ => isFalse id
  | .setFromConfig _ => isTrue trivial

theorem Action.KeepsWindow.wellFormed {a : Action} (h : a.KeepsWindow) (n : ℕ) :
    a.WellFormed n := by
  cases a with
  | setInitialCongestionWindowInPackets packets => exact absurd h id
  | _ => trivial

/-- The bytes an action acknowledges. -/
def Action.ackedBytes : Action → ℕ
  | .congestionEvent e => e.bytesAcked
  | _ => 0

/-- An event adds at most the bytes it acknowledges, or takes the window up to the minimum. -/
theorem grown_step (I : Hooks ι) (fl : Flags) {n : ℕ} {s : Sender} (hmode : ModeInv s)
    (h : Bounded n s) {x : ι × Action} (hx : x.2.KeepsWindow) :
    Grown x.2.ackedBytes s (s.step I fl x) := by
  obtain ⟨i, a⟩ := x
  cases a with
  | congestionEvent e => exact grown_onCongestionEvent I fl i hmode h e
  | packetSent bytesInFlight packetNumber isAppLimited => exact grown_of_growth rfl
  | applicationLimited bytesInFlight unackedBytes =>
    exact grown_of_growth (Same.ite rfl (Same.ite rfl rfl))
  | setInitialCongestionWindowInPackets packets => exact absurd hx id
  | adjustNetworkParameters p => exact absurd hx id
  | setFromConfig has => exact grown_setFromConfig fl h.segment has

theorem grown_run (I : Hooks ι) (fl : Flags) {n : ℕ} {s : Sender} (hmode : ModeInv s)
    (h : WindowInv n s) {xs : List (ι × Action)} (hxs : ∀ x ∈ xs, x.2.KeepsWindow) :
    Grown (xs.map fun x => x.2.ackedBytes).sum s (run (step I fl) s xs) := by
  induction xs generalizing s with
  | nil => exact grown_of_growth rfl
  | cons x xs ih =>
    have hx := hxs x (List.mem_cons_self ..)
    have hrest := ih (s := s.step I fl x) (hmode.step x).1 (h.step (hx.wellFormed n))
      fun y hy => hxs y (List.mem_cons_of_mem _ hy)
    exact (grown_step I fl hmode h.toBounded hx).trans hrest

/-- From any point of a connection on, and as long as nobody sets the window, it is by the bytes
that are acknowledged at most above what it was there, or above the minimum window. Until full
bandwidth is reached it does not shrink, and without the options that reduce it the pacing rate does
not go down, whatever is lost. -/
theorem window_growth (I : Hooks ι) (fl : Flags) (a : Arguments) (gainCycleLength : ℕ)
    (hinitial : 1 ≤ a.initialTcpCongestionWindow)
    (hle : a.initialTcpCongestionWindow ≤ a.maxTcpCongestionWindow)
    (hmax : kMaxInitialCongestionWindow ≤ a.maxTcpCongestionWindow)
    (before after : List (ι × Action))
    (hbefore : ∀ x ∈ before, x.2.WellFormed a.maxTcpCongestionWindow)
    (hafter : ∀ x ∈ after, x.2.KeepsWindow) :
    let s := run (step I fl) (new a gainCycleLength) before
    let t := run (step I fl) (new a gainCycleLength) (before ++ after)
    t.congestionWindow ≤ max s.congestionWindow s.minCongestionWindow +
        (after.map fun x => x.2.ackedBytes).sum ∧
      (¬t.isAtFullBandwidth → s.congestionWindow ≤ t.congestionWindow ∧
        (t.slowerStartup = false → t.startupRateReductionMultiplier = 0 →
          s.pacingRate ≤ t.pacingRate)) := by
  intro s t
  have hmode : ModeInv s := modeInv_run I fl (modeInv_new a gainCycleLength) before
  have hinv : WindowInv a.maxTcpCongestionWindow s :=
    windowInv_run (windowInv_new hinitial hle hmax gainCycleLength) hbefore
  have ht : t = run (step I fl) s after := run_append ..
  have hgrown : Grown _ s t := ht.symm ▸ grown_run I fl hmode hinv hafter
  refine ⟨(le_max_left _ _).trans hgrown.window, fun hfull => ⟨(hgrown.startup hfull).2, ?_⟩⟩
  exact fun hslower hmultiplier => (hgrown.rate hfull hslower hmultiplier).2.2

theorem window_growth_firstRounds :
    let s := run (step BbrAdapter.hooks .default) (new .default 8) firstRounds
    let t := run (step BbrAdapter.hooks .default) (new .default 8)
      (firstRounds ++ firstRounds)
    t.congestionWindow ≤ max s.congestionWindow s.minCongestionWindow +
      (firstRounds.map fun x => x.2.ackedBytes).sum :=
  (window_growth BbrAdapter.hooks .default .default 8 (by decide) (by decide)
    (by decide) firstRounds firstRounds (by decide) (by decide)).1

end Sender
end Bbr
end Cc
end LiveStream
