import LiveStream.Cc.MinervaWindows

/-!
# Minerva's recovery, and its senders together

* `cut_once`, after a cut the losses of packets that had been sent by then change nothing, up to the
  next timeout or migration;
* `recovery_conserves`, during recovery not more is sent than the rate reduction grants, if the
  sender asks before it sends;
* `dangling_read_iff`, with several connections the interface reads the statistics of a closed one
  exactly if another one is active while the one that was made last is closed.
-/

namespace LiveStream
namespace Cc

open Lib

namespace MinervaSender

variable {s t : MinervaSender}

/-! ## What calls leave alone -/

/-- The packet numbers, with what recovery does with them. -/
def numbers (s : MinervaSender) : Option ℕ × Option ℕ × Option ℕ × PrrSender × Bool :=
  (s.largestSentPacketNumber, s.largestSentAtLastCutback, s.largestAckedPacketNumber, s.prr,
    s.slowStartLargeReduction)

theorem numbers_maybeIncreaseCwnd (s : MinervaSender) (ackedBytes minRtt eventTime : ℕ) :
    Same numbers s (s.maybeIncreaseCwnd ackedBytes minRtt eventTime) := by
  -- unfolded first, for otherwise the windows would be compared
  unfold Same numbers
  obtain heq | ⟨-, -, heq⟩ | ⟨-, -, heq⟩ := s.maybeIncreaseCwnd_cases ackedBytes minRtt eventTime
  · rw [heq]
  · rw [heq]
  · rw [heq]

theorem numbers_maybeExitSlowstart (s : MinervaSender) (e : CongestionEvent) :
    Same numbers s (s.maybeExitSlowstart e) := Same.ite (Same.ite rfl rfl) rfl

/-- A loss from before the last cut changes nothing. -/
theorem onPacketLost_ignored (hlarge : s.slowStartLargeReduction = false) {packet : LostPacket}
    (hcut : s.precedesCutback packet.packetNumber = true) (priorInFlight : ℕ) :
    s.onPacketLost priorInFlight packet = s := by
  unfold MinervaSender.onPacketLost
  rw [TcpMinervaSenderBytes.onPacketLost_of_precedes packet.bytesLost hlarge hcut, if_pos hcut]

/-- Any other cuts the window, and starts the rate reduction anew. -/
theorem onPacketLost_cut (hlarge : s.slowStartLargeReduction = false) {packet : LostPacket}
    (hcut : ¬s.precedesCutback packet.packetNumber = true) (priorInFlight : ℕ) :
    let t := s.onPacketLost priorInFlight packet
    t.numbers = (s.largestSentPacketNumber, s.largestSentPacketNumber, s.largestAckedPacketNumber,
        .onPacketLost priorInFlight, false) ∧
      t.congestionWindow = t.slowstartThreshold := by
  unfold MinervaSender.onPacketLost
  rw [TcpMinervaSenderBytes.onPacketLost_eq packet.bytesLost hlarge hcut, if_neg hcut]
  exact ⟨congrArg (fun b => (_, _, _, _, b)) hlarge, rfl⟩

/-! ## One cut for the packets in flight -/

/-- Since packet `n` was sent there was a cut. -/
structure CutSince (n : ℕ) (s : MinervaSender) : Prop where
  noLargeReduction : s.slowStartLargeReduction = false
  sent : ∃ largest, s.largestSentPacketNumber = some largest ∧ n ≤ largest
  cut : ∃ largest, s.largestSentAtLastCutback = some largest ∧ n ≤ largest

variable {n : ℕ}

theorem CutSince.of_eq (h : CutSince n s)
    (hlarge : t.slowStartLargeReduction = s.slowStartLargeReduction)
    (hsent : t.largestSentPacketNumber = s.largestSentPacketNumber)
    (hcut : t.largestSentAtLastCutback = s.largestSentAtLastCutback) : CutSince n t :=
  ⟨hlarge.trans h.noLargeReduction, hsent ▸ h.sent, hcut ▸ h.cut⟩

theorem CutSince.of_numbers (h : CutSince n s) (hst : Same numbers s t) : CutSince n t :=
  h.of_eq (congrArg (fun p => p.2.2.2.2) hst) (congrArg Prod.fst hst)
    (congrArg (fun p => p.2.1) hst)

/-- The losses of the packets up to there are ignored. -/
theorem CutSince.ignores (h : CutSince n s) {packet : LostPacket} (hle : packet.packetNumber ≤ n)
    (priorInFlight : ℕ) : s.onPacketLost priorInFlight packet = s := by
  obtain ⟨largest, hlargest, hn⟩ := h.cut
  refine onPacketLost_ignored h.noLargeReduction ?_ priorInFlight
  unfold TcpMinervaSenderBytes.precedesCutback
  rw [hlargest, Option.any_some]
  exact decide_eq_true (hle.trans hn)

theorem CutSince.onPacketLost (h : CutSince n s) (priorInFlight : ℕ) (packet : LostPacket) :
    CutSince n (s.onPacketLost priorInFlight packet) := by
  by_cases hcut : s.precedesCutback packet.packetNumber = true
  · rw [onPacketLost_ignored h.noLargeReduction hcut]
    exact h
  · obtain ⟨hnumbers, -⟩ := onPacketLost_cut h.noLargeReduction hcut priorInFlight
    have hsent : (s.onPacketLost priorInFlight packet).largestSentPacketNumber
        = s.largestSentPacketNumber := congrArg Prod.fst hnumbers
    have hlast : (s.onPacketLost priorInFlight packet).largestSentAtLastCutback
        = s.largestSentPacketNumber := congrArg (fun p => p.2.1) hnumbers
    exact ⟨congrArg (fun p => p.2.2.2.2) hnumbers, hsent.symm ▸ h.sent, hlast.symm ▸ h.sent⟩

theorem CutSince.onPacketAcked (h : CutSince n s) (minRtt eventTime : ℕ) (packet : AckedPacket) :
    CutSince n (s.onPacketAcked minRtt eventTime packet) := by
  obtain ⟨-, heq⟩ | ⟨-, hybrid, heq⟩ := onPacketAcked_cases s minRtt eventTime packet
  · rw [heq]
    exact h.of_eq rfl rfl rfl
  · have hlargest : CutSince n (s.updateLargestAcked packet.packetNumber) := h.of_eq rfl rfl rfl
    rw [heq]
    exact (hlargest.of_numbers (numbers_maybeIncreaseCwnd _ _ _ _)).of_eq rfl rfl rfl

/-- An event keeps what its parts keep. -/
theorem onCongestionEvent_keeps {P : MinervaSender → Prop} (e : CongestionEvent)
    (hexit : ∀ t, P t → P (t.maybeExitSlowstart e))
    (hlost : ∀ t, P t → ∀ packet, P (t.onPacketLost e.priorInFlight packet))
    (hacked : ∀ t, P t → ∀ packet, P (t.onPacketAcked e.minRtt e.eventTime packet)) (h : P s) :
    P (s.onCongestionEvent e) := by
  have hrun : P (run (fun s packet => s.onPacketLost e.priorInFlight packet)
      (s.maybeExitSlowstart e) e.lostPackets) :=
    run_invariant (hexit s h) fun t ht packet _ => hlost t ht packet
  exact run_invariant (P := P) hrun fun t ht packet _ => hacked t ht packet

/-- Packets are sent in the order of their numbers, as the source asserts, and no timeout and no
migration forgets the last cut. -/
def Action.Orderly (s : MinervaSender) : Action → Prop
  | .packetSent _ packetNumber _ isRetransmittable =>
    isRetransmittable = true → s.largestSentPacketNumber.all (· < packetNumber) = true
  | .retransmissionTimeout _ | .connectionMigration => False
  | _ => True

instance (s : MinervaSender) : (a : Action) → Decidable (a.Orderly s)
  | .packetSent _ packetNumber _ isRetransmittable =>
    inferInstanceAs (Decidable (isRetransmittable = true →
      s.largestSentPacketNumber.all (· < packetNumber) = true))
  | .retransmissionTimeout _ | .connectionMigration => isFalse id
  | .congestionEvent _ | .canSend _ | .setInitialCongestionWindowInPackets _
  | .adjustNetworkParameters .. => isTrue trivial

/-- Events in order do not forget that there was a cut since packet `n` was sent. -/
theorem CutSince.step (h : CutSince n s) {x : Option ℚ × Action} (hx : x.2.Orderly s) :
    CutSince n (s.step x) := by
  obtain ⟨linkWeight, a⟩ := x
  have hs : CutSince n { s with linkWeight := linkWeight } := h.of_eq rfl rfl rfl
  cases a with
  | congestionEvent e =>
    exact onCongestionEvent_keeps e (fun t ht => ht.of_numbers (numbers_maybeExitSlowstart t e))
      (fun t ht packet => ht.onPacketLost e.priorInFlight packet)
      (fun t ht packet => ht.onPacketAcked e.minRtt e.eventTime packet) hs
  | packetSent bytesInFlight packetNumber bytes isRetransmittable =>
    cases isRetransmittable with
    | false => exact hs
    | true =>
      obtain ⟨largest, hlargest, hn⟩ := h.sent
      have hlt : s.largestSentPacketNumber.all (· < packetNumber) = true := hx rfl
      rw [hlargest, Option.all_some] at hlt
      have hle := (of_decide_eq_true hlt).le
      exact ⟨h.noLargeReduction, ⟨packetNumber, rfl, hn.trans hle⟩, h.cut⟩
  | canSend bytesInFlight => exact hs
  | retransmissionTimeout packetsRetransmitted => exact hx.elim
  | connectionMigration => exact hx.elim
  | setInitialCongestionWindowInPackets congestionWindow => exact hs.of_eq rfl rfl rfl
  | adjustNetworkParameters bandwidth rtt =>
    apply hs.of_numbers
    show Same numbers _ (MinervaSender.adjustNetworkParameters _ bandwidth rtt)
    unfold MinervaSender.adjustNetworkParameters
    exact Same.ite rfl rfl

/-! ### The large reduction is never on -/

theorem noLargeReduction_onPacketLost (h : s.slowStartLargeReduction = false) (priorInFlight : ℕ)
    (packet : LostPacket) :
    (s.onPacketLost priorInFlight packet).slowStartLargeReduction = false := by
  by_cases hcut : s.precedesCutback packet.packetNumber = true
  · rw [onPacketLost_ignored h hcut]
    exact h
  · obtain ⟨hnumbers, -⟩ := onPacketLost_cut h hcut priorInFlight
    exact congrArg (fun p => p.2.2.2.2) hnumbers

theorem largeReduction_onPacketAcked (s : MinervaSender) (minRtt eventTime : ℕ)
    (packet : AckedPacket) :
    (s.onPacketAcked minRtt eventTime packet).slowStartLargeReduction
      = s.slowStartLargeReduction := by
  obtain ⟨-, heq⟩ | ⟨-, hybrid, heq⟩ := onPacketAcked_cases s minRtt eventTime packet
  · rw [heq]
    rfl
  · have hnumbers := numbers_maybeIncreaseCwnd (s.updateLargestAcked packet.packetNumber)
      packet.bytesAcked minRtt eventTime
    rw [heq]
    exact congrArg (fun p => p.2.2.2.2) hnumbers

theorem noLargeReduction_step (h : s.slowStartLargeReduction = false) (x : Option ℚ × Action) :
    (s.step x).slowStartLargeReduction = false := by
  obtain ⟨linkWeight, a⟩ := x
  cases a with
  | congestionEvent e =>
    refine onCongestionEvent_keeps (P := fun t => t.slowStartLargeReduction = false) e ?_ ?_ ?_ h
    · intro t ht
      exact (congrArg (fun p => p.2.2.2.2) (numbers_maybeExitSlowstart t e)).trans ht
    · intro t ht packet
      exact noLargeReduction_onPacketLost ht e.priorInFlight packet
    · intro t ht packet
      exact (largeReduction_onPacketAcked t e.minRtt e.eventTime packet).trans ht
  | packetSent bytesInFlight packetNumber bytes isRetransmittable =>
    cases isRetransmittable with
    | false => exact h
    | true => exact h
  | canSend bytesInFlight => exact h
  | retransmissionTimeout packetsRetransmitted =>
    cases packetsRetransmitted with
    | false => exact h
    | true => exact h
  | connectionMigration => exact h
  | setInitialCongestionWindowInPackets congestionWindow => exact h
  | adjustNetworkParameters bandwidth rtt =>
    show (MinervaSender.adjustNetworkParameters _ bandwidth rtt).slowStartLargeReduction = false
    unfold MinervaSender.adjustNetworkParameters
    split
    · exact h
    · exact h

theorem noLargeReduction_run (name : ℕ) (a : Arguments) (xs : List (Option ℚ × Action)) :
    (run step (new name a) xs).slowStartLargeReduction = false :=
  run_invariant (P := fun s : MinervaSender => s.slowStartLargeReduction = false) rfl
    fun _ hs x _ => noLargeReduction_step hs x

/-! ### Losses of one event -/

/-- Among the lost packets one that is not ignored makes a cut, whatever is lost before it. -/
theorem cutSince_lost (hlarge : s.slowStartLargeReduction = false)
    (hsent : s.largestSentPacketNumber = some n) {packets : List LostPacket} {packet : LostPacket}
    (hmem : packet ∈ packets) (hcut : ¬s.precedesCutback packet.packetNumber = true)
    (priorInFlight : ℕ) :
    CutSince n (run (fun s packet => s.onPacketLost priorInFlight packet) s packets) := by
  induction packets with
  | nil => exact absurd hmem List.not_mem_nil
  | cons first packets ih =>
    rw [run_cons]
    by_cases hfirst : s.precedesCutback first.packetNumber = true
    · -- the first is ignored, so the one that cuts is among the others
      rw [onPacketLost_ignored hlarge hfirst]
      apply ih
      obtain rfl | hrest := List.mem_cons.mp hmem
      · exact absurd hfirst hcut
      · exact hrest
    · obtain ⟨hnumbers, -⟩ := onPacketLost_cut hlarge hfirst priorInFlight
      have hsent' : (s.onPacketLost priorInFlight first).largestSentPacketNumber = some n :=
        (congrArg Prod.fst hnumbers).trans hsent
      have hlast' : (s.onPacketLost priorInFlight first).largestSentAtLastCutback = some n :=
        (congrArg (fun p => p.2.1) hnumbers).trans hsent
      have hstart : CutSince n (s.onPacketLost priorInFlight first) :=
        ⟨congrArg (fun p => p.2.2.2.2) hnumbers, ⟨n, hsent', le_rfl⟩, ⟨n, hlast', le_rfl⟩⟩
      exact run_invariant hstart fun t ht packet _ => ht.onPacketLost priorInFlight packet

/-- The event of a cut. -/
theorem cutSince_event (hlarge : s.slowStartLargeReduction = false)
    (hsent : s.largestSentPacketNumber = some n) {e : CongestionEvent}
    (hlost : ∃ packet ∈ e.lostPackets, s.precedesCutback packet.packetNumber = false) :
    CutSince n (s.onCongestionEvent e) := by
  obtain ⟨packet, hmem, hcut⟩ := hlost
  have hnumbers := numbers_maybeExitSlowstart s e
  have hlarge' : (s.maybeExitSlowstart e).slowStartLargeReduction = false :=
    (congrArg (fun p => p.2.2.2.2) hnumbers).trans hlarge
  have hsent' : (s.maybeExitSlowstart e).largestSentPacketNumber = some n :=
    (congrArg Prod.fst hnumbers).trans hsent
  have hlast : (s.maybeExitSlowstart e).largestSentAtLastCutback = s.largestSentAtLastCutback :=
    congrArg (fun p => p.2.1) hnumbers
  have hcut' : ¬(s.maybeExitSlowstart e).precedesCutback packet.packetNumber = true := by
    unfold TcpMinervaSenderBytes.precedesCutback at hcut ⊢
    rw [hlast, hcut]
    exact Bool.false_ne_true
  have hrun := cutSince_lost hlarge' hsent' hmem hcut' e.priorInFlight
  exact run_invariant (P := CutSince n) hrun fun t ht packet _ =>
    ht.onPacketAcked e.minRtt e.eventTime packet

/-- From an event the losses of packets that were sent before the cut can be left out. -/
theorem CutSince.onCongestionEvent_eq (h : CutSince n s) (e : CongestionEvent) :
    s.onCongestionEvent e = s.onCongestionEvent
      { e with lostPackets := e.lostPackets.filter fun packet => n < packet.packetNumber } := by
  have hexit := h.of_numbers (numbers_maybeExitSlowstart s e)
  have hrun : run (fun s packet => s.onPacketLost e.priorInFlight packet) (s.maybeExitSlowstart e)
      e.lostPackets = run (fun s packet => s.onPacketLost e.priorInFlight packet)
        (s.maybeExitSlowstart e) (e.lostPackets.filter fun packet => n < packet.packetNumber) :=
    run_filter hexit (fun t ht packet => ht.onPacketLost e.priorInFlight packet)
      (fun t ht packet hold => ht.ignores (not_lt.mp (of_decide_eq_false hold)) e.priorInFlight) _
  exact congrArg (fun t => run (fun s packet => s.onPacketAcked e.minRtt e.eventTime packet) t
    e.ackedPackets) hrun

/-- After an event that cuts the window, with `n` the last packet sent by then, up to the next
timeout or migration: losses of packets up to `n` change nothing, an event that reports some does
what it would do with its other losses only. -/
theorem cut_once (name : ℕ) (a : Arguments) (pre post : List (Option ℚ × Action))
    (linkWeight : Option ℚ) {e : CongestionEvent} {n : ℕ}
    (hsent : (run step (new name a) pre).largestSentPacketNumber = some n)
    (hlost : ∃ packet ∈ e.lostPackets,
      (run step (new name a) pre).precedesCutback packet.packetNumber = false)
    (hpost : EveryStep step (fun s x => x.2.Orderly s)
      ((run step (new name a) pre).step (linkWeight, .congestionEvent e)) post)
    (laterWeight : Option ℚ) (late : CongestionEvent) :
    let s := run step (new name a) (pre ++ (linkWeight, .congestionEvent e) :: post)
    s.step (laterWeight, .congestionEvent late)
      = s.step (laterWeight, .congestionEvent { late with
          lostPackets := late.lostPackets.filter fun packet => n < packet.packetNumber }) := by
  intro s
  have hcut : CutSince n ((run step (new name a) pre).step (linkWeight, .congestionEvent e)) :=
    cutSince_event (s := { run step (new name a) pre with linkWeight := linkWeight })
      (noLargeReduction_run name a pre) hsent hlost
  have hs : CutSince n s := by
    show CutSince n (run step (new name a) (pre ++ (linkWeight, .congestionEvent e) :: post))
    rw [run_append, run_cons]
    exact hpost.invariant hcut fun _ _ ht hx => ht.step hx
  have hweight : CutSince n { s with linkWeight := laterWeight } := hs.of_eq rfl rfl rfl
  exact hweight.onCongestionEvent_eq late

/-- The fourth packet was sent after the cut, so that its loss alone is a new one. -/
theorem cut_once_oneLoss :
    let s := run step (new 0 ⟨32, 2000⟩) (oneLoss.take 5)
    s.congestionWindow = 39712 ∧
      s.step (none, event 250 [] [⟨1, 1460⟩, ⟨4, 1460⟩, ⟨3, 1460⟩])
        = s.step (none, event 250 [] [⟨4, 1460⟩]) ∧
      (s.step (none, event 250 [] [⟨4, 1460⟩])).congestionWindow = 33755 :=
  ⟨by decide +kernel,
    cut_once 0 ⟨32, 2000⟩ (oneLoss.take 3) [(some 2, .packetSent 0 4 1460 true)] none (n := 3)
      (by decide +kernel) ⟨⟨2, 1460⟩, by simp, by decide +kernel⟩ (by decide +kernel) none _,
    by decide +kernel⟩

/-! ## The rate reduction -/

end MinervaSender

namespace PrrSender

variable {p : PrrSender} {congestionWindow bytesInFlight slowstartThreshold : ℕ}

/-- What was sent since the loss is what the reduction grants, up to one packet: what was delivered
and a packet for each acknowledgement, or the share of it that the threshold has of what was in
flight. -/
def Conserves (p : PrrSender) (slowstartThreshold : ℕ) : Prop :=
  p.bytesSentSinceLoss ≤ p.bytesDeliveredSinceLoss + (p.ackCountSinceLoss + 1) * 1460 ∨
    p.bytesSentSinceLoss * p.bytesInFlightBeforeLoss
      ≤ p.bytesDeliveredSinceLoss * slowstartThreshold + 1460 * p.bytesInFlightBeforeLoss

theorem conserves_onPacketLost (priorInFlight slowstartThreshold : ℕ) :
    (onPacketLost priorInFlight).Conserves slowstartThreshold := Or.inl (Nat.zero_le _)

theorem Conserves.onPacketAcked (h : p.Conserves slowstartThreshold) (ackedBytes : ℕ) :
    (p.onPacketAcked ackedBytes).Conserves slowstartThreshold := by
  obtain h | h := h
  · left
    show p.bytesSentSinceLoss
      ≤ p.bytesDeliveredSinceLoss + ackedBytes + (p.ackCountSinceLoss + 1 + 1) * 1460
    omega
  · right
    show _ ≤ (p.bytesDeliveredSinceLoss + ackedBytes) * slowstartThreshold + _
    have hmul := Nat.mul_le_mul_right slowstartThreshold
      (Nat.le_add_right p.bytesDeliveredSinceLoss ackedBytes)
    exact h.trans (Nat.add_le_add_right hmul _)

/-- A packet that may be sent, while there is one in flight. -/
theorem conserves_onPacketSent
    (h : p.canSend congestionWindow bytesInFlight slowstartThreshold = true) {bytes : ℕ}
    (hbytes : bytes ≤ 1460) (hflight : 1460 ≤ bytesInFlight) :
    (p.onPacketSent bytes).Conserves slowstartThreshold := by
  unfold canSend at h
  split at h
  · next hfree =>
    left
    show p.bytesSentSinceLoss + bytes ≤ _ + (p.ackCountSinceLoss + 1) * 1460
    omega
  · split at h
    · have hlt := of_decide_eq_true h
      left
      show p.bytesSentSinceLoss + bytes
        ≤ p.bytesDeliveredSinceLoss + (p.ackCountSinceLoss + 1) * 1460
      omega
    · have hlt := of_decide_eq_true h
      right
      show (p.bytesSentSinceLoss + bytes) * p.bytesInFlightBeforeLoss ≤ _
      have hmul := Nat.mul_le_mul_right p.bytesInFlightBeforeLoss hbytes
      rw [Nat.add_mul]
      exact Nat.add_le_add hlt.le hmul

end PrrSender

namespace MinervaSender

/-- No packet sent after the last cut has been acknowledged. -/
def Recovering (s : MinervaSender) : Prop :=
  ∃ cutback, s.largestSentAtLastCutback = some cutback ∧
    ∀ acked ∈ s.largestAckedPacketNumber, acked ≤ cutback

theorem Recovering.of_numbers (h : Recovering t) (hst : Same numbers s t) : Recovering s := by
  have hlast : t.largestSentAtLastCutback = s.largestSentAtLastCutback :=
    congrArg (fun p => p.2.1) hst
  have hacked : t.largestAckedPacketNumber = s.largestAckedPacketNumber :=
    congrArg (fun p => p.2.2.1) hst
  unfold Recovering at h ⊢
  rw [← hlast, ← hacked]
  exact h

theorem recovering_of_inRecovery (h : s.inRecovery = true) : Recovering s := by
  unfold inRecovery at h
  obtain ⟨acked, hacked, h⟩ := (Option.any_eq_true ..).mp h
  obtain ⟨cutback, hcutback, h⟩ := (Option.any_eq_true ..).mp h
  refine ⟨cutback, hcutback, fun other hother => ?_⟩
  rw [hacked] at hother
  exact Option.some.inj hother ▸ of_decide_eq_true h

/-- With an acknowledgement there is no difference. -/
theorem Recovering.inRecovery (h : Recovering s) {acked : ℕ}
    (hacked : s.largestAckedPacketNumber = some acked) : s.inRecovery = true := by
  obtain ⟨cutback, hcutback, hle⟩ := h
  unfold MinervaSender.inRecovery
  rw [hacked, hcutback]
  exact decide_eq_true (hle acked hacked)

/-- Acknowledgements do not start a recovery. -/
theorem Recovering.of_updateLargestAcked (packetNumber : ℕ)
    (h : Recovering (s.updateLargestAcked packetNumber)) : Recovering s := by
  obtain ⟨cutback, hcutback, hle⟩ := h
  refine ⟨cutback, hcutback, fun acked hacked => ?_⟩
  have hmax : acked ≤ max packetNumber acked := le_max_right _ _
  apply hmax.trans
  apply hle
  show some (s.largestAckedPacketNumber.elim packetNumber (max packetNumber)) = _
  rw [Option.mem_def.mp hacked]
  rfl

/-- During recovery the window stays where the cut has put it, and the reduction is kept. -/
structure Reducing (s : MinervaSender) : Prop where
  noLargeReduction : s.slowStartLargeReduction = false
  window : Recovering s → s.congestionWindow = s.slowstartThreshold
  conserves : Recovering s → s.prr.Conserves s.slowstartThreshold.toNat

/-- Outside of recovery there is nothing to say. -/
theorem reducing_of_not (hlarge : s.slowStartLargeReduction = false) (h : ¬Recovering s) :
    Reducing s :=
  ⟨hlarge, fun hs => absurd hs h, fun hs => absurd hs h⟩

theorem Reducing.maybeExitSlowstart (h : Reducing s) (e : CongestionEvent) :
    Reducing (s.maybeExitSlowstart e) := by
  have hnumbers := numbers_maybeExitSlowstart s e
  by_cases hs : Recovering s
  · -- the window is at the threshold, so this is not slow start
    have hslow : s.inSlowStart = false := by
      apply decide_eq_false
      rw [h.window hs]
      exact UInt64.lt_irrefl _
    have hsame : s.maybeExitSlowstart e = s := by
      unfold MinervaSender.maybeExitSlowstart
      rw [hslow, Bool.and_false]
      rfl
    rw [hsame]
    exact h
  · refine reducing_of_not ?_ fun ht => hs (ht.of_numbers hnumbers)
    exact (congrArg (fun p => p.2.2.2.2) hnumbers).trans h.noLargeReduction

theorem Reducing.onPacketLost (h : Reducing s) (priorInFlight : ℕ) (packet : LostPacket) :
    Reducing (s.onPacketLost priorInFlight packet) := by
  by_cases hcut : s.precedesCutback packet.packetNumber = true
  · rw [onPacketLost_ignored h.noLargeReduction hcut]
    exact h
  · obtain ⟨hnumbers, hwindow⟩ := onPacketLost_cut h.noLargeReduction hcut priorInFlight
    have hprr : (s.onPacketLost priorInFlight packet).prr = .onPacketLost priorInFlight :=
      congrArg (fun p => p.2.2.2.1) hnumbers
    refine ⟨congrArg (fun p => p.2.2.2.2) hnumbers, fun _ => hwindow, fun _ => ?_⟩
    rw [hprr]
    exact PrrSender.conserves_onPacketLost _ _

theorem Reducing.onPacketAcked (h : Reducing s) (minRtt eventTime : ℕ) (packet : AckedPacket) :
    Reducing (s.onPacketAcked minRtt eventTime packet) := by
  obtain ⟨-, heq⟩ | ⟨hout, hybrid, heq⟩ := onPacketAcked_cases s minRtt eventTime packet
  · rw [heq]
    refine ⟨h.noLargeReduction, fun ht => ?_, fun ht => ?_⟩
    · exact h.window (Recovering.of_updateLargestAcked packet.packetNumber ht)
    · have hs : Recovering s :=
        Recovering.of_updateLargestAcked packet.packetNumber ht
      exact (h.conserves hs).onPacketAcked packet.bytesAcked
  · have hnumbers := numbers_maybeIncreaseCwnd (s.updateLargestAcked packet.packetNumber)
      packet.bytesAcked minRtt eventTime
    rw [heq]
    refine reducing_of_not ((congrArg (fun p => p.2.2.2.2) hnumbers).trans h.noLargeReduction) ?_
    intro ht
    have hlargest : Recovering (s.updateLargestAcked packet.packetNumber) :=
      Recovering.of_numbers (t := MinervaSender.maybeIncreaseCwnd _ _ minRtt eventTime) ht hnumbers
    exact absurd (hlargest.inRecovery rfl) (hout ▸ Bool.false_ne_true)

/-- During recovery a packet is sent only if the sender allows it, with 1460 bytes at most and while
as many are in flight. The window is set from outside only while no cut is remembered. -/
def Action.Asks (s : MinervaSender) : Action → Prop
  | .packetSent bytesInFlight _ bytes isRetransmittable =>
    s.inRecovery = true → isRetransmittable = true →
      s.canSend bytesInFlight = true ∧ bytes ≤ 1460 ∧ 1460 ≤ bytesInFlight
  | .setInitialCongestionWindowInPackets _ | .adjustNetworkParameters _ _ =>
    s.largestSentAtLastCutback = none
  | _ => True

instance (s : MinervaSender) : (a : Action) → Decidable (a.Asks s)
  | .packetSent bytesInFlight _ bytes isRetransmittable =>
    inferInstanceAs (Decidable (s.inRecovery = true → isRetransmittable = true →
      s.canSend bytesInFlight = true ∧ bytes ≤ 1460 ∧ 1460 ≤ bytesInFlight))
  | .setInitialCongestionWindowInPackets _ | .adjustNetworkParameters _ _ =>
    inferInstanceAs (Decidable (s.largestSentAtLastCutback = none))
  | .congestionEvent _ | .canSend _ | .retransmissionTimeout _ | .connectionMigration =>
    isTrue trivial

theorem Reducing.onPacketSent (h : Reducing s) {bytesInFlight bytes : ℕ} (packetNumber : ℕ)
    (hask : s.inRecovery = true →
      s.canSend bytesInFlight = true ∧ bytes ≤ 1460 ∧ 1460 ≤ bytesInFlight) :
    Reducing (s.onPacketSent packetNumber bytes true) := by
  refine ⟨h.noLargeReduction, h.window, fun hs => ?_⟩
  show PrrSender.Conserves (if s.inRecovery then s.prr.onPacketSent bytes else s.prr) _
  split
  · next hin =>
    obtain ⟨hcan, hbytes, hflight⟩ := hask hin
    unfold MinervaSender.canSend at hcan
    rw [if_pos hin] at hcan
    exact PrrSender.conserves_onPacketSent hcan hbytes hflight
  · exact h.conserves hs

theorem not_recovering (h : s.largestSentAtLastCutback = none) : ¬Recovering s := by
  intro hs
  obtain ⟨cutback, hcutback, -⟩ := hs
  exact Option.some_ne_none cutback (hcutback.symm.trans h)

/-- A sender that is asked before it sends keeps to the reduction until recovery is over. -/
theorem Reducing.step (h : Reducing s) {x : Option ℚ × Action} (hx : x.2.Asks s) :
    Reducing (s.step x) := by
  have hlarge := noLargeReduction_step h.noLargeReduction x
  obtain ⟨linkWeight, a⟩ := x
  have hs : Reducing { s with linkWeight := linkWeight } :=
    ⟨h.noLargeReduction, h.window, h.conserves⟩
  cases a with
  | congestionEvent e =>
    exact onCongestionEvent_keeps e (fun t ht => ht.maybeExitSlowstart e)
      (fun t ht packet => ht.onPacketLost e.priorInFlight packet)
      (fun t ht packet => ht.onPacketAcked e.minRtt e.eventTime packet) hs
  | packetSent bytesInFlight packetNumber bytes isRetransmittable =>
    cases isRetransmittable with
    | false => exact hs
    | true => exact hs.onPacketSent packetNumber fun hin => hx hin rfl
  | canSend bytesInFlight => exact hs
  | retransmissionTimeout packetsRetransmitted =>
    cases packetsRetransmitted with
    | false => exact reducing_of_not hlarge (not_recovering rfl)
    | true => exact reducing_of_not hlarge (not_recovering rfl)
  | connectionMigration => exact reducing_of_not hlarge (not_recovering rfl)
  | setInitialCongestionWindowInPackets congestionWindow =>
    exact reducing_of_not hlarge (not_recovering hx)
  | adjustNetworkParameters bandwidth rtt =>
    refine reducing_of_not hlarge (not_recovering ?_)
    show (MinervaSender.adjustNetworkParameters _ bandwidth rtt).largestSentAtLastCutback = none
    unfold MinervaSender.adjustNetworkParameters
    split
    · exact hx
    · exact hx

/-- In every run of a sender that is asked as `Asks` says before packets are sent, as long as it is
in recovery: the window stays at the threshold, and since the loss not more has been sent than the
reduction grants. -/
theorem recovery_conserves (name : ℕ) (a : Arguments) (xs : List (Option ℚ × Action))
    (hxs : EveryStep step (fun s x => x.2.Asks s) (new name a) xs)
    (hin : (run step (new name a) xs).inRecovery = true) :
    let s := run step (new name a) xs
    s.congestionWindow = s.slowstartThreshold ∧ s.prr.Conserves s.slowstartThreshold.toNat := by
  have hnew : Reducing (new name a) := reducing_of_not rfl (not_recovering rfl)
  have hs : Reducing (run step (new name a) xs) :=
    hxs.invariant hnew fun _ _ ht hx => ht.step hx
  have hrecovering := recovering_of_inRecovery hin
  exact ⟨hs.window hrecovering, hs.conserves hrecovering⟩

/-- Of four packets the second is lost. Before the last one is acknowledged, two more are sent. -/
def twoMore : List (Option ℚ × Action) :=
  [(none, .packetSent 0 1 1460 true), (none, .packetSent 1460 2 1460 true),
    (none, .packetSent 2920 3 1460 true), (none, .packetSent 4380 4 1460 true),
    (none, event 100 [⟨1, 1460⟩] [⟨2, 1460⟩]), (none, .packetSent 2920 5 1460 true),
    (none, event 120 [⟨3, 1460⟩] []), (none, .packetSent 2920 6 1460 true)]

theorem recovery_conserves_twoMore :
    let s := run step (new 0 ⟨32, 2000⟩) twoMore
    s.prr.bytesSentSinceLoss = 2920 ∧ s.prr.bytesDeliveredSinceLoss = 2920 ∧
      s.congestionWindow = s.slowstartThreshold ∧ s.prr.Conserves s.slowstartThreshold.toNat :=
  ⟨by decide +kernel, by decide +kernel,
    recovery_conserves 0 ⟨32, 2000⟩ twoMore (by decide +kernel) (by decide +kernel)⟩

/-! ## Connections that are closed -/

theorem name_onPacketAcked (s : MinervaSender) (minRtt eventTime : ℕ) (packet : AckedPacket) :
    (s.onPacketAcked minRtt eventTime packet).name = s.name := by
  have hgrown : ((s.updateLargestAcked packet.packetNumber).maybeIncreaseCwnd packet.bytesAcked
      minRtt eventTime).name = s.name :=
    Same.ite (g := fun t : MinervaSender => t.name) rfl (Same.ite rfl rfl)
  obtain ⟨-, heq⟩ | ⟨-, hybrid, heq⟩ := onPacketAcked_cases s minRtt eventTime packet
  · rw [heq]
    rfl
  · rw [heq]
    exact hgrown

theorem name_step (s : MinervaSender) (x : Option ℚ × Action) : (s.step x).name = s.name := by
  obtain ⟨linkWeight, a⟩ := x
  cases a with
  | congestionEvent e =>
    refine onCongestionEvent_keeps (P := fun t => t.name = s.name) e ?_ ?_ ?_ rfl
    · intro t ht
      have hexit : (t.maybeExitSlowstart e).name = t.name :=
        Same.ite (g := fun t : MinervaSender => t.name) (Same.ite rfl rfl) rfl
      exact hexit.trans ht
    · intro t ht packet
      exact ht
    · intro t ht packet
      exact (name_onPacketAcked t e.minRtt e.eventTime packet).trans ht
  | packetSent bytesInFlight packetNumber bytes isRetransmittable =>
    exact Same.ite (g := fun t : MinervaSender => t.name) rfl rfl
  | canSend bytesInFlight => rfl
  | retransmissionTimeout packetsRetransmitted =>
    cases packetsRetransmitted with
    | false => rfl
    | true => rfl
  | connectionMigration => rfl
  | setInitialCongestionWindowInPackets congestionWindow => rfl
  | adjustNetworkParameters bandwidth rtt =>
    exact Same.ite (g := fun t : MinervaSender => t.name) rfl rfl

end MinervaSender

namespace MinervaInterface

open MinervaSender (Action AckedPacket)

variable {i : MinervaInterface}

/-- The connection of the parent exists. -/
def ParentLives (i : MinervaInterface) : Prop :=
  ∀ parent ∈ i.parent, (i.rttStats parent).isSome = true

/-- Nothing else changes. -/
theorem updateMinRtt_eq (i : MinervaInterface) : ∃ minRtt danglingRead,
    i.updateMinRtt = { i with minRtt := minRtt, danglingRead := danglingRead } := by
  unfold updateMinRtt
  split
  · exact ⟨_, _, rfl⟩
  · split
    · exact ⟨_, _, rfl⟩
    · split
      · exact ⟨_, _, rfl⟩
      · exact ⟨_, _, rfl⟩

theorem rttStats_updateMinRtt (i : MinervaInterface) : i.updateMinRtt.rttStats = i.rttStats := by
  obtain ⟨minRtt, danglingRead, heq⟩ := i.updateMinRtt_eq
  rw [heq]

theorem parentLives_updateMinRtt : i.updateMinRtt.ParentLives ↔ i.ParentLives := by
  obtain ⟨minRtt, danglingRead, heq⟩ := i.updateMinRtt_eq
  rw [heq]
  rfl

/-- Only a parent that is gone makes a read dangle. -/
theorem danglingRead_updateMinRtt :
    i.updateMinRtt.danglingRead = false ↔ i.danglingRead = false ∧ i.ParentLives := by
  unfold updateMinRtt ParentLives
  cases hparent : i.parent with
  | none => simp
  | some parent =>
    cases hstats : i.rttStats parent with
    | none => simp [hstats]
    | some micros =>
      simp only [Option.mem_some_iff, forall_eq', hstats, Option.isSome_some, and_true]
      split
      · rfl
      · rfl

/-- The acknowledgements of an event, and the update at its end. -/
theorem danglingRead_acked (packets : List AckedPacket) :
    (packets.foldl onPacketAcked i).updateMinRtt.danglingRead = false ↔
      i.danglingRead = false ∧ i.ParentLives := by
  induction packets generalizing i with
  | nil => exact danglingRead_updateMinRtt
  | cons packet packets ih =>
    have hone : (i.onPacketAcked packet).danglingRead = false ↔
        i.danglingRead = false ∧ i.ParentLives :=
      danglingRead_updateMinRtt (i := i.addAckedBytes packet.bytesAcked)
    have hlives : (i.onPacketAcked packet).ParentLives ↔ i.ParentLives :=
      parentLives_updateMinRtt (i := i.addAckedBytes packet.bytesAcked)
    rw [List.foldl_cons, ih, hone, hlives, and_assoc, and_self]

/-- The calls that read the round trip time of the parent. -/
def readsParent : Action → Bool
  | .congestionEvent _ | .packetSent .. | .canSend _ => true
  | _ => false

/-- What a call of a sender whose connection exists reads. -/
theorem danglingRead_afterCall {name : ℕ} (hname : (i.rttStats name).isSome = true) (a : Action) :
    (i.afterCall name a).danglingRead = false ↔
      i.danglingRead = false ∧ (readsParent a = true → i.ParentLives) := by
  have hreads : ∀ {a : Action}, readsParent a = true →
      (i.danglingRead = false ∧ i.ParentLives ↔
        i.danglingRead = false ∧ (readsParent a = true → i.ParentLives)) :=
    fun h => and_congr_right fun _ => ⟨fun hlives _ => hlives, fun hlives => hlives h⟩
  cases a with
  | congestionEvent e =>
    have hlives : (i.noteRtt name e.minRtt).ParentLives ↔ i.ParentLives := by
      refine forall₂_congr fun parent _ => ?_
      show (Function.update i.rttStats name (some e.minRtt) parent).isSome = true ↔ _
      by_cases heq : parent = name
      · rw [heq, Function.update_self, hname]
        rfl
      · rw [Function.update_of_ne heq]
    have hacked := danglingRead_acked (i := i.noteRtt name e.minRtt) e.ackedPackets
    rw [hlives] at hacked
    exact hacked.trans (hreads rfl)
  | packetSent bytesInFlight packetNumber bytes isRetransmittable =>
    exact danglingRead_updateMinRtt.trans (hreads rfl)
  | canSend bytesInFlight =>
    exact danglingRead_updateMinRtt.trans (hreads rfl)
  | retransmissionTimeout packetsRetransmitted => simp [afterCall, readsParent]
  | connectionMigration => simp [afterCall, readsParent]
  | setInitialCongestionWindowInPackets congestionWindow => simp [afterCall, readsParent]
  | adjustNetworkParameters bandwidth rtt => simp [afterCall, readsParent]

/-! ### All connections -/

/-- Senders go by their names, and the connections that have `RttStats` are those that exist. -/
structure Named (g : Group MinervaInterface MinervaSender) : Prop where
  name : ∀ name s, g.members name = some s → s.name = name
  rttStats : ∀ name, (g.shared.rttStats name).isSome = (g.members name).isSome

variable {g : Group MinervaInterface MinervaSender}

theorem rttStats_acked (packets : List AckedPacket) :
    (packets.foldl onPacketAcked i).rttStats = i.rttStats := by
  induction packets generalizing i with
  | nil => rfl
  | cons packet packets ih =>
    rw [List.foldl_cons, ih]
    exact rttStats_updateMinRtt (i.addAckedBytes packet.bytesAcked)

theorem isSome_update {members : ℕ → Option MinervaSender} {rttStats : ℕ → Option ℕ}
    (h : ∀ name, (rttStats name).isSome = (members name).isSome) {s : Option MinervaSender}
    {micros : Option ℕ} (hs : micros.isSome = s.isSome) (name other : ℕ) :
    (Function.update rttStats name micros other).isSome
      = (Function.update members name s other).isSome := by
  by_cases heq : other = name
  · rw [heq, Function.update_self, Function.update_self]
    exact hs
  · rw [Function.update_of_ne heq, Function.update_of_ne heq]
    exact h other

/-- A call keeps the set of connections. -/
theorem rttStats_afterCall (h : ∀ name, (i.rttStats name).isSome = (g.members name).isSome)
    (name : ℕ) (s : MinervaSender) (a : Action) (hmem : (g.members name).isSome = true)
    (other : ℕ) :
    ((i.afterCall name a).rttStats other).isSome
      = (Function.update g.members name (some s) other).isSome := by
  have hkept :
      (i.rttStats other).isSome = (Function.update g.members name (some s) other).isSome := by
    have hupdate := isSome_update h (s := some s) ((h name).trans hmem) name other
    rw [Function.update_eq_self] at hupdate
    exact hupdate
  cases a with
  | congestionEvent e =>
    have hstats : (i.afterCall name (.congestionEvent e)).rttStats
        = Function.update i.rttStats name (some e.minRtt) :=
      (rttStats_updateMinRtt _).trans (rttStats_acked e.ackedPackets)
    rw [hstats]
    exact isSome_update h rfl name other
  | packetSent bytesInFlight packetNumber bytes isRetransmittable =>
    exact (congrArg (fun r => (r other).isSome) (rttStats_updateMinRtt i)).trans hkept
  | canSend bytesInFlight =>
    exact (congrArg (fun r => (r other).isSome) (rttStats_updateMinRtt i)).trans hkept
  | retransmissionTimeout packetsRetransmitted => exact hkept
  | connectionMigration => exact hkept
  | setInitialCongestionWindowInPackets congestionWindow => exact hkept
  | adjustNetworkParameters bandwidth rtt => exact hkept

theorem name_update {members : ℕ → Option MinervaSender}
    (h : ∀ name s, members name = some s → s.name = name) {name : ℕ} {t : Option MinervaSender}
    (ht : ∀ s, t = some s → s.name = name) (other : ℕ) (s : MinervaSender)
    (hs : Function.update members name t other = some s) : s.name = other := by
  by_cases heq : other = name
  · rw [heq, Function.update_self] at hs
    rw [heq]
    exact ht s hs
  · rw [Function.update_of_ne heq] at hs
    exact h other s hs

/-- `RttStats` come and go with the connection, and no event renames a sender. -/
theorem Named.step (h : Named g) (e : Group.Event MinervaSender.Arguments Action Call) :
    Named (g.step methods e) := by
  cases e with
  | create name arg =>
    refine ⟨name_update h.name fun s hs => ?_, isSome_update h.rttStats rfl name⟩
    rw [← Option.some.inj hs]
    rfl
  | act name action =>
    cases hs : g.members name with
    | none =>
      have hstep : g.step methods (.act name action) = g := by simp only [Group.step, hs]
      rw [hstep]
      exact h
    | some s =>
      have hname := h.name name s hs
      have hmem : (g.members name).isSome = true := by
        rw [hs]
        rfl
      rw [Group.step_act methods hs]
      refine ⟨name_update h.name fun t ht => ?_, ?_⟩
      · rw [← Option.some.inj ht]
        exact (MinervaSender.name_step s _).trans hname
      · show ∀ other, ((g.shared.afterCall s.name action).rttStats other).isSome = _
        rw [hname]
        exact rttStats_afterCall h.rttStats name _ action hmem
  | destroy name =>
    refine ⟨name_update h.name fun s hs => ?_, isSome_update h.rttStats rfl name⟩
    exact absurd hs.symm (Option.some_ne_none s)
  | call c =>
    have hstats : (g.shared.call c).rttStats = g.shared.rttStats := by
      cases c with
      | resetAckedBytes => rfl
      | setLinkWeight weight => rfl
    refine ⟨h.name, fun name => ?_⟩
    show ((g.shared.call c).rttStats name).isSome = _
    rw [hstats]
    exact h.rttStats name

/-- A connection calls the interface only while the one that was made last exists. -/
def ParentExists (g : Group MinervaInterface MinervaSender) :
    Group.Event MinervaSender.Arguments Action Call → Prop
  | .act name action =>
    (g.members name).isSome = true → readsParent action = true →
      ∀ parent ∈ g.shared.parent, (g.members parent).isSome = true
  | _ => True

theorem danglingRead_step (h : Named g) (e : Group.Event MinervaSender.Arguments Action Call) :
    (g.step methods e).shared.danglingRead = false ↔
      g.shared.danglingRead = false ∧ ParentExists g e := by
  cases e with
  | create name arg => exact (and_iff_left trivial).symm
  | act name action =>
    cases hs : g.members name with
    | none =>
      have hstep : g.step methods (.act name action) = g := by simp only [Group.step, hs]
      have hnone : ParentExists g (.act name action) := by
        intro hmem
        rw [hs] at hmem
        exact absurd hmem Bool.false_ne_true
      rw [hstep]
      exact (and_iff_left hnone).symm
    | some s =>
      have hmem : (g.members name).isSome = true := by
        rw [hs]
        rfl
      have hname := h.name name s hs
      have hlives : g.shared.ParentLives ↔
          ∀ parent ∈ g.shared.parent, (g.members parent).isSome = true :=
        forall₂_congr fun parent _ => by rw [h.rttStats]
      have hcall := danglingRead_afterCall (i := g.shared) ((h.rttStats name).trans hmem) action
      rw [hlives] at hcall
      rw [Group.step_act methods hs]
      show (g.shared.afterCall s.name action).danglingRead = false ↔ _
      rw [hname, hcall]
      exact and_congr_right fun _ => ⟨fun h _ => h, fun h => h hmem⟩
  | destroy name => exact (and_iff_left trivial).symm
  | call c =>
    have hread : (g.shared.call c).danglingRead = g.shared.danglingRead := by
      cases c with
      | resetAckedBytes => rfl
      | setLinkWeight weight => rfl
    show (g.shared.call c).danglingRead = false ↔ _
    rw [hread]
    exact (and_iff_left trivial).symm

/-- Over every order of connections being made, active and closed, and of the calls of the ABR
algorithm: the interface never reads the `RttStats` of a closed connection exactly if no connection
is active while the one that was made last is closed. -/
theorem dangling_read_iff (es : List (Group.Event MinervaSender.Arguments Action Call)) :
    (run (Group.step methods) (.empty .init) es).shared.danglingRead = false ↔
      EveryStep (Group.step methods) ParentExists (.empty .init) es := by
  have hinit : Named (.empty .init) := ⟨fun _ _ hs => absurd hs.symm (Option.some_ne_none _),
    fun _ => rfl⟩
  have hall : EveryStep (Group.step methods) (fun _ _ => True) (.empty .init) es :=
    everyStep_of_forall fun _ _ _ => trivial
  have hrun := run_iff_everyStep (P := fun g => g.shared.danglingRead = false) hall hinit
    (fun _ e h _ => h.step e) fun _ e h _ => danglingRead_step h e
  exact hrun.trans (and_iff_right rfl)

/-- The second of two connections is closed, and the first goes on. -/
example : (run (Group.step methods) (.empty .init)
    [.create 0 ⟨32, 2000⟩, .create 1 ⟨32, 2000⟩, .destroy 1,
      .act 0 (.canSend 0)]).shared.danglingRead
      = true := rfl

end MinervaInterface

end Cc
end LiveStream
