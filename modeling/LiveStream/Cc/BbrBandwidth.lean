import LiveStream.Cc.BbrModes
import LiveStream.Lib.Records

/-!
# The bandwidth estimate of the BBR senders

The filter keeps three estimates and forgets all other samples. What it still knows is stated
against the history of everything that was measured: `Tracks` holds after every measurement
(`Tracks.offer`), and `bandwidth_estimate` is what it means for a connection. The estimate is a
measurement, no later one counts that is as large, and it is not older than the window.
-/

namespace LiveStream
namespace Cc

open Lib

namespace Bbr

/-- A bandwidth with the round trip in which it was measured. -/
structure Measurement where
  bandwidth : ℕ
  round : ℕ
  appLimited : Bool

/-- A sample that is not limited by the application always counts. -/
def Measurement.Counts (m : Measurement) : Prop := m.appLimited = false

def Measurement.estimate (m : Measurement) : BbrGap.Estimate := ⟨m.bandwidth, m.round⟩

end Bbr

namespace BbrGap
namespace MaxBandwidthFilter

open Bbr (Measurement)

/-- What the loop over the acknowledged packets does with a measurement. -/
def offer (f : MaxBandwidthFilter) (m : Measurement) : MaxBandwidthFilter :=
  if !m.appLimited || f.best.sample < m.bandwidth then f.update m.bandwidth m.round else f

/-- An estimate that is a record of the measurements. -/
def Kept (h : List Measurement) (e : Estimate) : Prop :=
  ∃ m, Record Measurement.Counts Measurement.bandwidth h m ∧ m.estimate = e

theorem kept_concat (h : List Measurement) (m : Measurement) : Kept (h ++ [m]) m.estimate :=
  ⟨m, record_concat _ _ h m, rfl⟩

theorem Kept.concat {h : List Measurement} {e : Estimate} (he : Kept h e) {m : Measurement}
    (hm : m.Counts → m.bandwidth < e.sample) : Kept (h ++ [m]) e := by
  obtain ⟨r, hr, rfl⟩ := he
  exact ⟨r, hr.concat hm, rfl⟩

/-- What the filter knows about the measurements so far. -/
structure Tracks (window : ℕ) (h : List Measurement) (f : MaxBandwidthFilter) : Prop where
  length : f.windowLength = window
  kept : (f.best.sample = 0 ∧ ∀ m ∈ h, m.appLimited = true ∧ m.bandwidth = 0) ∨
    (Kept h f.best ∧ Kept h f.second ∧ Kept h f.third)
  recent : ∀ m ∈ h, m.Counts → m.round ≤ f.best.time + window

/-! ## What an update can do -/

/-- The estimates after the sample has taken the place of those it is not smaller than. -/
def placed (f : MaxBandwidthFilter) (new : Estimate) : MaxBandwidthFilter :=
  if f.second.sample ≤ new.sample then { f with second := new, third := new }
  else if f.third.sample ≤ new.sample then { f with third := new }
  else f

/-- The estimates after those that are too old have been replaced. -/
def refreshed (f : MaxBandwidthFilter) (new : Estimate) : MaxBandwidthFilter :=
  if f.windowLength < new.time - f.best.time then
    if f.windowLength < new.time - f.second.time then
      { f with best := f.third, second := new, third := new }
    else { f with best := f.second, second := f.third, third := new }
  else if f.second.sample = f.best.sample ∧ f.windowLength / 4 < new.time - f.second.time then
    { f with second := new, third := new }
  else if f.third.sample = f.second.sample ∧ f.windowLength / 2 < new.time - f.third.time then
    { f with third := new }
  else f

theorem update_eq (f : MaxBandwidthFilter) (newSample newTime : ℕ) :
    f.update newSample newTime =
      if f.best.sample = 0 ∨ f.best.sample ≤ newSample ∨
          f.windowLength < newTime - f.third.time then
        f.reset ⟨newSample, newTime⟩
      else (f.placed ⟨newSample, newTime⟩).refreshed ⟨newSample, newTime⟩ := rfl

section Spec

variable {f : MaxBandwidthFilter} {new : Estimate} {K : Estimate → Prop}

/-- The estimates that stay are larger than the sample. -/
theorem placed_spec (hnew : K new) (hsecond : new.sample < f.second.sample → K f.second)
    (hthird : new.sample < f.third.sample → K f.third)
    (hrecent : new.time - f.third.time ≤ f.windowLength) :
    (f.placed new).windowLength = f.windowLength ∧ (f.placed new).best = f.best ∧
      K (f.placed new).second ∧ K (f.placed new).third ∧
      new.time - (f.placed new).third.time ≤ f.windowLength := by
  unfold placed
  split
  · exact ⟨rfl, rfl, hnew, hnew, by simp⟩
  · next hlt =>
    split
    · exact ⟨rfl, rfl, hsecond (not_le.mp hlt), hnew, by simp⟩
    · next hlt' => exact ⟨rfl, rfl, hsecond (not_le.mp hlt), hthird (not_le.mp hlt'), hrecent⟩

/-- After the refreshment the best estimate is not older than the window. -/
theorem refreshed_spec (hnew : K new) (hbest : K f.best) (hsecond : K f.second)
    (hthird : K f.third) (hrecent : new.time - f.third.time ≤ f.windowLength) :
    (f.refreshed new).windowLength = f.windowLength ∧
      (K (f.refreshed new).best ∧ K (f.refreshed new).second ∧ K (f.refreshed new).third) ∧
      new.time - (f.refreshed new).best.time ≤ f.windowLength := by
  unfold refreshed
  split
  · split
    · exact ⟨rfl, ⟨hthird, hnew, hnew⟩, hrecent⟩
    · next hold => exact ⟨rfl, ⟨hsecond, hthird, hnew⟩, not_lt.mp hold⟩
  · next hold =>
    have hinside := not_lt.mp hold
    split
    · exact ⟨rfl, ⟨hbest, hnew, hnew⟩, hinside⟩
    · split
      · exact ⟨rfl, ⟨hbest, hsecond, hnew⟩, hinside⟩
      · exact ⟨rfl, ⟨hbest, hsecond, hthird⟩, hinside⟩

end Spec

/-- Whatever holds of the sample, and of the estimates that are larger, holds of all estimates after
an update; and the best one is within the window. -/
theorem update_spec (f : MaxBandwidthFilter) {newSample newTime : ℕ} {K : Estimate → Prop}
    (hnew : K ⟨newSample, newTime⟩)
    (hold : f.best.sample ≠ 0 → ∀ e ∈ [f.best, f.second, f.third], newSample < e.sample → K e) :
    (f.update newSample newTime).windowLength = f.windowLength ∧
      (K (f.update newSample newTime).best ∧ K (f.update newSample newTime).second ∧
        K (f.update newSample newTime).third) ∧
      newTime - (f.update newSample newTime).best.time ≤ f.windowLength := by
  rw [update_eq]
  split
  · exact ⟨rfl, ⟨hnew, hnew, hnew⟩, by simp [reset]⟩
  · next hreset =>
    rw [not_or, not_or] at hreset
    obtain ⟨hne, hlt, hrecent⟩ := hreset
    have hlarger := hold hne
    obtain ⟨hlength, hbest, hsecond, hthird, hrecent'⟩ := placed_spec (f := f) hnew
      (hlarger _ (by simp)) (hlarger _ (by simp)) (not_lt.mp hrecent)
    rw [← hlength] at hrecent' ⊢
    have hbest' : K (f.placed ⟨newSample, newTime⟩).best :=
      hbest ▸ hlarger _ (by simp) (not_le.mp hlt)
    exact refreshed_spec hnew hbest' hsecond hthird hrecent'

/-! ## What the filter knows -/

theorem tracks_new (window : ℕ) : Tracks window [] (new window) where
  length := rfl
  kept := Or.inl ⟨rfl, fun _ hm => absurd hm List.not_mem_nil⟩
  recent _ hm := absurd hm List.not_mem_nil

/-- Offered a measurement that is not older than the others, the filter still keeps records only,
and a best one that is recent. -/
theorem Tracks.offer {window : ℕ} {h : List Measurement} {f : MaxBandwidthFilter}
    (hf : Tracks window h f) {m : Measurement} (hm : ∀ x ∈ h, x.round ≤ m.round) :
    Tracks window (h ++ [m]) (f.offer m) := by
  unfold MaxBandwidthFilter.offer
  split
  · have hold : f.best.sample ≠ 0 → ∀ e ∈ [f.best, f.second, f.third],
        m.bandwidth < e.sample → Kept (h ++ [m]) e := by
      intro hne e he hlt
      obtain ⟨hzero, -⟩ | ⟨hbest, hsecond, hthird⟩ := hf.kept
      · exact absurd hzero hne
      · have hkept : Kept h e := by
          simp only [List.mem_cons, List.not_mem_nil, or_false] at he
          rcases he with rfl | rfl | rfl
          · exact hbest
          · exact hsecond
          · exact hthird
        exact hkept.concat fun _ => hlt
    obtain ⟨hlength, hkept, hrecent⟩ := f.update_spec (kept_concat h m) hold
    refine ⟨hlength.trans hf.length, Or.inr hkept, ?_⟩
    rw [hf.length] at hrecent
    intro x hx _
    have hle : x.round ≤ m.round := by
      rcases List.mem_append.mp hx with hx | hx
      · exact hm x hx
      · exact (congrArg _ (List.mem_singleton.mp hx)).le
    omega
  · next hnot =>
    -- a sample limited by the application that is not above the estimate is ignored
    rw [Bool.or_eq_true, not_or, Bool.not_eq_true, Bool.not_eq_false', decide_eq_true_eq] at hnot
    obtain ⟨hlimited, hle⟩ := hnot
    have hcounts : ¬m.Counts := by
      unfold Measurement.Counts
      rw [hlimited]
      exact Bool.noConfusion
    refine ⟨hf.length, ?_, ?_⟩
    · obtain ⟨hzero, hall⟩ | ⟨hbest, hsecond, hthird⟩ := hf.kept
      · left
        refine ⟨hzero, ?_⟩
        rw [List.forall_mem_append]
        refine ⟨hall, fun x hx => ?_⟩
        rw [List.mem_singleton.mp hx]
        exact ⟨hlimited, by omega⟩
      · right
        exact ⟨hbest.concat fun h => absurd h hcounts, hsecond.concat fun h => absurd h hcounts,
          hthird.concat fun h => absurd h hcounts⟩
    · rw [List.forall_mem_append]
      refine ⟨hf.recent, fun x hx hx' => ?_⟩
      rw [List.mem_singleton.mp hx] at hx'
      exact absurd hx' hcounts

/-- **Run lemma**, for the measurements of one round trip. -/
theorem Tracks.run {window round : ℕ} {h ms : List Measurement} {f : MaxBandwidthFilter}
    (hf : Tracks window h f) (hh : ∀ x ∈ h, x.round ≤ round) (hms : ∀ m ∈ ms, m.round = round) :
    Tracks window (h ++ ms) (Lib.run MaxBandwidthFilter.offer f ms) := by
  induction ms generalizing h f with
  | nil =>
    rw [List.append_nil]
    exact hf
  | cons m ms ih =>
    have hm : m.round = round := hms m (List.mem_cons_self ..)
    rw [List.append_cons, run_cons]
    refine ih (hf.offer (hm.symm ▸ hh)) ?_ fun x hx => hms x (List.mem_cons_of_mem _ hx)
    rw [List.forall_mem_append]
    refine ⟨hh, fun x hx => ?_⟩
    rw [List.mem_singleton.mp hx]
    exact hm.le

end MaxBandwidthFilter
end BbrGap

/-! ## The senders -/

namespace Bbr
namespace Sender

open BbrGap (MaxBandwidthFilter)
open BbrGap.Sender (AckedPacket)

variable {ι : Type}

/-- The filter and its clock. -/
def fed (s : Sender) : MaxBandwidthFilter × ℕ := (s.maxBandwidth, s.roundTripCount)

/-- The measurements an acknowledgement hands to the sender, in the round trip `round`. -/
def measurementsOf (round : ℕ) (acked : List AckedPacket) : List Measurement :=
  (acked.filterMap fun packet => packet.sample).map fun b => ⟨b.bandwidth, round, b.isAppLimited⟩

/-- The round trip in which the acknowledgements of an event are counted. -/
def ackRound (s : Sender) (e : CongestionEvent) : ℕ :=
  match e.ackedPackets.getLast? with
  | none => s.roundTripCount
  | some last =>
    ((s.discardLostPackets e).updateRoundTripCounter last.packetNumber).1.roundTripCount

/-- The measurements a call brings. -/
def measurements (fl : Flags) (s : Sender) : Action → List Measurement
  | .congestionEvent e => measurementsOf (s.ackRound e) e.ackedPackets
  | .adjustNetworkParameters p =>
    if !fl.donotInjectBandwidth ∧ p.bandwidth ≠ 0 then [⟨p.bandwidth, s.roundTripCount, false⟩]
    else []
  | _ => []

theorem filter_foldl_acknowledge (acked : List AckedPacket) (r : Sender × WithTop ℕ) :
    (acked.foldl acknowledge r).1.maxBandwidth =
      run MaxBandwidthFilter.offer r.1.maxBandwidth (measurementsOf r.1.roundTripCount acked) := by
  induction acked generalizing r with
  | nil => rfl
  | cons packet acked ih =>
    have hround : (acknowledge r packet).1.roundTripCount = r.1.roundTripCount :=
      congrArg (fun p => p.2.2) (unsampled_acknowledge r packet)
    rw [List.foldl_cons, ih, hround]
    unfold measurementsOf
    rw [List.filterMap_cons]
    unfold acknowledge
    cases packet.sample with
    | none => rfl
    | some b =>
      rw [List.map_cons, run_cons]
      congr 1
      unfold MaxBandwidthFilter.offer bandwidthEstimate
      simp only
      split
      · rfl
      · rfl

/-- The acknowledgements offer their measurements to the filter, in one round trip. -/
theorem fed_processAcks (s : Sender) (e : CongestionEvent) :
    fed (s.processAcks e).1 =
      (run MaxBandwidthFilter.offer s.maxBandwidth (measurementsOf (s.ackRound e) e.ackedPackets),
        s.ackRound e) ∧ s.roundTripCount ≤ s.ackRound e := by
  have hdiscard : fed (s.discardLostPackets e) = fed s := by
    unfold discardLostPackets
    split
    · rfl
    · rfl
  have hfilter : (s.discardLostPackets e).maxBandwidth = s.maxBandwidth :=
    congrArg Prod.fst hdiscard
  have hcount : (s.discardLostPackets e).roundTripCount = s.roundTripCount :=
    congrArg Prod.snd hdiscard
  unfold processAcks ackRound
  generalize s.discardLostPackets e = t at hdiscard hfilter hcount ⊢
  simp only
  cases hlast : e.ackedPackets.getLast? with
  | none =>
    rw [List.getLast?_eq_none_iff] at hlast
    rw [hlast]
    exact ⟨hdiscard, le_rfl⟩
  | some last =>
    have hround : (t.updateRoundTripCounter last.packetNumber).1.maxBandwidth = s.maxBandwidth ∧
        s.roundTripCount ≤ (t.updateRoundTripCounter last.packetNumber).1.roundTripCount := by
      unfold updateRoundTripCounter
      split
      · exact ⟨hfilter, hcount.ge.trans (Nat.le_succ _)⟩
      · exact ⟨hfilter, hcount.ge⟩
    refine ⟨?_, hround.2⟩
    dsimp only
    generalize t.updateRoundTripCounter last.packetNumber = r at hround ⊢
    have hloop := filter_foldl_acknowledge e.ackedPackets (r.1, ⊤)
    have hsame : ((e.ackedPackets.foldl acknowledge (r.1, ⊤)).1).roundTripCount
        = r.1.roundTripCount :=
      congrArg (fun p => p.2.2) (unsampled_foldl_acknowledge e.ackedPackets (r.1, ⊤))
    rw [hround.1] at hloop
    have hrtt := congrArg Prod.snd (untimed_updateMinRtt (e.ackedPackets.foldl acknowledge
      (r.1, ⊤)).1 e.eventTime (e.ackedPackets.foldl acknowledge (r.1, ⊤)).2)
    have hrecovery := congrArg (fun p => p.1.2) (unrecovered_updateRecoveryState
      (r.1.updateBandwidthAndMinRtt e.eventTime e.ackedPackets).1 last.packetNumber e.hasLosses r.2)
    have hfed : fed (e.ackedPackets.foldl acknowledge (r.1, ⊤)).1 =
        (run MaxBandwidthFilter.offer s.maxBandwidth
          (measurementsOf r.1.roundTripCount e.ackedPackets), r.1.roundTripCount) :=
      Prod.ext hloop hsame
    exact (hrecovery.trans hrtt).trans hfed

theorem fed_onCongestionEvent (I : Hooks ι) (fl : Flags) (i : ι) (s : Sender)
    (e : CongestionEvent) :
    fed (s.onCongestionEvent I fl i e).2 = fed (s.processAcks e).1 := by
  have hmodel : fed (s.updateModel I i e).2 = fed (s.processAcks e).1 :=
    congrArg Prod.snd (base_updateModel I i s e)
  have hend := congrArg (fun p => p.2.2) (steered_recalculate fl (s.updateModel I i e).2
    (I.getTargetRate (s.updateModel I i e).1) e)
  exact Eq.trans hend hmodel

theorem fed_adjustNetworkParameters (fl : Flags) (s : Sender) (p : NetworkParams) :
    fed (s.adjustNetworkParameters fl p) = fed (s.injectParameters fl p) := by
  unfold adjustNetworkParameters
  generalize s.injectParameters fl p = t
  have hresume : Same fed t (t.resume fl p) := by
    have hgains : Same fed t (if fl.conservativeCwndAndPacingGains then
        (t.setHighGain kDerivedHighCWNDGain).setHighCwndGain kDerivedHighCWNDGain else t) :=
      Same.ite rfl rfl
    exact hgains.trans rfl
  exact Same.ite (Same.ite rfl (Same.ite rfl hresume)) rfl

/-- An injected bandwidth is offered as one that counts. -/
theorem fed_injectParameters (fl : Flags) (s : Sender) (p : NetworkParams) :
    fed (s.injectParameters fl p) =
      (run MaxBandwidthFilter.offer s.maxBandwidth (s.measurements fl (.adjustNetworkParameters p)),
        s.roundTripCount) := by
  have hrtt : ∀ t : Sender, fed (if p.rtt ≠ 0 ∧ (p.rtt < t.minRtt ∨ t.minRtt = 0) then
      { t with minRtt := p.rtt } else t) = fed t := fun t => Same.ite rfl rfl
  unfold injectParameters measurements
  simp only [hrtt]
  split
  · rfl
  · rfl

/-- **Step lemma.** A call offers its measurements to the filter, all in one round trip. -/
theorem fed_act (I : Hooks ι) (fl : Flags) (i : ι) (s : Sender) (a : Action) :
    ∃ round, fed (s.act I fl i a).2
        = (run MaxBandwidthFilter.offer s.maxBandwidth (s.measurements fl a), round) ∧
      s.roundTripCount ≤ round ∧ ∀ m ∈ s.measurements fl a, m.round = round := by
  have hnone : ∀ {t : Sender}, fed t = fed s → ∃ round, fed t
      = (run MaxBandwidthFilter.offer s.maxBandwidth [], round) ∧ s.roundTripCount ≤ round ∧
        ∀ m ∈ ([] : List Measurement), m.round = round :=
    fun h => ⟨s.roundTripCount, h, le_rfl, fun _ hm => absurd hm List.not_mem_nil⟩
  cases a with
  | congestionEvent e =>
    obtain ⟨hfed, hle⟩ := fed_processAcks s e
    refine ⟨s.ackRound e, (fed_onCongestionEvent I fl i s e).trans hfed, hle, ?_⟩
    intro m hm
    obtain ⟨b, -, rfl⟩ := List.mem_map.mp hm
    rfl
  | adjustNetworkParameters p =>
    refine ⟨s.roundTripCount,
      (fed_adjustNetworkParameters fl s p).trans (fed_injectParameters fl s p), le_rfl, ?_⟩
    intro m hm
    simp only [measurements] at hm
    split at hm
    · rw [List.mem_singleton.mp hm]
    · exact absurd hm List.not_mem_nil
  | packetSent bytesInFlight packetNumber isAppLimited => exact hnone rfl
  | applicationLimited bytesInFlight unackedBytes => exact hnone (Same.ite rfl (Same.ite rfl rfl))
  | setInitialCongestionWindowInPackets packets => exact hnone (Same.ite rfl rfl)
  | setFromConfig has =>
    have hgains : Same fed s (s.setGains has) := by
      have hfirst : Same fed s (if has .kBBQ1 then
          { (s.setHighGain kDerivedHighGain).setHighCwndGain kDerivedHighGain with
            drainGain := 1 / kDerivedHighGain } else s) := Same.ite rfl rfl
      exact hfirst.trans (Same.ite rfl rfl)
    exact hnone hgains

/-- All measurements of a run, in order. -/
def measuredBy (I : Hooks ι) (fl : Flags) : Sender → List (ι × Action) → List Measurement
  | _, [] => []
  | s, x :: xs => s.measurements fl x.2 ++ measuredBy I fl (s.step I fl x) xs

theorem tracks_run (I : Hooks ι) (fl : Flags) {window : ℕ} {s : Sender} {h : List Measurement}
    (hs : MaxBandwidthFilter.Tracks window h s.maxBandwidth)
    (hh : ∀ m ∈ h, m.round ≤ s.roundTripCount) (xs : List (ι × Action)) :
    MaxBandwidthFilter.Tracks window (h ++ measuredBy I fl s xs)
      (run (step I fl) s xs).maxBandwidth := by
  induction xs generalizing s h with
  | nil =>
    rw [measuredBy, List.append_nil]
    exact hs
  | cons x xs ih =>
    obtain ⟨round, hfed, hle, hms⟩ := fed_act I fl x.1 s x.2
    have hfilter : (s.step I fl x).maxBandwidth = _ := congrArg Prod.fst hfed
    have hround : (s.step I fl x).roundTripCount = round := congrArg Prod.snd hfed
    have hh' : ∀ m ∈ h, m.round ≤ round := fun m hm => (hh m hm).trans hle
    rw [measuredBy, ← List.append_assoc, run_cons]
    apply ih
    · rw [hfilter]
      exact hs.run hh' hms
    · rw [hround, List.forall_mem_append]
      exact ⟨hh', fun m hm => (hms m hm).le⟩

/-- At any time in a connection the bandwidth estimate is zero, if nothing was measured but samples
of zero that are limited by the application, or one of the measurements. All measurements after it
that are not limited by the application are smaller, and none of them is from more round trips
later than the window is long. -/
theorem bandwidth_estimate (I : Hooks ι) (fl : Flags) (a : Arguments) (gainCycleLength : ℕ)
    (xs : List (ι × Action)) :
    let s := run (step I fl) (new a gainCycleLength) xs
    let ms := measuredBy I fl (new a gainCycleLength) xs
    (s.bandwidthEstimate = 0 ∧ ∀ m ∈ ms, m.appLimited = true ∧ m.bandwidth = 0) ∨
    ∃ earlier m later, ms = earlier ++ m :: later ∧ m.bandwidth = s.bandwidthEstimate ∧
      ∀ m' ∈ later, m'.appLimited = false →
        m'.bandwidth < s.bandwidthEstimate ∧ m'.round ≤ m.round + (gainCycleLength + 2) := by
  intro s ms
  have htracks : MaxBandwidthFilter.Tracks (gainCycleLength + 2) ms s.maxBandwidth :=
    tracks_run I fl (MaxBandwidthFilter.tracks_new (gainCycleLength + 2))
      (fun _ hm => absurd hm List.not_mem_nil) xs
  obtain ⟨hzero, hall⟩ | ⟨⟨m, ⟨earlier, later, hms, hlater⟩, hm⟩, -⟩ := htracks.kept
  · exact Or.inl ⟨hzero, hall⟩
  · right
    have hsample : m.bandwidth = s.bandwidthEstimate := congrArg BbrGap.Estimate.sample hm
    have htime : m.round = s.maxBandwidth.best.time := congrArg BbrGap.Estimate.time hm
    refine ⟨earlier, m, later, hms, hsample, fun m' hm' hcounts => ⟨?_, ?_⟩⟩
    · rw [← hsample]
      exact hlater m' hm' hcounts
    · rw [htime]
      refine htracks.recent m' ?_ hcounts
      rw [hms]
      exact List.mem_append_right _ (List.mem_cons_of_mem _ hm')

end Sender
end Bbr

end Cc
end LiveStream
