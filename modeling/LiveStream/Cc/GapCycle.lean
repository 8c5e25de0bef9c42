import LiveStream.Cc.GapModes

/-!
# BbrGap's samples

In `PROBE_BW` every congestion event calls `UpdateGainCyclePhase`, which may give the bandwidth
estimate to the PID estimator and to the trace. While there are more bytes in flight than the
target window, a sample is due when more than a round trip time has passed since the start of the
cycle. In BBR the start moves with every phase of the cycle. Here only the entry into `PROBE_BW`
writes it, so from one round trip after the entry on every event adds a sample, and the samples
are as close as the acknowledgements (`added_eq_due`).
-/

namespace LiveStream
namespace Cc
namespace BbrGap
namespace Sender

open Lib

/-- A call of `UpdateGainCyclePhase`: what it finds, and whether it adds a sample. -/
structure Call where
  now : ℕ
  bytesInFlight : ℕ
  /-- `GetTargetCongestionWindow(1)`. -/
  targetWindow : ℕ
  /-- `GetMinRtt()`. -/
  minRtt : ℕ
  added : Bool
deriving DecidableEq

namespace Call

def full (k : Call) : Bool := k.targetWindow < k.bytesInFlight

/-- More than a round trip time has passed since `start`. -/
def late (start : ℕ) (k : Call) : Bool := start + k.minRtt < k.now

def due (start : ℕ) (k : Call) : Bool := !k.full || k.late start

/-- Two calls with a full pipe are more than a round trip time apart. -/
def Spaced (a b : Call) : Prop := a.full = true → b.full = true → a.now + b.minRtt < b.now

instance : DecidableRel Spaced := fun a b =>
  inferInstanceAs (Decidable (a.full = true → b.full = true → a.now + b.minRtt < b.now))

end Call

/-- The call an action makes, if it makes one. -/
def call (c : Config) (s : Sender) : Action → Option Call
  | .congestionEvent e =>
    let s := (s.processAcks c e).1
    let t := s.updateGainCyclePhase c e.eventTime e.bytesInFlight
    if s.mode = .PROBE_BW then
      some
        { now := e.eventTime
          bytesInFlight := e.bytesInFlight
          targetWindow := s.getTargetCongestionWindow c 1
          minRtt := s.getMinRtt c
          added := t.samples.length = s.samples.length + 1 ∧
            t.estimatorTrace.length = s.estimatorTrace.length + 1 }
    else none
  | _ => none

/-- The calls of a run. -/
def calls (c : Config) : Sender → List Action → List Call := emitted (step c) (call c)

/-- A call adds at most one sample, to both. -/
theorem length_updateGainCyclePhase (c : Config) (s : Sender) (now bytesInFlight : ℕ) :
    (s.updateGainCyclePhase c now bytesInFlight).samples.length =
        s.samples.length + (s.shouldAddSample c now bytesInFlight).toNat ∧
      (s.updateGainCyclePhase c now bytesInFlight).estimatorTrace.length =
        s.estimatorTrace.length + (s.shouldAddSample c now bytesInFlight).toNat := by
  unfold updateGainCyclePhase
  cases s.shouldAddSample c now bytesInFlight with
  | false => simp
  | true => simp

theorem added_iff_shouldAddSample (c : Config) (s : Sender) (now bytesInFlight : ℕ) :
    ((s.updateGainCyclePhase c now bytesInFlight).samples.length = s.samples.length + 1 ∧
      (s.updateGainCyclePhase c now bytesInFlight).estimatorTrace.length =
        s.estimatorTrace.length + 1) ↔ s.shouldAddSample c now bytesInFlight = true := by
  obtain ⟨hsamples, htrace⟩ := length_updateGainCyclePhase c s now bytesInFlight
  rw [hsamples, htrace, Nat.add_left_cancel_iff, Nat.add_left_cancel_iff, and_self,
    Bool.toNat_eq_one]

/-- A call adds a sample exactly if one is due, counted from the start of the cycle. -/
theorem added_eq_due (c : Config) (s : Sender) (a : Action) :
    ∀ k ∈ s.call c a, k.added = k.due s.lastCycleStart := by
  intro k hk
  cases a with
  | congestionEvent e =>
    have hstart := start_of_cycle (cycle_processAcks c s e)
    simp only [call, Option.mem_def, Option.ite_none_right_eq_some, Option.some.injEq] at hk
    obtain ⟨-, rfl⟩ := hk
    simp only [added_iff_shouldAddSample, Bool.decide_eq_true, shouldAddSample, Call.due, Call.full,
      Call.late, hstart]
    by_cases hfull : e.bytesInFlight ≤ (s.processAcks c e).1.getTargetCongestionWindow c 1
    · simp [hfull]
    · have hcompare : ((s.processAcks c e).1.getMinRtt c : ℤ) < e.eventTime - s.lastCycleStart ↔
          s.lastCycleStart + (s.processAcks c e).1.getMinRtt c < e.eventTime := by omega
      simp [hfull, hcompare]
  | packetSent packetNumber quiescent => exact absurd hk (by simp [call])
  | applicationLimited => exact absurd hk (by simp [call])
  | setTargetRate rate => exact absurd hk (by simp [call])
  | adjustNetworkParameters bandwidth rtt => exact absurd hk (by simp [call])

/-- Along a stay in `PROBE_BW` the samples are counted from the entry. -/
theorem added_of_stay (c : Config) {s : Sender} (e : CongestionEvent) {actions : List Action}
    (hout : s.mode ≠ .PROBE_BW)
    (hstay : EveryStep (step c) (fun t _ => t.mode = .PROBE_BW) (s.step c (.congestionEvent e))
      actions) :
    ∀ k ∈ calls c (s.step c (.congestionEvent e)) actions, k.added = k.due e.eventTime := by
  refine hstay.forall_emitted (P := fun t => t.mode = .PROBE_BW → t.lastCycleStart = e.eventTime)
    ?_ ?_ ?_
  · intro hmode
    exact lastCycleStart_of_entry c hout e hmode
  · intro t a hstart hmode hnext
    rw [lastCycleStart_of_stay c hmode a hnext, hstart hmode]
  · intro t a hstart hmode k hk
    rw [added_eq_due c t a k hk, hstart hmode]

/-- Where the pipe is full, only the time since the start counts. -/
theorem Call.spaced_of_due_iff (start : ℕ) (a b : Call) :
    (a.due start = true → b.due start = true → a.Spaced b) ↔
      (a.late start = true → b.late start = true → a.Spaced b) := by
  have hdue : ∀ k : Call, k.full = true → k.due start = k.late start := by
    intro k hk
    rw [Call.due, hk, Bool.not_true, Bool.false_or]
  constructor
  · intro h ha hb hfulla hfullb
    exact h (by rwa [hdue a hfulla]) (by rwa [hdue b hfullb]) hfulla hfullb
  · intro h ha hb hfulla hfullb
    exact h (by rwa [← hdue a hfulla]) (by rwa [← hdue b hfullb]) hfulla hfullb

/-- In a stay in `PROBE_BW` that the event `e` begins, the samples taken with a full pipe are more
than a round trip apart exactly if the calls are that find a full pipe more than a round trip after
the entry. The first part is about two calls with no other one in between, the second about two
samples with no other sample in between. -/
theorem samples_spaced_iff (c : Config) (s : Sender) (e : CongestionEvent) (actions : List Action)
    (hout : s.mode ≠ .PROBE_BW)
    (hstay : EveryStep (step c) (fun t _ => t.mode = .PROBE_BW) (s.step c (.congestionEvent e))
      actions) :
    ((calls c (s.step c (.congestionEvent e)) actions).IsChain
        (fun a b => a.added = true → b.added = true → a.Spaced b) ↔
      (calls c (s.step c (.congestionEvent e)) actions).IsChain
        (fun a b => a.late e.eventTime = true → b.late e.eventTime = true → a.Spaced b)) ∧
    (((calls c (s.step c (.congestionEvent e)) actions).filter Call.added).IsChain Call.Spaced ↔
      ((calls c (s.step c (.congestionEvent e)) actions).filter
        (Call.due e.eventTime)).IsChain Call.Spaced) := by
  have hadded := added_of_stay c e hout hstay
  constructor
  · apply List.IsChain.iff_of_mem_imp
    intro a b ha hb
    rw [hadded a ha, hadded b hb]
    exact Call.spaced_of_due_iff e.eventTime a b
  · rw [List.filter_congr hadded]

/-! ## A connection over 80 ms -/

/-- An acknowledgement of one packet, at 1 Mbps and 80 ms. -/
def ack (eventTime packetNumber bytesInFlight : ℕ) : CongestionEvent where
  eventTime := eventTime
  ackedPackets := [⟨packetNumber, some ⟨1000000, 80000, false⟩⟩]
  hasLosses := false
  bytesInFlight := bytesInFlight
  random := 0

/-- Three rounds of a new connection. -/
def startup : List Action :=
  [.packetSent 1 false, .congestionEvent (ack 80000 1 5000),
    .packetSent 2 false, .congestionEvent (ack 160000 2 5000),
    .packetSent 3 false, .congestionEvent (ack 240000 3 5000), .packetSent 9 false]

/-- The connection before the acknowledgement that takes it to `PROBE_BW`. -/
def started : Sender := run (step .default) (.new .default none) startup

/-- Acknowledgements at two times, with 11000 bytes in flight. -/
def twoAcks (first second : ℕ) : List Action :=
  [.congestionEvent (ack first 5 11000), .congestionEvent (ack second 6 11000)]

/-- Two round trips apart, both acknowledgements add a sample, and the samples are spaced. -/
theorem samples_spaced_two_round_trips :
    (calls .default (started.step .default (.congestionEvent (ack 320000 4 5000)))
        (twoAcks 420000 580000)).map Call.added = [true, true] ∧
      (calls .default (started.step .default (.congestionEvent (ack 320000 4 5000)))
        (twoAcks 420000 580000)).IsChain
          (fun a b => a.added = true → b.added = true → a.Spaced b) :=
  ⟨by decide +kernel,
    (samples_spaced_iff .default started (ack 320000 4 5000) (twoAcks 420000 580000)
      (by decide +kernel) (by decide +kernel)).1.mpr (by decide +kernel)⟩

/-- Five milliseconds apart, both add a sample with a full pipe, although the round trip time is
80 ms. -/
theorem samples_five_ms_apart :
    started.mode = .STARTUP ∧
      EveryStep (step .default) (fun t _ => t.mode = .PROBE_BW)
        (started.step .default (.congestionEvent (ack 320000 4 5000))) (twoAcks 420000 425000) ∧
      calls .default (started.step .default (.congestionEvent (ack 320000 4 5000)))
          (twoAcks 420000 425000) =
        [⟨420000, 11000, 10000, 80000, true⟩, ⟨425000, 11000, 10000, 80000, true⟩] ∧
      ¬ (calls .default (started.step .default (.congestionEvent (ack 320000 4 5000)))
          (twoAcks 420000 425000)).IsChain
            (fun a b => a.added = true → b.added = true → a.Spaced b) := by
  decide +kernel

end Sender
end BbrGap
end Cc
end LiveStream
