import LiveStream.Cc.MinervaRecovery
import LiveStream.Minerva.MinervaAbr

/-!
# `MinervaAbr` and its connections

`Minerva.System` has the algorithm with a counter and a weight, and takes acknowledged bytes and
round trip times as they come. Here they come from the Minerva senders: `Loop` is the algorithm over
the interface that all of them share, and `Loop.system` is what the algorithm sees of it.

* `Loop.refines`, over every order of events a run of the loop is, for the algorithm, a run of the
  system with the acknowledgements of all connections in their order.
-/

namespace LiveStream
namespace Minerva

open Lib
open AbrSchema (Metrics)
open Cc (MinervaSender)
open MinervaConstants

/-- The algorithm, and the connections over their interface. -/
structure Loop where
  abr : MinervaAbr
  connections : Group Cc.MinervaInterface MinervaSender

namespace Loop

/-- The constructor, at this time. -/
def new (now : ℚ) : Loop := ⟨.new now, .empty .init⟩

inductive Event where
  | create (name : ℕ) (a : MinervaSender.Arguments)
  | act (name : ℕ) (a : MinervaSender.Action)
  | destroy (name : ℕ)
  | registerMetrics (metrics : Metrics)
  | decide (now nowAfter : ℚ) (undefinedWeight : Option ℚ)

variable (c : Settings) (l : Loop)

/-- What an event of the connections does. -/
def connect
    (e : Group.Event MinervaSender.Arguments MinervaSender.Action Cc.MinervaInterface.Call) :
    Loop :=
  { l with connections := l.connections.step Cc.MinervaInterface.methods e }

/-- `minRtt()`, which is nothing before the first connection. -/
def minRtt : Option ℤ :=
  if l.connections.shared.parent = none then none
  else l.connections.shared.minRtt.map fun n => (n : ℤ)

/-- The readings of a call of `decide()`, between two events of the connections. -/
def callAt (now nowAfter : ℚ) (undefinedWeight : Option ℚ) : Call :=
  ⟨l.minRtt, l.minRtt, now, nowAfter, undefinedWeight⟩

/-! ## What the algorithm sees -/

/-- The algorithm, with the counter and the weight of the interface. -/
def viewOf (abr : MinervaAbr) (i : Cc.MinervaInterface) : System :=
  ⟨abr, ⟨i.ackedBytes, i.linkWeight⟩⟩

def system : System := viewOf l.abr l.connections.shared

/-- The counter and the weight are all the algorithm can write. -/
def put (i : Cc.MinervaInterface) (seen : MinervaInterface) : Cc.MinervaInterface :=
  { i with ackedBytes := seen.ackedBytes.toNat, linkWeight := seen.linkWeight }

/-- `decide()`, on the interface of the connections. -/
def decide (call : Call) : Loop :=
  let s := (l.system.decide c call).1
  { abr := s.abr
    connections := { l.connections with shared := put l.connections.shared s.interface } }

def step : Event → Loop
  | .create name a => l.connect (.create name a)
  | .act name a => l.connect (.act name a)
  | .destroy name => l.connect (.destroy name)
  | .registerMetrics metrics => { l with abr := l.abr.registerMetrics metrics }
  | .decide now nowAfter undefinedWeight =>
    l.decide c (l.callAt now nowAfter undefinedWeight)

/-- The acknowledgements of a call of a sender. -/
def acknowledged : MinervaSender.Action → List System.Event
  | .congestionEvent e => e.ackedPackets.map fun packet => .addAckedBytes packet.bytesAcked
  | _ => []

/-- What an event is for the algorithm. -/
def seenAs : Event → List System.Event
  | .act name a => if (l.connections.members name).isSome then acknowledged a else []
  | .registerMetrics metrics => [.registerMetrics metrics]
  | .decide now nowAfter undefinedWeight => [.decide (l.callAt now nowAfter undefinedWeight)]
  | _ => []

/-- What a run is for the algorithm. -/
def history (l : Loop) : List Event → List System.Event
  | [] => []
  | e :: es => l.seenAs e ++ history (l.step c e) es

/-! ## The interface -/

variable {c l}

theorem viewOf_updateMinRtt (abr : MinervaAbr) (i : Cc.MinervaInterface) :
    viewOf abr i.updateMinRtt = viewOf abr i := by
  obtain ⟨minRtt, danglingRead, heq⟩ := i.updateMinRtt_eq
  rw [heq]
  rfl

/-- The acknowledged packets of an event, one after the other. -/
theorem viewOf_acked (abr : MinervaAbr) (i : Cc.MinervaInterface)
    (packets : List MinervaSender.AckedPacket) :
    viewOf abr (packets.foldl Cc.MinervaInterface.onPacketAcked i)
      = run (System.step c) (viewOf abr i)
          (packets.map fun packet => .addAckedBytes packet.bytesAcked) := by
  induction packets generalizing i with
  | nil => rfl
  | cons packet packets ih =>
    have hone : viewOf abr (i.onPacketAcked packet)
        = (viewOf abr i).step c (.addAckedBytes packet.bytesAcked) := by
      refine (viewOf_updateMinRtt abr (i.addAckedBytes packet.bytesAcked)).trans ?_
      show System.mk abr ⟨((i.ackedBytes + packet.bytesAcked : ℕ) : ℤ), _⟩ = _
      rw [Nat.cast_add]
      rfl
    rw [List.foldl_cons, ih, hone, List.map_cons, run_cons]

theorem viewOf_afterCall (abr : MinervaAbr) (i : Cc.MinervaInterface) (name : ℕ)
    (a : MinervaSender.Action) :
    viewOf abr (i.afterCall name a) = run (System.step c) (viewOf abr i) (acknowledged a) := by
  cases a with
  | congestionEvent e =>
    exact (viewOf_updateMinRtt abr _).trans
      (viewOf_acked abr (i.noteRtt name e.minRtt) e.ackedPackets)
  | packetSent bytesInFlight packetNumber bytes isRetransmittable => exact viewOf_updateMinRtt abr i
  | canSend bytesInFlight => exact viewOf_updateMinRtt abr i
  | retransmissionTimeout packetsRetransmitted => rfl
  | connectionMigration => rfl
  | setInitialCongestionWindowInPackets congestionWindow => rfl
  | adjustNetworkParameters bandwidth rtt => rfl

/-! ## The algorithm -/

/-- A call of `decide()` resets the counter or leaves it alone. -/
theorem ackedBytes_decide (s : System) (call : Call) :
    (s.decide c call).1.interface.ackedBytes = s.interface.ackedBytes ∨
      (s.decide c call).1.interface.ackedBytes = 0 := by
  have hfinish : ∀ (t : System) (interval : ℤ),
      (t.finish c call interval).1.interface.ackedBytes = t.interface.ackedBytes := by
    intro t interval
    unfold System.finish
    split
    · rfl
    · rfl
  unfold System.decide
  split
  · exact .inl rfl
  · exact .inl rfl
  · next interval _ _ =>
    show ((s.halfway call interval).1.finish c call interval).1.interface.ackedBytes = _ ∨
      ((s.halfway call interval).1.finish c call interval).1.interface.ackedBytes = 0
    rw [hfinish]
    unfold System.halfway
    split
    · exact .inr rfl
    · exact .inl rfl

/-- A call of `decide()` is one for the algorithm. -/
theorem system_decide (l : Loop) (call : Call) :
    (l.decide c call).system = (l.system.decide c call).1 := by
  have hnonneg : 0 ≤ (l.system.decide c call).1.interface.ackedBytes := by
    rcases ackedBytes_decide (c := c) l.system call with hsame | hzero
    · rw [hsame]
      exact Int.natCast_nonneg l.connections.shared.ackedBytes
    · exact hzero.ge
  show System.mk _ ⟨((l.system.decide c call).1.interface.ackedBytes.toNat : ℤ), _⟩ = _
  rw [Int.toNat_of_nonneg hnonneg]
  rfl

/-! ## Runs -/

/-- For the algorithm an event of a connection is the acknowledgements in it. -/
theorem system_step (l : Loop) (e : Event) :
    (l.step c e).system = run (System.step c) l.system (l.seenAs e) := by
  cases e with
  | create name a => rfl
  | act name a =>
    cases hs : l.connections.members name with
    | none =>
      have hstep :
          l.connections.step Cc.MinervaInterface.methods (.act name a) = l.connections := by
        simp only [Group.step, hs]
      have hseen : l.seenAs (.act name a) = [] := by simp [seenAs, hs]
      rw [hseen]
      exact congrArg (fun g => system ⟨l.abr, g⟩) hstep
    | some s =>
      have hseen : l.seenAs (.act name a) = acknowledged a := by simp [seenAs, hs]
      have hstep := congrArg (fun g => system ⟨l.abr, g⟩)
        (Group.step_act Cc.MinervaInterface.methods hs a)
      rw [hseen]
      exact hstep.trans (viewOf_afterCall l.abr l.connections.shared s.name a)
  | destroy name => rfl
  | registerMetrics metrics => rfl
  | decide now nowAfter undefinedWeight => exact system_decide l _

/-- Over every order of connections being made, active and closed, reports and calls of `decide`, a
run of the loop is for the algorithm a run of the system: the acknowledged packets of the
connections that exist arrive each once and in their order, and what the algorithm keeps, the
counter and the weight are the same. -/
theorem refines (c : Settings) (now : ℚ) (es : List Event) :
    (run (step c) (new now) es).system
      = run (System.step c) (System.new now) ((new now).history c es) := by
  have hrun : ∀ l : Loop, (run (step c) l es).system
      = run (System.step c) l.system (l.history c es) := by
    induction es with
    | nil => exact fun _ => rfl
    | cons e es ih =>
      intro l
      rw [run_cons, ih, system_step, history, run_append]
  exact hrun (new now)

end Loop

end Minerva
end LiveStream
