import LiveStream.Lib.Run
import LiveStream.Video.Config

/-!
# The leader's barrier

`LeaderController` of `exp/leader.py` synchronises several experiment instances: the answers
to `/start` are held back until all of them have asked, and so are the answers to `/destroy`.
The first barrier starts the network simulation, the second one launches the thread that
kills what is left of the experiment.

The handlers are coroutines of one event loop. Each is cut at its `await`s into pieces that
run without interruption: `System.step` takes the first piece when a request arrives and a
later one when the loop resumes the handler. `await self.network.run()` is such a cut too,
whether or not it suspends.

* `barrier_iff`: when the leader is a one-shot barrier, over all interleavings.
-/

namespace LiveStream
namespace Exp
namespace Leader

open Lib
open Video (Dict)

/-! ## The controller -/

inductive InstanceState where
  | started
  | stopped
deriving DecidableEq

structure LeaderController where
  nbrInstances : ℕ
  /-- `network.ports`. -/
  ports : List ℕ := [6121]
  instances : Dict ℕ InstanceState := Dict.empty
  allStarted : Bool := false
  allStopped : Bool := false

namespace LeaderController

def count (c : LeaderController) (state : InstanceState) : ℕ :=
  c.instances.keys.countP fun port => c.instances.get port = some state

def started (c : LeaderController) : ℕ := c.count .started

def stopped (c : LeaderController) : ℕ := c.count .stopped

/-- `network.add_port`. -/
def addPort (c : LeaderController) (port : ℕ) : LeaderController :=
  { c with ports := if port ∈ c.ports then c.ports else c.ports ++ [port] }

def setInstance (c : LeaderController) (port : ℕ) (state : InstanceState) : LeaderController :=
  { c with instances := c.instances.set port state }

end LeaderController

/-! ## Handlers -/

/-- Where a handler of `/start` is suspended. -/
inductive StartPhase where
  /-- In `network.run`. -/
  | network
  /-- In `all_started.wait`. -/
  | waiting
  /-- Past its wait, in `asyncio.sleep`. -/
  | sleeping
  | answered
deriving DecidableEq

/-- Where a handler of `/destroy` is suspended. -/
inductive DestroyPhase where
  | waiting
  /-- Past its wait; or, without an instance for the port, dead of a `KeyError`. -/
  | answered
  | raised
deriving DecidableEq

/-- The controller, the handlers in order of arrival with the port of their request, and how
often the network simulation was run and `finalize` was launched. -/
structure System where
  controller : LeaderController
  starts : List (ℕ × StartPhase) := []
  destroys : List (ℕ × DestroyPhase) := []
  networkRuns : ℕ := 0
  finalizers : ℕ := 0

inductive Event where
  /-- `/start` arrives from a port. -/
  | start (port : ℕ)
  /-- `/destroy` arrives from a port. -/
  | destroy (port : ℕ)
  /-- The loop resumes the `k`-th handler of `/start`. -/
  | resumeStart (k : ℕ)
  /-- The loop resumes the `k`-th handler of `/destroy`. -/
  | resumeDestroy (k : ℕ)
deriving DecidableEq

namespace System

def init (nbrInstances : ℕ) : System where
  controller := { nbrInstances := nbrInstances }

/-- `on_start` up to its first `await`. -/
def onStart (s : System) (port : ℕ) : System :=
  let c := (s.controller.setInstance port .started).addPort port
  if c.started = c.nbrInstances then
    { s with
      controller := c
      starts := s.starts ++ [(port, .network)]
      networkRuns := s.networkRuns + 1 }
  else { s with controller := c, starts := s.starts ++ [(port, .waiting)] }

/-- `on_destroy` up to its `await`. -/
def onDestroy (s : System) (port : ℕ) : System :=
  match s.controller.instances.get port with
  | none => { s with destroys := s.destroys ++ [(port, .raised)] }
  | some _ =>
    let c := s.controller.setInstance port .stopped
    if c.stopped = c.nbrInstances then
      { s with
        controller := { c with allStopped := true }
        destroys := s.destroys ++ [(port, .waiting)]
        finalizers := s.finalizers + 1 }
    else { s with controller := c, destroys := s.destroys ++ [(port, .waiting)] }

/-- A handler of `/start` goes on to its next `await`, if what it awaits has happened. -/
def resumeStart (s : System) (k : ℕ) : System :=
  match s.starts[k]? with
  | some (port, .network) =>
    { s with
      controller := { s.controller with allStarted := true }
      starts := s.starts.set k (port, .waiting) }
  | some (port, .waiting) =>
    if s.controller.allStarted then { s with starts := s.starts.set k (port, .sleeping) } else s
  | some (port, .sleeping) => { s with starts := s.starts.set k (port, .answered) }
  | _ => s

def resumeDestroy (s : System) (k : ℕ) : System :=
  match s.destroys[k]? with
  | some (port, .waiting) =>
    if s.controller.allStopped then { s with destroys := s.destroys.set k (port, .answered) } else s
  | _ => s

def step (s : System) : Event → System
  | .start port => s.onStart port
  | .destroy port => s.onDestroy port
  | .resumeStart k => s.resumeStart k
  | .resumeDestroy k => s.resumeDestroy k

/-- The ports that have sent `/start`. -/
def startPorts (s : System) : List ℕ := s.starts.map Prod.fst

/-- The ports that have sent `/destroy`. -/
def destroyPorts (s : System) : List ℕ := s.destroys.map Prod.fst

end System

/-! ## The protocol and what is expected of the leader -/

/-- The instances' side: each of the ports sends `/start` once, and `/destroy` only when its
`/start` was answered. -/
def Protocol (ports : List ℕ) (s : System) : Event → Prop
  | .start port => port ∈ ports ∧ port ∉ s.startPorts
  | .destroy port => (port, StartPhase.answered) ∈ s.starts
  | .resumeStart _ => True
  | .resumeDestroy _ => True

instance (ports : List ℕ) (s : System) : ∀ e : Event, Decidable (Protocol ports s e)
  | .start port => inferInstanceAs (Decidable (port ∈ ports ∧ port ∉ s.startPorts))
  | .destroy port => inferInstanceAs (Decidable ((port, StartPhase.answered) ∈ s.starts))
  | .resumeStart _ => isTrue trivial
  | .resumeDestroy _ => isTrue trivial

/-- What a one-shot barrier for the ports guarantees in a state. -/
structure Barrier (ports : List ℕ) (s : System) : Prop where
  start_held : ∀ h ∈ s.starts, h.2 = .sleeping ∨ h.2 = .answered →
    ∀ port ∈ ports, port ∈ s.startPorts
  network_once : s.networkRuns =
    if s.starts ≠ [] ∧ ∀ port ∈ ports, port ∈ s.startPorts then 1 else 0
  destroy_held : ∀ h ∈ s.destroys, h.2 = .answered → ∀ port ∈ ports, port ∈ s.destroyPorts
  finalize_once : s.finalizers ≤ 1

/-- A `/destroy` arrives only while some port has not sent one. -/
def StillRunning (ports : List ℕ) (s : System) : Event → Prop
  | .destroy _ => ∃ port ∈ ports, port ∉ s.destroyPorts
  | _ => True

instance (ports : List ℕ) (s : System) : ∀ e : Event, Decidable (StillRunning ports s e)
  | .start _ => isTrue trivial
  | .destroy _ => inferInstanceAs (Decidable (∃ port ∈ ports, port ∉ s.destroyPorts))
  | .resumeStart _ => isTrue trivial
  | .resumeDestroy _ => isTrue trivial

/-! ## The invariant -/

/-- What every run of the protocol keeps. As long as a `/start` is missing every instance is
started, and no handler has passed its wait. -/
structure Inv (ports : List ℕ) (s : System) : Prop where
  nbr : s.controller.nbrInstances = ports.length
  nodup : s.startPorts.Nodup
  subset : s.startPorts ⊆ ports
  keys : s.controller.instances.keys = s.startPorts
  state : ∀ port ∈ s.startPorts, s.controller.instances.get port =
    some (if port ∈ s.destroyPorts then .stopped else .started)
  passed : ∀ h ∈ s.starts, h.2 ≠ .waiting → s.starts.length = ports.length
  allStarted : s.controller.allStarted = true → s.starts.length = ports.length
  networkRuns : s.networkRuns =
    if s.starts ≠ [] ∧ s.starts.length = ports.length then 1 else 0
  destroys : ∀ port ∈ s.destroyPorts,
    port ∈ s.startPorts ∧ s.starts.length = ports.length
  answered : ∀ h ∈ s.destroys, h.2 = .answered → s.controller.allStopped = true
  allStopped : s.controller.allStopped = true ↔
    s.destroys ≠ [] ∧ ∀ port ∈ ports, port ∈ s.destroyPorts
  finalizers : 0 < s.finalizers ↔ s.controller.allStopped = true

namespace Inv

variable {ports : List ℕ} {s : System}

theorem init (ports : List ℕ) : Inv ports (System.init ports.length) where
  nbr := rfl
  nodup := List.nodup_nil
  subset := List.nil_subset _
  keys := rfl
  state _ h := absurd h List.not_mem_nil
  passed _ h := absurd h List.not_mem_nil
  allStarted h := by cases h
  networkRuns := rfl
  destroys _ h := absurd h List.not_mem_nil
  answered _ h := absurd h List.not_mem_nil
  allStopped := by simp [System.init]
  finalizers := by simp [System.init]

theorem length_startPorts (s : System) : s.startPorts.length = s.starts.length :=
  List.length_map _

/-- All ports have sent `/start` exactly if as many have as there are. -/
theorem complete_iff (h : Inv ports s) (hports : ports.Nodup) :
    s.starts.length = ports.length ↔ ∀ port ∈ ports, port ∈ s.startPorts := by
  rw [← length_startPorts]
  constructor
  · intro hlen port hport
    have hperm : s.startPorts.Perm ports :=
      (h.nodup.subperm h.subset).perm_of_length_le hlen.ge
    exact hperm.mem_iff.mpr hport
  · intro hall
    exact le_antisymm (h.nodup.subperm h.subset).length_le (hports.subperm hall).length_le

/-! ### A request to start -/

theorem destroyPorts_eq_nil (h : Inv ports s) (hlen : s.starts.length ≠ ports.length) :
    s.destroyPorts = [] :=
  List.eq_nil_iff_forall_not_mem.mpr fun port hport => hlen (h.destroys port hport).2

theorem length_ne_of_new (h : Inv ports s) (hports : ports.Nodup) {port : ℕ} (hport : port ∈ ports)
    (hnew : port ∉ s.startPorts) : s.starts.length ≠ ports.length :=
  fun hlen => hnew ((h.complete_iff hports).mp hlen port hport)

/-- While a `/start` is missing, the instances known are the ports that sent one. -/
theorem started_setInstance (h : Inv ports s) (hlen : s.starts.length ≠ ports.length) {port : ℕ}
    (hnew : port ∉ s.startPorts) :
    ((s.controller.setInstance port .started).addPort port).started = s.starts.length + 1 := by
  have hkeys : ((s.controller.setInstance port .started).addPort port).instances.keys =
      s.startPorts ++ [port] := by
    simp only [LeaderController.addPort, LeaderController.setInstance, Dict.set, h.keys, hnew,
      if_false]
  have hall : ∀ p ∈ s.startPorts ++ [port],
      ((s.controller.setInstance port .started).addPort port).instances.get p =
        some .started := by
    intro p hp
    simp only [LeaderController.addPort, LeaderController.setInstance, Dict.set]
    rcases List.mem_append.mp hp with hp | hp
    · have hne : p ≠ port := fun heq => hnew (heq ▸ hp)
      rw [Function.update_of_ne hne, h.state p hp, h.destroyPorts_eq_nil hlen,
        if_neg List.not_mem_nil]
    · rw [List.mem_singleton.mp hp, Function.update_self]
  rw [LeaderController.started, LeaderController.count, hkeys,
    List.countP_eq_length.mpr fun p hp => decide_eq_true (hall p hp), List.length_append,
    length_startPorts, List.length_singleton]

/-- The first piece of `on_start`: the last port to ask runs the network. -/
theorem onStart_eq (h : Inv ports s) (hlen : s.starts.length ≠ ports.length) {port : ℕ}
    (hnew : port ∉ s.startPorts) :
    s.onStart port =
      { s with
        controller := (s.controller.setInstance port .started).addPort port
        starts := s.starts ++
          [(port, if s.starts.length + 1 = ports.length then .network else .waiting)]
        networkRuns := if s.starts.length + 1 = ports.length then 1 else 0 } := by
  have hruns : s.networkRuns = 0 := by
    rw [h.networkRuns, if_neg fun hc => hlen hc.2]
  have hnbr : ((s.controller.setInstance port .started).addPort port).nbrInstances =
      ports.length := h.nbr
  rw [System.onStart, h.started_setInstance hlen hnew, hnbr, hruns]
  by_cases hlast : s.starts.length + 1 = ports.length
  · simp only [hlast, if_true]
  · simp only [hlast, if_false]

theorem onStart (h : Inv ports s) (hports : ports.Nodup) {port : ℕ} (hport : port ∈ ports)
    (hnew : port ∉ s.startPorts) : Inv ports (s.onStart port) := by
  have hlen := h.length_ne_of_new hports hport hnew
  have hnone : ∀ p, p ∉ s.destroyPorts := fun p => h.destroyPorts_eq_nil hlen ▸ List.not_mem_nil
  have hstarts : (s.onStart port).startPorts = s.startPorts ++ [port] := by
    simp [h.onStart_eq hlen hnew, System.startPorts]
  have hdestroys : (s.onStart port).destroyPorts = s.destroyPorts := by
    simp [h.onStart_eq hlen hnew, System.destroyPorts]
  have hlength : (s.onStart port).starts.length = s.starts.length + 1 := by
    simp [h.onStart_eq hlen hnew]
  -- no handler has passed its wait, and the flag is not set yet
  have hflag : s.controller.allStarted = false :=
    Bool.eq_false_iff.mpr fun hset => hlen (h.allStarted hset)
  refine ⟨?_, ?_, ?_, ?_, ?_, ?_, ?_, ?_, ?_, ?_, ?_, ?_⟩
  · rw [h.onStart_eq hlen hnew]
    exact h.nbr
  · rw [hstarts, List.nodup_append]
    refine ⟨h.nodup, List.nodup_singleton port, fun p hp q hq heq => hnew ?_⟩
    rw [← List.mem_singleton.mp hq, ← heq]
    exact hp
  · rw [hstarts]
    exact List.append_subset.mpr ⟨h.subset, by simpa using hport⟩
  · rw [hstarts, h.onStart_eq hlen hnew]
    simp only [LeaderController.addPort, LeaderController.setInstance, Dict.set, h.keys, hnew,
      if_false]
  · intro p hp
    rw [hstarts] at hp
    rw [hdestroys, if_neg (hnone p), h.onStart_eq hlen hnew]
    simp only [LeaderController.addPort, LeaderController.setInstance, Dict.set]
    by_cases hpp : p = port
    · rw [hpp, Function.update_self]
    · rw [Function.update_of_ne hpp,
        h.state p ((List.mem_append.mp hp).resolve_right fun hq => hpp (List.mem_singleton.mp hq)),
        if_neg (hnone p)]
  · intro e he hphase
    rw [hlength]
    rw [h.onStart_eq hlen hnew] at he
    rcases List.mem_append.mp he with he | he
    · exact absurd (h.passed e he hphase) hlen
    · by_contra hlast
      rw [List.mem_singleton.mp he, if_neg hlast] at hphase
      exact hphase rfl
  · intro hset
    rw [h.onStart_eq hlen hnew] at hset
    exact absurd (hflag.symm.trans hset) Bool.false_ne_true
  · rw [hlength, h.onStart_eq hlen hnew]
    simp
  · intro p hp
    exact absurd (hdestroys ▸ hp) (hnone p)
  · intro e he hphase
    rw [h.onStart_eq hlen hnew] at he ⊢
    exact h.answered e he hphase
  · rw [hdestroys, h.onStart_eq hlen hnew]
    exact h.allStopped
  · rw [h.onStart_eq hlen hnew]
    exact h.finalizers

/-! ### A request to destroy -/

/-- Every port is stopped once this `/destroy` is counted. -/
def Completes (ports : List ℕ) (s : System) (port : ℕ) : Prop :=
  ∀ p ∈ ports, p ∈ s.destroyPorts ++ [port]

instance (ports : List ℕ) (s : System) (port : ℕ) : Decidable (Completes ports s port) :=
  inferInstanceAs (Decidable (∀ p ∈ ports, p ∈ s.destroyPorts ++ [port]))

theorem get_setInstance (h : Inv ports s) {port p : ℕ} (hp : p ∈ s.startPorts) :
    (s.controller.setInstance port .stopped).instances.get p =
      some (if p ∈ s.destroyPorts ++ [port] then .stopped else .started) := by
  simp only [LeaderController.setInstance, Dict.set]
  by_cases hpp : p = port
  · rw [hpp, Function.update_self, if_pos (List.mem_append_right _ (List.mem_singleton_self _))]
  · have hmem : p ∈ s.destroyPorts ++ [port] ↔ p ∈ s.destroyPorts := by simp [hpp]
    simp only [Function.update_of_ne hpp, h.state p hp, hmem]

theorem keys_setInstance (h : Inv ports s) {port : ℕ} (hport : port ∈ s.startPorts) :
    (s.controller.setInstance port .stopped).instances.keys = s.startPorts := by
  rw [← h.keys] at hport ⊢
  simp only [LeaderController.setInstance, Dict.set, hport, if_true]

theorem stopped_eq_iff (h : Inv ports s) {port : ℕ}
    (hport : port ∈ s.startPorts) (hlen : s.starts.length = ports.length) :
    (s.controller.setInstance port .stopped).stopped = ports.length ↔
      Completes ports s port := by
  have hperm : s.startPorts.Perm ports :=
    (h.nodup.subperm h.subset).perm_of_length_le (length_startPorts s ▸ hlen.ge)
  rw [LeaderController.stopped, LeaderController.count, h.keys_setInstance hport, ← hlen,
    ← length_startPorts, List.countP_eq_length]
  constructor
  · intro hall p hp
    have hget := of_decide_eq_true (hall p (hperm.mem_iff.mpr hp))
    rw [h.get_setInstance (hperm.mem_iff.mpr hp)] at hget
    by_contra hnot
    simp [hnot] at hget
  · intro hall p hp
    rw [decide_eq_true_eq, h.get_setInstance hp, if_pos (hall p (hperm.mem_iff.mp hp))]

/-- The first piece of `on_destroy`: it launches `finalize` if no instance is left. -/
theorem onDestroy_eq (h : Inv ports s) {port : ℕ}
    (hport : port ∈ s.startPorts) (hlen : s.starts.length = ports.length) :
    s.onDestroy port =
      { s with
        controller :=
          { s.controller.setInstance port .stopped with
            allStopped := s.controller.allStopped || decide (Completes ports s port) }
        destroys := s.destroys ++ [(port, .waiting)]
        finalizers := s.finalizers + if Completes ports s port then 1 else 0 } := by
  have hnbr : (s.controller.setInstance port .stopped).nbrInstances = ports.length := h.nbr
  rw [System.onDestroy, h.state port hport]
  simp only [hnbr, h.stopped_eq_iff hport hlen]
  by_cases hc : Completes ports s port
  · simp [hc]
  · simp [hc, LeaderController.setInstance, h.nbr]

theorem onDestroy (h : Inv ports s) {port : ℕ}
    (hport : (port, StartPhase.answered) ∈ s.starts) : Inv ports (s.onDestroy port) := by
  have hlen : s.starts.length = ports.length := h.passed _ hport (by simp)
  have hport : port ∈ s.startPorts := List.mem_map.mpr ⟨_, hport, rfl⟩
  have heq := h.onDestroy_eq hport hlen
  have hstarts : (s.onDestroy port).starts = s.starts := by rw [heq]
  have hports' : (s.onDestroy port).startPorts = s.startPorts := by
    rw [System.startPorts, hstarts, System.startPorts]
  have hdestroys : (s.onDestroy port).destroyPorts = s.destroyPorts ++ [port] := by
    simp [heq, System.destroyPorts]
  -- the flag stays set: who was stopped stays stopped
  have hstopped : (s.onDestroy port).controller.allStopped = true ↔ Completes ports s port := by
    rw [heq]
    simp only [Bool.or_eq_true, decide_eq_true_eq, or_iff_right_iff_imp]
    intro hset p hp
    exact List.mem_append_left _ ((h.allStopped.mp hset).2 p hp)
  refine ⟨?_, ?_, ?_, ?_, ?_, ?_, ?_, ?_, ?_, ?_, ?_, ?_⟩
  · rw [heq]
    exact h.nbr
  · rw [hports']
    exact h.nodup
  · rw [hports']
    exact h.subset
  · rw [hports', heq]
    exact h.keys_setInstance hport
  · intro p hp
    rw [hports'] at hp
    rw [hdestroys, heq]
    exact h.get_setInstance hp
  · rw [hstarts]
    exact h.passed
  · rw [hstarts, heq]
    exact h.allStarted
  · rw [hstarts, heq]
    exact h.networkRuns
  · intro p hp
    rw [hports', hstarts]
    rw [hdestroys] at hp
    rcases List.mem_append.mp hp with hp | hp
    · exact h.destroys p hp
    · exact ⟨List.mem_singleton.mp hp ▸ hport, hlen⟩
  · intro e he hphase
    rw [heq] at he ⊢
    rcases List.mem_append.mp he with he | he
    · simp [h.answered e he hphase]
    · rw [List.mem_singleton.mp he] at hphase
      cases hphase
  · rw [hstopped, hdestroys]
    refine ⟨fun hc => ⟨?_, hc⟩, fun hc => hc.2⟩
    rw [heq]
    simp
  · rw [hstopped, heq]
    by_cases hc : Completes ports s port
    · simp [hc]
    · have hnot : ¬0 < s.finalizers := fun hpos => hc fun p hp =>
        List.mem_append_left _ ((h.allStopped.mp (h.finalizers.mp hpos)).2 p hp)
      simp only [hc, if_false, add_zero, hnot]

/-! ### Resumed handlers -/

theorem map_fst_set {α β : Type} {l : List (α × β)} {k : ℕ} {a : α} {b b' : β}
    (hk : l[k]? = some (a, b)) : (l.set k (a, b')).map Prod.fst = l.map Prod.fst := by
  rw [List.map_set]
  apply List.ext_getElem?
  intro j
  by_cases hj : k = j
  · subst hj
    rw [List.getElem?_set_self', List.getElem?_map, hk]
    rfl
  · rw [List.getElem?_set_ne hj]

/-- Resuming a handler of `/start` changes neither the requests nor what `/destroy` looks at. -/
theorem resumeStart (h : Inv ports s) (k : ℕ) : Inv ports (s.resumeStart k) := by
  have advance : ∀ (port : ℕ) (phase phase' : StartPhase) (allStarted : Bool),
      s.starts[k]? = some (port, phase) → s.starts.length = ports.length →
      Inv ports
        { s with
          controller := { s.controller with allStarted := allStarted }
          starts := s.starts.set k (port, phase') } := by
    intro port phase phase' allStarted hk hlen
    have hports' : (s.starts.set k (port, phase')).map Prod.fst = s.startPorts := map_fst_set hk
    have hlen' : (s.starts.set k (port, phase')).length = ports.length := by
      rw [List.length_set, hlen]
    have hne : s.starts.set k (port, phase') ≠ [] ↔ s.starts ≠ [] := by simp
    refine ⟨h.nbr, ?_, ?_, ?_, ?_, fun _ _ _ => hlen', fun _ => hlen', ?_, ?_, h.answered,
      h.allStopped, h.finalizers⟩
    · rw [System.startPorts, hports']
      exact h.nodup
    · rw [System.startPorts, hports']
      exact h.subset
    · rw [System.startPorts, hports']
      exact h.keys
    · rw [System.startPorts, hports']
      exact h.state
    · simp only [hne, List.length_set]
      exact h.networkRuns
    · intro p hp
      rw [System.startPorts, hports']
      exact ⟨(h.destroys p hp).1, hlen'⟩
  rw [System.resumeStart]
  split
  · next port hk =>
    exact advance port _ _ true hk (h.passed _ (List.mem_of_getElem? hk) (by simp))
  · next port hk =>
    split
    · next hset => exact advance port _ _ _ hk (h.allStarted hset)
    · exact h
  · next port hk =>
    exact advance port _ _ _ hk (h.passed _ (List.mem_of_getElem? hk) (by simp))
  · exact h

theorem resumeDestroy (h : Inv ports s) (k : ℕ) : Inv ports (s.resumeDestroy k) := by
  rw [System.resumeDestroy]
  split
  · next port hk =>
    split
    · next hset =>
      have hdestroys : (s.destroys.set k (port, .answered)).map Prod.fst = s.destroyPorts :=
        map_fst_set hk
      have hne : s.destroys.set k (port, .answered) ≠ [] ↔ s.destroys ≠ [] := by simp
      refine ⟨h.nbr, h.nodup, h.subset, h.keys, ?_, h.passed, h.allStarted, h.networkRuns, ?_,
        fun _ _ _ => hset, ?_, h.finalizers⟩
      · rw [System.destroyPorts, hdestroys]
        exact h.state
      · rw [System.destroyPorts, hdestroys]
        exact h.destroys
      · rw [System.destroyPorts, hdestroys, hne]
        exact h.allStopped
    · exact h
  · exact h

/-! ### Whole runs -/

theorem step (h : Inv ports s) (hports : ports.Nodup) {e : Event} (he : Protocol ports s e) :
    Inv ports (s.step e) := by
  cases e with
  | start port => exact h.onStart hports he.1 he.2
  | destroy port => exact h.onDestroy he
  | resumeStart k => exact h.resumeStart k
  | resumeDestroy k => exact h.resumeDestroy k

theorem networkRuns_eq (h : Inv ports s) (hports : ports.Nodup) : s.networkRuns =
    if s.starts ≠ [] ∧ ∀ port ∈ ports, port ∈ s.startPorts then 1 else 0 := by
  simp only [h.networkRuns, h.complete_iff hports]

/-- The invariant leaves open only how often `finalize` is launched. -/
theorem barrier_iff_finalizers (h : Inv ports s) (hports : ports.Nodup) :
    Barrier ports s ↔ s.finalizers ≤ 1 := by
  refine ⟨fun hb => hb.finalize_once, fun hf => ⟨?_, h.networkRuns_eq hports, ?_, hf⟩⟩
  · intro e he hphase
    refine (h.complete_iff hports).mp (h.passed e he ?_)
    rcases hphase with hphase | hphase <;> simp [hphase]
  · intro e he hphase
    exact (h.allStopped.mp (h.answered e he hphase)).2

/-- A `/destroy` keeps the number of launches at one exactly if some port was still to send one. -/
theorem finalizers_onDestroy_iff (h : Inv ports s) {port : ℕ}
    (hport : (port, StartPhase.answered) ∈ s.starts) :
    (s.onDestroy port).finalizers ≤ 1 ↔
      s.finalizers ≤ 1 ∧ ∃ p ∈ ports, p ∉ s.destroyPorts := by
  have hlen : s.starts.length = ports.length := h.passed _ hport (by simp)
  have hport : port ∈ s.startPorts := List.mem_map.mpr ⟨_, hport, rfl⟩
  have heq : (s.onDestroy port).finalizers =
      s.finalizers + if Completes ports s port then 1 else 0 := by
    rw [h.onDestroy_eq hport hlen]
  rw [heq]
  by_cases hall : ∀ p ∈ ports, p ∈ s.destroyPorts
  · -- all were stopped before: `finalize` is launched once more
    have hmem : port ∈ s.destroyPorts := hall port (h.subset hport)
    have hset : s.controller.allStopped = true :=
      h.allStopped.mpr ⟨fun hnil => by simp [System.destroyPorts, hnil] at hmem, hall⟩
    have hpos : 0 < s.finalizers := h.finalizers.mpr hset
    have hc : Completes ports s port := fun p hp => List.mem_append_left _ (hall p hp)
    rw [if_pos hc]
    refine ⟨fun hle => absurd hle (by omega), ?_⟩
    rintro ⟨-, p, hp, hnot⟩
    exact absurd (hall p hp) hnot
  · have hzero : s.finalizers = 0 := by
      by_contra hpos
      exact hall (h.allStopped.mp (h.finalizers.mp (Nat.pos_of_ne_zero hpos))).2
    have hle : (if Completes ports s port then 1 else 0) ≤ 1 := by split <;> omega
    rw [hzero, zero_add]
    refine ⟨fun _ => ⟨Nat.zero_le 1, ?_⟩, fun _ => hle⟩
    simpa using hall

theorem resumeStart_finalizers (s : System) (k : ℕ) :
    (s.resumeStart k).finalizers = s.finalizers := by
  rw [System.resumeStart]
  split
  · rfl
  · split <;> rfl
  · rfl
  · rfl

theorem resumeDestroy_finalizers (s : System) (k : ℕ) :
    (s.resumeDestroy k).finalizers = s.finalizers := by
  rw [System.resumeDestroy]
  split
  · split <;> rfl
  · rfl

/-- A step keeps the number of launches at one exactly if it is no `/destroy` after the last
port's. -/
theorem finalizers_step_iff (h : Inv ports s) (hports : ports.Nodup) {e : Event}
    (he : Protocol ports s e) :
    (s.step e).finalizers ≤ 1 ↔ s.finalizers ≤ 1 ∧ StillRunning ports s e := by
  cases e with
  | start port =>
    have hframe : (s.onStart port).finalizers = s.finalizers := by
      rw [h.onStart_eq (h.length_ne_of_new hports he.1 he.2) he.2]
    simp [System.step, hframe, StillRunning]
  | destroy port => exact h.finalizers_onDestroy_iff he
  | resumeStart k => simp [System.step, resumeStart_finalizers, StillRunning]
  | resumeDestroy k => simp [System.step, resumeDestroy_finalizers, StillRunning]

end Inv

/-- **The leader's barrier.** In every interleaving the answers are held back as they should
be and the network is run once; `finalize` is launched at most once, and with it the whole
property holds, exactly if no `/destroy` comes when all ports have sent one. -/
theorem barrier_iff (ports : List ℕ) (hports : ports.Nodup) (es : List Event)
    (hes : EveryStep System.step (Protocol ports) (System.init ports.length) es) :
    Barrier ports (run System.step (System.init ports.length) es) ↔
      EveryStep System.step (StillRunning ports) (System.init ports.length) es := by
  have hinv : Inv ports (run System.step (System.init ports.length) es) :=
    hes.invariant (Inv.init ports) fun t e h he => h.step hports he
  have hledger := run_iff_everyStep (P := fun s : System => s.finalizers ≤ 1) hes
    (Inv.init ports) (fun t e h he => h.step hports he)
    (fun t e h he => h.finalizers_step_iff hports he)
  rw [hinv.barrier_iff_finalizers hports, hledger]
  exact and_iff_right (Nat.zero_le 1)

/-- Two instances, one of which sends `/destroy` twice before the other one does. -/
def impatient : List Event :=
  [.start 6121, .resumeStart 0, .start 6122, .resumeStart 0, .resumeStart 1, .resumeStart 0,
    .resumeStart 0, .resumeStart 1, .resumeStart 1, .destroy 6121, .destroy 6121, .destroy 6122,
    .resumeDestroy 2]

theorem barrier_impatient :
    EveryStep System.step (StillRunning [6121, 6122]) (System.init 2) impatient ∧
      Barrier [6121, 6122] (run System.step (System.init 2) impatient) :=
  have h : EveryStep System.step (StillRunning [6121, 6122]) (System.init 2) impatient := by
    decide
  ⟨h, (barrier_iff [6121, 6122] (by decide) impatient (by decide)).mpr h⟩

/-- The same run with one more `/destroy` of a port that has been answered. -/
theorem finalize_twice :
    EveryStep System.step (Protocol [6121, 6122]) (System.init 2)
        (impatient ++ [.destroy 6122]) ∧
      (run System.step (System.init 2) (impatient ++ [.destroy 6122])).finalizers = 2 ∧
      ¬Barrier [6121, 6122] (run System.step (System.init 2) (impatient ++ [.destroy 6122])) := by
  have htwo : (run System.step (System.init 2) (impatient ++ [.destroy 6122])).finalizers = 2 := by
    decide
  refine ⟨by decide, htwo, fun hb => ?_⟩
  have hone := hb.finalize_once
  omega

end Leader
end Exp
end LiveStream
