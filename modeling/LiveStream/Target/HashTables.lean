import LiveStream.Lib.HashTable
import LiveStream.Target.PlannerTheorems

/-!
# The planner over its hash tables

`qoe` once more, this time with `dp`, `curr_states` and `next_states` as the hash tables they are.
Their equality looks at the segment and the buffer of a state, their hash function at the quality
as well, so which states share an entry is up to the library. `Containers` is what the library
chooses. A subscript of `dp` with a missing key makes an entry.

* `State.hash`, and `hash_eq_iff`: the hash codes of equal states differ with their qualities;
* `Hashed.qoe`, the function, and `Hashed.keysUsed`, every key it hands to one of the tables.
-/

namespace LiveStream
namespace Target

open Lib

/-! ## The hash function -/

/-- One line of the hash function: `std::hash<int>` is the conversion to the 64 bits of `size_t`. -/
def hashCombine (seed : BitVec 64) (field : ℤ) : BitVec 64 :=
  seed ^^^ (BitVec.ofInt 64 field + 0x9e3779b9#64 + (seed <<< 6) + (seed >>> 2))

/-- The lambda `hash`. -/
def State.hash (s : State) : BitVec 64 :=
  let seed := hashCombine 0 s.segment
  let seed := hashCombine seed s.buffer
  hashCombine seed s.quality

theorem State.eq_self (s : State) : s.eq s = true := by
  simp [State.eq]

/-- What the three tables are made with. -/
def stateHasher : Hasher State := ⟨fun s => s.hash.toNat, State.eq, State.eq_self⟩

theorem State.eq_iff {s t : State} :
    s.eq t = true ↔ s.segment = t.segment ∧ s.buffer = t.buffer := by
  simp [State.eq]

/-- Equal states of the same quality are the same. -/
theorem State.eq_of_quality_eq {s t : State} (h : s.eq t = true)
    (hquality : s.quality = t.quality) :
    s = t := by
  obtain ⟨hsegment, hbuffer⟩ := State.eq_iff.mp h
  cases s
  cases t
  simp_all only

/-- A line loses nothing of the field it mixes in. -/
theorem hashCombine_inj {seed : BitVec 64} {x y : ℤ} :
    hashCombine seed x = hashCombine seed y ↔ BitVec.ofInt 64 x = BitVec.ofInt 64 y := by
  simp only [hashCombine, BitVec.xor_right_inj, BitVec.add_left_inj]

/-- The hash codes of equal states are equal only if the qualities are, as `size_t`. -/
theorem hash_eq_iff {s t : State} (h : s.eq t = true) :
    stateHasher.hash s = stateHasher.hash t ↔
      BitVec.ofInt 64 s.quality = BitVec.ofInt 64 t.quality := by
  obtain ⟨hsegment, hbuffer⟩ := State.eq_iff.mp h
  show s.hash.toNat = t.hash.toNat ↔ _
  rw [← BitVec.toNat_eq, State.hash, State.hash, hsegment, hbuffer]
  exact hashCombine_inj

/-- Equality and hash code together tell states apart whose qualities fit a `size_t`. -/
theorem eq_of_hash_eq {s t : State} (h : s.eq t = true)
    (hhash : stateHasher.hash s = stateHasher.hash t) (hs : 0 ≤ s.quality ∧ s.quality < 2 ^ 64)
    (ht : 0 ≤ t.quality ∧ t.quality < 2 ^ 64) : s = t := by
  have hword := congrArg BitVec.toNat ((hash_eq_iff h).mp hhash)
  rw [BitVec.toNat_ofInt, BitVec.toNat_ofInt] at hword
  apply State.eq_of_quality_eq h
  omega

/-! ## The tables -/

/-- What the library chooses: the layouts of the map and of the sets, the order in which a set is
traversed, and what is found in the two fields that `value_t()` does not set. -/
structure Containers where
  dp : Layout State
  states : Layout State
  order : IterationOrder
  unsetQoe : ℤ
  unsetVmaf : ℤ

/-- A library whose tables have `n` buckets. -/
def Containers.fixed (n : ℕ) : Containers :=
  ⟨.fixed n, .fixed n, .insertion, 0, 0⟩

/-- `value_t()`. -/
def Containers.blank (c : Containers) : Value := ⟨c.unsetQoe, c.unsetVmaf, State.null⟩

namespace Planner

/-- The variables of the search, and every key handed to a table so far. -/
structure HashSearch where
  dp : Table State Value
  states : List State
  maxSegment : ℤ
  used : List State

namespace HashSearch

/-- The keys `ks` are handed to a table. -/
def uses (t : HashSearch) (ks : List State) : HashSearch := { t with used := t.used ++ ks }

variable (c : Containers) (t : HashSearch)

/-- `dp.find(k) != dp.end()`. -/
def find (k : State) : Bool × HashSearch := (t.dp.contains stateHasher c.dp k, t.uses [k])

/-- `dp[k]`. -/
def subscript (k : State) : Value × HashSearch :=
  (t.dp.read stateHasher c.dp k c.blank,
    { t.uses [k] with dp := t.dp.touch stateHasher c.dp k c.blank })

/-- `dp[k] = v`. -/
def assign (k : State) (v : Value) : HashSearch :=
  { t.uses [k] with dp := t.dp.assign stateHasher c.dp k v }

/-- `next_states.insert(k)`. -/
def insertState (k : State) : HashSearch :=
  { t.uses [k] with states := c.states.insertKey stateHasher t.states k }

/-- `dp.find(next) == dp.end() || dp[next].qoe < qoe`. -/
def betters (next : State) (qoe : ℚ) : Bool × HashSearch :=
  let (found, t) := t.find c next
  if found then
    let (value, t) := t.subscript c next
    (decide ((value.qoe : ℚ) < qoe), t)
  else (true, t)

/-- The update of `dp`, `next_states` and `max_segment` that follows. -/
def improve (next : State) (v : Value) (segment : ℤ) : HashSearch :=
  let t := t.assign c next v
  let t := t.insertState c next
  { t with maxSegment := max t.maxSegment segment }

end HashSearch

namespace Hashed

variable (p : Planner) (bandwidth : ℚ) (c : Containers)

def start : HashSearch :=
  let t : HashSearch := ⟨Table.empty, [], 0, []⟩
  let t := t.assign c p.startState ⟨0, p.video.vmaf p.currentQuality p.lastIndex, State.null⟩
  t.insertState c p.startState

/-- The body of the two inner loops. The entry of the state it starts from is read twice. -/
def relaxEdge (currentIndex : ℤ) (t : HashSearch) (edge : State × ℤ) : HashSearch :=
  let next := p.nextState bandwidth currentIndex edge.1 edge.2
  let currentVmaf := p.video.vmaf edge.2 (currentIndex + 1)
  let (value, t) := t.subscript c edge.1
  let lastVmaf := value.vmaf
  let (value, t) := t.subscript c edge.1
  let qoe := value.qoe + p.nextQoe bandwidth currentIndex lastVmaf edge.1 edge.2
  let (better, t) := t.betters c next qoe
  if better then t.improve c next ⟨truncate qoe, currentVmaf, edge.1⟩ (currentIndex + 1) else t

/-- One iteration of the outer loop; `next_states` starts empty, and the copy to `curr_states` at
the end has the same nodes. -/
def round (t : HashSearch) (currentIndex : ℤ) : HashSearch :=
  if ((p.video.track 0).length : ℤ) ≤ currentIndex + 2 then t
  else
    (c.order.visit currentIndex t.states).foldl
      (fun t s => (p.qualities s).foldl
        (fun t q => relaxEdge p bandwidth c currentIndex t (s, q)) t)
      { t with states := [] }

def search : HashSearch :=
  (List.range (TargetAbrConstants.horizon + 1)).foldl
    (fun t (i : ℕ) => round p bandwidth c t (p.lastIndex + i)) (start p c)

/-- One candidate for the best last state. -/
def pick (r : State × HashSearch) (cand : State) : State × HashSearch :=
  let (best, t) := r
  let (found, t) := t.find c cand
  if found then
    if best.eq State.null then (cand, t)
    else
      let (candValue, t) := t.subscript c cand
      let (bestValue, t) := t.subscript c best
      if bestValue.qoe ≤ candValue.qoe then (cand, t) else (best, t)
  else (best, t)

def bestState (t : HashSearch) : State × HashSearch :=
  (List.range (maxBuffer + 1)).foldl
    (fun r (buffer : ℕ) => (List.range p.video.segments.length).foldl
      (fun r (q : ℕ) => pick c r ⟨t.maxSegment, buffer, q⟩) r)
    (State.null, t)

/-- The `while` loop that follows the table back. -/
def walk : ℕ → State → HashSearch → Option (List State) × HashSearch
  | 0, _, t => (none, t)
  | fuel + 1, s, t =>
    if s.eq State.null then (some [], t)
    else
      let (value, t) := t.subscript c s
      let (path, t) := walk fuel value.fromState t
      (path.map (s :: ·), t)

/-- `states.size() > 1 ? states[1] : states[0]`. -/
def firstState (states : List State) : Option State :=
  if 1 < states.length then states[1]? else states[0]?

/-- The end of `qoe`. The two log lines subscript `dp` as well. -/
def answer (best first : State) (t : HashSearch) : (ℤ × ℤ) × HashSearch :=
  let (_, t) := t.subscript c first
  let (_, t) := t.subscript c best
  let (value, t) := t.subscript c best
  ((value.qoe, first.quality), t)

/-- `qoe(bandwidth)`, with the tables it leaves. -/
def qoe : Option (ℤ × ℤ) × HashSearch :=
  let (best, t) := bestState p c (search p bandwidth c)
  if best.eq State.null then (some (0, p.currentQuality), t)
  else
    let (path, t) := walk c walkFuel best t
    match path.bind fun path => firstState path.reverse with
    | none => (none, t)
    | some first =>
      let (result, t) := answer c best first t
      (some result, t)

/-- The keys of `dp`, `curr_states` and `next_states` that a call uses. -/
def keysUsed : List State := (qoe p bandwidth c).2.used

end Hashed

end Planner

end Target
end LiveStream
