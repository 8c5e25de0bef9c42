import LiveStream.Lib.Run

/-!
# The pool of long-polling requests

`RequestController` of `controller/request.ts` with the two handlers `server_side.ts` gives
it. The controller counts the requests it believes outstanding in `current` and tops the
pool up from the success callback only. A request that ends in another way never returns
its slot.

* `request_invariant` and `request_done`, the rule of the loop in `_request`;
* `Inv` and `inv_run`, the accounting of slots over every run;
* `live_length`, how many requests are outstanding after any run;
* `pool_full_iff`, when the pool stays full.
-/

namespace LiveStream
namespace Dash

open Lib

/-- The controller, and the requests as the browser sees them. -/
structure RequestController where
  current : ℤ
  pool : ℕ
  index : ℕ
  maxIndex : ℕ
  /-- Indices for which a piece and a resource request were sent, in order. -/
  sent : List ℕ
  /-- Resource requests that have not ended. -/
  live : List ℕ
  /-- How many resource requests have ended. -/
  finished : ℕ
  /-- How many of them ended without the success callback running to its end. -/
  lost : ℕ

namespace RequestController

/-- `_request` goes on while there is a free slot and an index left. -/
def CanIssue (c : RequestController) : Prop := c.current < c.pool ∧ c.index < c.maxIndex

instance (c : RequestController) : Decidable c.CanIssue := inferInstanceAs (Decidable (_ ∧ _))

/-- One round of `_request`: the requests for the next index are sent. -/
def issue (c : RequestController) : RequestController :=
  { c with
    current := c.current + 1
    index := c.index + 1
    sent := c.sent ++ [c.index + 1]
    live := c.live ++ [c.index + 1] }

/-- `_request`, which calls itself after every pair of requests it sends. -/
def request (c : RequestController) : RequestController :=
  if c.CanIssue then request c.issue else c
termination_by c.maxIndex - c.index
decreasing_by
  next h =>
    have hlt := h.2
    show c.maxIndex - (c.index + 1) < c.maxIndex - c.index
    omega

/-- The constructed controller after `start()`. -/
def start (pool maxIndex : ℕ) : RequestController :=
  request ⟨0, pool, 0, maxIndex, [], [], 0, 0⟩

/-- How an outstanding resource request ends. -/
inductive Event where
  /-- `onload` with status 200, where `getQuality(index)` returns `quality`. -/
  | success (index : ℕ) (quality : Option ℤ)
  /-- `onload` with another status, or `onerror`. -/
  | fail (index : ℕ)
  /-- `xhr.abort()`. -/
  | abort (index : ℕ)

def Event.index : Event → ℕ
  | .success index _ => index
  | .fail index => index
  | .abort index => index

/-- The request that ended is no longer outstanding. -/
def finish (c : RequestController) (index : ℕ) : RequestController :=
  { c with live := c.live.erase index, finished := c.finished + 1 }

/-- The end of a request whose callback does not get to the refill. -/
def lose (c : RequestController) (index : ℕ) : RequestController :=
  { c.finish index with lost := c.lost + 1 }

/-- The end of a request whose success callback gives its slot back. -/
def release (c : RequestController) (index : ℕ) : RequestController :=
  { c.finish index with current := c.current - 1 }

def step (c : RequestController) : Event → RequestController
  -- onResourceSuccess throws on a missing quality, before the counter is decremented
  | .success index none => c.lose index
  | .success index (some _) => (c.release index).request
  -- onFail throws, and onAbort only calls the handler
  | .fail index => c.lose index
  | .abort index => c.lose index

/-- The request of the event is outstanding. -/
def Ends (c : RequestController) (e : Event) : Prop := e.index ∈ c.live

/-- The event does not return its slot. -/
def Event.Loses : Event → Prop
  | .success _ (some _) => False
  | .success _ none | .fail _ | .abort _ => True

theorem step_of_loses (c : RequestController) {e : Event} (h : e.Loses) :
    c.step e = c.lose e.index := by
  rcases e with ⟨i, _ | q⟩ | i | i
  · rfl
  · exact h.elim
  · rfl
  · rfl

theorem step_of_not_loses (c : RequestController) {e : Event} (h : ¬e.Loses) :
    c.step e = (c.release e.index).request := by
  rcases e with ⟨i, _ | q⟩ | i | i
  · exact absurd trivial h
  · rfl
  · exact absurd trivial h
  · exact absurd trivial h

/-! ## The loop -/

/-- **Loop rule.** What a round of `_request` keeps, `_request` keeps. -/
theorem request_invariant {P : RequestController → Prop}
    (hissue : ∀ c, P c → c.CanIssue → P c.issue) (c : RequestController) (h : P c) :
    P c.request := by
  fun_induction request c with
  | case1 c hcan ih => exact ih (hissue c h hcan)
  | case2 c hcan => exact h

theorem request_done (c : RequestController) : ¬c.request.CanIssue := by
  fun_induction request c with
  | case1 c hcan ih => exact ih
  | case2 c hcan => exact hcan

/-! ## The accounting of slots -/

/-- What holds also in the middle of `_request`, for a pool of `pool` and a video of
`maxIndex` segments. -/
structure Accounts (pool maxIndex : ℕ) (c : RequestController) : Prop where
  pool_eq : c.pool = pool
  maxIndex_eq : c.maxIndex = maxIndex
  /-- Indices are requested once each and in order. -/
  sent_eq : c.sent = List.range' 1 c.index
  /-- A requested index is outstanding or finished. -/
  live_add_finished : c.live.length + c.finished = c.index
  /-- A slot the controller believes taken is outstanding or lost. -/
  live_add_lost : (c.live.length + c.lost : ℤ) = c.current
  current_le : c.current ≤ pool
  index_le : c.index ≤ maxIndex

/-- What holds between events: the controller sees no free slot, or no index is left. -/
structure Inv (pool maxIndex : ℕ) (c : RequestController) : Prop
    extends Accounts pool maxIndex c where
  saturated : c.current = pool ∨ c.index = maxIndex

variable {pool maxIndex : ℕ} {c : RequestController}

theorem Accounts.issue (h : Accounts pool maxIndex c) (hcan : c.CanIssue) :
    Accounts pool maxIndex c.issue where
  pool_eq := h.pool_eq
  maxIndex_eq := h.maxIndex_eq
  sent_eq := by
    show c.sent ++ [c.index + 1] = List.range' 1 (c.index + 1)
    rw [List.range'_1_concat, h.sent_eq, add_comm 1 c.index]
  live_add_finished := by
    show (c.live ++ [c.index + 1]).length + c.finished = c.index + 1
    have hlive := h.live_add_finished
    rw [List.length_append, List.length_singleton]
    omega
  live_add_lost := by
    show ((c.live ++ [c.index + 1]).length + c.lost : ℤ) = c.current + 1
    have hlive := h.live_add_lost
    rw [List.length_append, List.length_singleton]
    omega
  current_le := by
    show c.current + 1 ≤ pool
    have hslot := hcan.1
    rw [h.pool_eq] at hslot
    omega
  index_le := by
    show c.index + 1 ≤ maxIndex
    have hleft := hcan.2
    rw [h.maxIndex_eq] at hleft
    omega

/-- `_request` leaves the controller saturated. -/
theorem Accounts.request (h : Accounts pool maxIndex c) : Inv pool maxIndex c.request := by
  have haccounts : Accounts pool maxIndex c.request :=
    request_invariant (fun _ hc hcan => hc.issue hcan) c h
  refine ⟨haccounts, ?_⟩
  have hdone := request_done c
  have hcurrent := haccounts.current_le
  have hindex := haccounts.index_le
  rw [CanIssue, haccounts.pool_eq, haccounts.maxIndex_eq] at hdone
  omega

theorem inv_start (pool maxIndex : ℕ) : Inv pool maxIndex (start pool maxIndex) := by
  apply Accounts.request
  exact ⟨rfl, rfl, rfl, rfl, rfl, Int.natCast_nonneg pool, Nat.zero_le maxIndex⟩

/-- The end of an outstanding request takes it off the list. -/
theorem length_finish {i : ℕ} (hi : i ∈ c.live) : (c.finish i).live.length + 1 = c.live.length := by
  have hpos : 0 < c.live.length := List.length_pos_of_mem hi
  show (c.live.erase i).length + 1 = c.live.length
  rw [List.length_erase_of_mem hi]
  omega

theorem Inv.step (h : Inv pool maxIndex c) {e : Event} (he : c.Ends e) :
    Inv pool maxIndex (c.step e) := by
  have hlength := length_finish he
  have hfinished := h.live_add_finished
  have hlost := h.live_add_lost
  have hcurrent := h.current_le
  by_cases hl : e.Loses
  · -- the slot moves from outstanding to lost
    rw [step_of_loses c hl]
    refine ⟨⟨h.pool_eq, h.maxIndex_eq, h.sent_eq, ?_, ?_, hcurrent, h.index_le⟩, h.saturated⟩
    · show (c.finish e.index).live.length + (c.finished + 1) = c.index
      omega
    · show ((c.finish e.index).live.length + ((c.lost + 1 : ℕ) : ℤ)) = c.current
      push_cast
      omega
  · rw [step_of_not_loses c hl]
    apply Accounts.request
    refine ⟨h.pool_eq, h.maxIndex_eq, h.sent_eq, ?_, ?_, ?_, h.index_le⟩
    · show (c.finish e.index).live.length + (c.finished + 1) = c.index
      omega
    · show ((c.finish e.index).live.length + c.lost : ℤ) = c.current - 1
      omega
    · show c.current - 1 ≤ pool
      omega

/-- Every run in which each request ends once keeps the accounts. -/
theorem inv_run {es : List Event}
    (h : EveryStep RequestController.step Ends (start pool maxIndex) es) :
    Inv pool maxIndex (run RequestController.step (start pool maxIndex) es) :=
  h.invariant (inv_start pool maxIndex) fun _ _ ht he => ht.step he

/-- **How many requests are outstanding.** Every lost request takes its slot with it. -/
theorem Inv.live_length (h : Inv pool maxIndex c) :
    c.live.length = min (pool - c.lost) (maxIndex - c.finished) := by
  have hfinished := h.live_add_finished
  have hlost := h.live_add_lost
  have hcurrent := h.current_le
  have hindex := h.index_le
  have hsaturated := h.saturated
  omega

/-! ## When the pool stays full -/

/-- As many requests are outstanding as the pool and the rest of the video allow. -/
def Full (c : RequestController) : Prop := c.live.length = min c.pool (c.maxIndex - c.finished)

/-- Between events, the pool is full if nothing was lost or no index is left. -/
theorem Inv.full_iff (h : Inv pool maxIndex c) : c.Full ↔ c.lost = 0 ∨ c.index = maxIndex := by
  have hfinished := h.live_add_finished
  have hlost := h.live_add_lost
  have hcurrent := h.current_le
  have hindex := h.index_le
  have hsaturated := h.saturated
  rw [Full, h.pool_eq, h.maxIndex_eq]
  omega

/-- A request is lost only once every index has been requested. -/
def LosesLate (c : RequestController) (e : Event) : Prop := e.Loses → c.index = c.maxIndex

theorem request_lost (c : RequestController) : c.request.lost = c.lost :=
  request_invariant (P := fun d => d.lost = c.lost) (fun _ hd _ => hd) c rfl

theorem le_request_index (c : RequestController) : c.index ≤ c.request.index := by
  apply request_invariant (P := fun d => c.index ≤ d.index) (fun d hd _ => ?_) c (le_refl _)
  exact hd.trans (Nat.le_succ d.index)

theorem Inv.full_step (h : Inv pool maxIndex c) {e : Event} (he : c.Ends e) (hlate : c.LosesLate e)
    (hfull : c.Full) : (c.step e).Full := by
  have hinv := h.step he
  rw [hinv.full_iff]
  rw [h.full_iff] at hfull
  by_cases hl : e.Loses
  · right
    rw [step_of_loses c hl]
    exact (hlate hl).trans h.maxIndex_eq
  · rw [step_of_not_loses c hl] at hinv ⊢
    rcases hfull with hlost | hindex
    · left
      exact (request_lost _).trans hlost
    · right
      have hle : c.index ≤ (c.release e.index).request.index :=
        le_request_index (c.release e.index)
      have hmax := hinv.index_le
      omega

/-- Conversely, an early loss leaves a slot empty. -/
theorem Inv.losesLate_of_full_step (h : Inv pool maxIndex c) {e : Event} (he : c.Ends e)
    (hfull : (c.step e).Full) : c.LosesLate e := by
  intro hl
  rw [(h.step he).full_iff, step_of_loses c hl] at hfull
  rcases hfull with hlost | hindex
  · exact absurd hlost (Nat.succ_ne_zero _)
  · exact hindex.trans h.maxIndex_eq.symm

/-- A run that loses requests only late ends with a full pool. -/
theorem full_run {es : List Event}
    (hends : EveryStep RequestController.step Ends (start pool maxIndex) es)
    (hlate : EveryStep RequestController.step LosesLate (start pool maxIndex) es) :
    (run RequestController.step (start pool maxIndex) es).Full := by
  have hstart : (start pool maxIndex).Full := by
    rw [(inv_start pool maxIndex).full_iff]
    left
    exact request_lost _
  have hkept : Inv pool maxIndex (run RequestController.step (start pool maxIndex) es) ∧
      (run RequestController.step (start pool maxIndex) es).Full :=
    (hends.and hlate).invariant (P := fun c => Inv pool maxIndex c ∧ c.Full)
      ⟨inv_start pool maxIndex, hstart⟩
      fun c e hc he => ⟨hc.1.step he.1, hc.1.full_step he.1 he.2 hc.2⟩
  exact hkept.2

/-- **When the pool stays full.** In every run in which each request ends once, indices are
requested once each and in order, and at most `pool` requests are outstanding. The pool is
full after every event exactly when no request is lost while indices are left. -/
theorem pool_full_iff (pool maxIndex : ℕ) (es : List Event)
    (hends : EveryStep step Ends (start pool maxIndex) es) :
    (∀ fs, fs <+: es →
      let c := run step (start pool maxIndex) fs
      c.sent = List.range' 1 c.index ∧ c.index ≤ maxIndex ∧ c.live.length ≤ pool) ∧
    ((∀ fs, fs <+: es →
      let c := run step (start pool maxIndex) fs
      c.live.length = min pool (maxIndex - c.finished)) ↔
      EveryStep step LosesLate (start pool maxIndex) es) := by
  have hinv : ∀ fs, fs <+: es → Inv pool maxIndex (run step (start pool maxIndex) fs) := by
    rintro fs ⟨gs, rfl⟩
    exact inv_run (everyStep_append.mp hends).1
  have hfull : ∀ fs, fs <+: es → ((run step (start pool maxIndex) fs).Full ↔
      (run step (start pool maxIndex) fs).live.length =
        min pool (maxIndex - (run step (start pool maxIndex) fs).finished)) := by
    intro fs hfs
    rw [Full, (hinv fs hfs).pool_eq, (hinv fs hfs).maxIndex_eq]
  refine ⟨fun fs hfs => ?_, ?_, ?_⟩
  · have h := hinv fs hfs
    have hlive := h.live_length
    exact ⟨h.sent_eq, h.index_le, by omega⟩
  · -- after the first early loss the pool is not full
    intro hall
    by_contra hlate
    obtain ⟨pre, e, post, rfl, hearly⟩ := exists_split_of_not_everyStep hlate
    have hconcat : pre ++ [e] <+: pre ++ e :: post := ⟨post, by simp⟩
    have hstep := (hfull _ hconcat).mpr (hall _ hconcat)
    rw [run_concat] at hstep
    have he : (run step (start pool maxIndex) pre).Ends e := (everyStep_append.mp hends).2.1
    exact hearly ((hinv pre (List.prefix_append _ _)).losesLate_of_full_step he hstep)
  · intro hlate fs hfs
    rw [← hfull fs hfs]
    obtain ⟨gs, rfl⟩ := hfs
    exact full_run (everyStep_append.mp hends).1 (everyStep_append.mp hlate).1

/-- The second of three segments is abandoned when the third has been requested. -/
theorem pool_full_late_abort :
    EveryStep step Ends (start 2 3) [.success 1 (some 0), .abort 2] ∧
      ∀ fs, fs <+: [.success 1 (some 0), .abort 2] →
        let c := run step (start 2 3) fs
        c.live.length = min 2 (3 - c.finished) := by
  have hends : EveryStep step Ends (start 2 3) [.success 1 (some 0), .abort 2] := by
    simp [EveryStep, Ends, Event.index, step, start, request, CanIssue, issue, release, finish]
  have hlate : EveryStep step LosesLate (start 2 3) [.success 1 (some 0), .abort 2] := by
    simp [EveryStep, LosesLate, Event.Loses, step, start, request, CanIssue, issue, release,
      finish]
  exact ⟨hends, (pool_full_iff 2 3 _ hends).2.mpr hlate⟩

/-- The first segments arrive; then the buffer runs low and segment 7 is abandoned. -/
def abandoned : List Event :=
  [.success 1 (some 0), .success 2 (some 1), .success 3 (some 1), .success 4 (some 2),
    .success 5 (some 2), .success 6 (some 3), .abort 7]

/-- With a pool of 5 and 60 segments, 4 requests are outstanding after the abort. -/
theorem pool_shrinks :
    let c := run step (start 5 60) abandoned
    EveryStep step Ends (start 5 60) abandoned ∧ c.live.length = 4 ∧
      min 5 (60 - c.finished) = 5 := by
  simp [abandoned, EveryStep, Ends, Event.index, step, start, request, CanIssue, issue, release,
    lose, finish]

end RequestController

end Dash
end LiveStream
