import LiveStream.Dash.Bypass
import LiveStream.Dash.QualityController
import LiveStream.Dash.RequestPool

/-!
# The rule that abandons a segment

`ServerSideRuleClass` of `component/abr.js`, over the quality controller, the pool of requests and
the interceptor it reaches into. When the buffer runs low while segment `index` is loaded, the rule
aborts the backend's request for `index + 1`, lets the player's own request for it through and asks
for the lowest quality. An aborted request does not return its slot to the pool, so each recovery
leaves one request less in flight.

* `shouldAbandon_cases`, a call leaves the recoveries alone or adds one;
* `Inv.step` and `inv_run`, where recoveries happen and what each of them costs;
* `recoveries_run`, the recoveries of every run;
* `starved`, after as many recoveries as the pool has slots nothing is requested any more.
-/

namespace LiveStream
namespace Dash

open Lib

namespace RequestController

/-- Slots that are lost stay lost. -/
theorem lost_le_step (c : RequestController) (e : Event) : c.lost ≤ (c.step e).lost := by
  by_cases hloses : e.Loses
  · rw [c.step_of_loses hloses]
    exact Nat.le_succ c.lost
  · rw [c.step_of_not_loses hloses, request_lost]
    exact le_refl c.lost

end RequestController

inductive Priority where
  | default
  | strong
deriving DecidableEq

/-- A `SwitchRequest`; its quality is `none` for `NO_CHANGE` and for `undefined`. -/
structure SwitchRequest where
  quality : Option ℤ
  reason : Option String
  priority : Priority
deriving DecidableEq

/-- `SwitchRequest(factoryCtx).create()`. -/
def SwitchRequest.create : SwitchRequest := ⟨none, none, .default⟩

/-- The rule, with the components it reads from `window`. -/
structure ServerSideRule (X C : Type*) where
  qualityController : QualityController
  requestController : RequestController
  interceptor : Interceptor X C
  rebuffers : List ℕ
  lastRecoveryIndex : ℕ
  /-- The values `lastRecoveryIndex` was given: for each of them the request of the segment after
  it was aborted. -/
  recovered : List ℕ

namespace ServerSideRule

variable {X C : Type*}

def recoveryCooldown : ℕ := 2
def minIndex : ℕ := 5
def minBufferLevel : ℚ := 3500

/-- The rule when the player starts. -/
def start (pool maxIndex : ℕ) : ServerSideRule X C :=
  ⟨.init, .start pool maxIndex, .init, [], 0, []⟩

def getMaxIndex (r : ServerSideRule X C) (current : ℤ) (added : List Decision) :
    ServerSideRule X C × SwitchRequest :=
  let answer := r.qualityController.getQuality none (some current) added
  ({ r with qualityController := answer.1 },
    if some current = answer.2 then .create else ⟨answer.2, some "New rate received", .strong⟩)

/-- The newest of the player's buffer levels, in milliseconds. -/
def bufferLevel (levels : List ℚ) : ℚ := levels.getLast?.getD 10000

/-- The buffer is below the limit and the start is over; the segment was not tried before, is not
too close to the last recovery, and is not the last one. -/
def Detects (videoLength : ℕ) (r : ServerSideRule X C) (index : ℕ) (level : ℚ) : Prop :=
  level < minBufferLevel ∧ minIndex ≤ index ∧ index ∉ r.rebuffers ∧
    r.lastRecoveryIndex + recoveryCooldown < index ∧ index + 1 < videoLength

instance (videoLength : ℕ) (r : ServerSideRule X C) (index : ℕ) (level : ℚ) :
    Decidable (r.Detects videoLength index level) :=
  inferInstanceAs (Decidable (_ ∧ _ ∧ _ ∧ _ ∧ _))

/-- `readyState != 4` for a request that was sent: it has not ended, or `abort` has reset it. -/
def Unfinished (r : ServerSideRule X C) (index : ℕ) : Prop :=
  index ∈ r.requestController.live ∨ index ∈ r.recovered.map (· + 1)

instance (r : ServerSideRule X C) (index : ℕ) : Decidable (r.Unfinished index) :=
  inferInstanceAs (Decidable (_ ∨ _))

/-- `abort()` of a resource request. On one that has ended it does nothing. -/
def abortRequest (c : RequestController) (index : ℕ) : RequestController :=
  if index ∈ c.live then c.step (.abort index) else c

/-- The recovery itself, during segment `index`. -/
def recover (r : ServerSideRule X C) (index : ℕ) : ServerSideRule X C :=
  { r with
    lastRecoveryIndex := index
    requestController := abortRequest r.requestController (index + 1)
    interceptor := r.interceptor.setBypass (.number (index + 1))
    recovered := r.recovered ++ [index] }

/-- The rest of `shouldAbandon` for a segment that is not of the lowest quality; `none` for the
`TypeError`. -/
def switchToLowest (r : ServerSideRule X C) (index : ℕ) :
    ServerSideRule X C × Option SwitchRequest :=
  match r.interceptor.toIntercept (.number (index + 1)) with
  | some (.object _) =>
    -- interceptor.context(index + 1) is set when the request is sent
    if index + 1 ∈ r.requestController.sent then
      if r.Unfinished (index + 1) then
        (r.recover index, some ⟨some 0, some "Rebuff detected", .default⟩)
      else (r, some .create)
    else (r, none)
  | _ => (r, none)

/-- `shouldAbandon` for the index of the current request, which is `none` for `NaN`, and the levels
of the metrics model. The callback of `getQuality` adds the decisions `added`. -/
def shouldAbandon (videoLength : ℕ) (r : ServerSideRule X C) (index : Option ℕ) (levels : List ℚ)
    (added : List Decision) : ServerSideRule X C × Option SwitchRequest :=
  match index with
  | none => (r, some .create)
  | some index =>
    if r.Detects videoLength index (bufferLevel levels) then
      let answer := r.qualityController.getQuality (some (index + 1)) (some 1) added
      let r := { r with rebuffers := index :: r.rebuffers, qualityController := answer.1 }
      if lessThan (some 0) answer.2 then r.switchToLowest index else (r, some .create)
    else (r, some .create)

inductive Event (X C : Type*) where
  | shouldAbandon (index : Option ℕ) (levels : List ℚ) (added : List Decision)
  | getMaxIndex (current : ℤ) (added : List Decision)
  | addPiece (piece : Decision)
  /-- The resource request for the index ends with status 200. -/
  | success (index : ℕ) (quality : Option ℤ)
  /-- It ends in another way that is not an abort. -/
  | fail (index : ℕ)
  | intercepted (event : Interceptor.Event X C)

def step [DecidableEq X] (videoLength : ℕ) (r : ServerSideRule X C) :
    Event X C → ServerSideRule X C
  | .shouldAbandon index levels added => (r.shouldAbandon videoLength index levels added).1
  | .getMaxIndex current added => (r.getMaxIndex current added).1
  | .addPiece piece => { r with qualityController := r.qualityController.addPiece piece }
  | .success index quality =>
    { r with requestController := r.requestController.step (.success index quality) }
  | .fail index => { r with requestController := r.requestController.step (.fail index) }
  | .intercepted event => { r with interceptor := r.interceptor.step event }

/-- Only requests that are outstanding end. -/
def Orderly (r : ServerSideRule X C) : Event X C → Prop
  | .success index _ => index ∈ r.requestController.live
  | .fail index => index ∈ r.requestController.live
  | _ => True

instance (r : ServerSideRule X C) : ∀ e : Event X C, Decidable (r.Orderly e)
  | .success index _ => inferInstanceAs (Decidable (index ∈ r.requestController.live))
  | .fail index => inferInstanceAs (Decidable (index ∈ r.requestController.live))
  | .shouldAbandon .. | .getMaxIndex .. | .addPiece _ | .intercepted _ => isTrue trivial

/-! ## What a call does -/

/-- What the recoveries are about, the bookkeeping of decisions and attempts left out. -/
def recoveries (r : ServerSideRule X C) : RequestController × Interceptor X C × ℕ × List ℕ :=
  (r.requestController, r.interceptor, r.lastRecoveryIndex, r.recovered)

variable {videoLength : ℕ} {r : ServerSideRule X C}

theorem switchToLowest_cases (r : ServerSideRule X C) (index : ℕ) :
    (r.switchToLowest index).1 = r ∨
      r.Unfinished (index + 1) ∧ (r.switchToLowest index).1 = r.recover index := by
  unfold switchToLowest
  split
  · split
    · split
      · next hopen => exact .inr ⟨hopen, rfl⟩
      · exact .inl rfl
    · exact .inl rfl
  · exact .inl rfl

/-- **Inversion.** A call leaves the recoveries as they are, or it detects a rebuffer during a
segment whose successor is still on its way, and recovers. -/
theorem shouldAbandon_cases (r : ServerSideRule X C) (index : Option ℕ) (levels : List ℚ)
    (added : List Decision) :
    Same recoveries r (r.shouldAbandon videoLength index levels added).1 ∨
      ∃ i, r.Detects videoLength i (bufferLevel levels) ∧ r.Unfinished (i + 1) ∧
        Same recoveries (r.recover i) (r.shouldAbandon videoLength index levels added).1 := by
  cases index with
  | none => exact .inl rfl
  | some i =>
    simp only [shouldAbandon]
    split
    · next hdetects =>
      split
      · rcases switchToLowest_cases { r with
            rebuffers := i :: r.rebuffers
            qualityController :=
              (r.qualityController.getQuality (some (i + 1)) (some 1) added).1 } i
          with hsame | ⟨hopen, hrecover⟩
        · rw [hsame]
          exact .inl rfl
        · rw [hrecover]
          exact .inr ⟨i, hdetects, hopen, rfl⟩
      · exact .inl rfl
    · exact .inl rfl

/-! ## The invariant -/

/-- What holds of the recoveries between events. -/
structure Inv (videoLength pool maxIndex : ℕ) (r : ServerSideRule X C) : Prop where
  requests : r.requestController.Inv pool maxIndex
  spaced : r.recovered.Pairwise fun i j => i + recoveryCooldown < j
  bounds : ∀ i ∈ r.recovered, minIndex ≤ i ∧ i + 1 < videoLength
  le_last : ∀ i ∈ r.recovered, i ≤ r.lastRecoveryIndex
  /-- The player's own request for the segment gets through. -/
  bypassed : ∀ i ∈ r.recovered, r.interceptor.bypass (.number (i + 1)) = true
  /-- Each recovery has lost its slot. -/
  lost : r.recovered.length ≤ r.requestController.lost

variable {pool maxIndex : ℕ}

theorem inv_start : Inv videoLength pool maxIndex (start pool maxIndex : ServerSideRule X C) where
  requests := RequestController.inv_start pool maxIndex
  spaced := List.Pairwise.nil
  bounds := fun _ hi => absurd hi List.not_mem_nil
  le_last := fun _ hi => absurd hi List.not_mem_nil
  bypassed := fun _ hi => absurd hi List.not_mem_nil
  lost := Nat.zero_le _

theorem Inv.of_same {s : ServerSideRule X C} (h : Inv videoLength pool maxIndex r)
    (hsame : Same recoveries r s) : Inv videoLength pool maxIndex s := by
  simp only [Same, recoveries, Prod.mk.injEq] at hsame
  obtain ⟨hrequests, hinterceptor, hlast, hrecovered⟩ := hsame
  constructor
  · rw [hrequests]
    exact h.requests
  · rw [hrecovered]
    exact h.spaced
  · rw [hrecovered]
    exact h.bounds
  · rw [hrecovered, hlast]
    exact h.le_last
  · rw [hrecovered, hinterceptor]
    exact h.bypassed
  · rw [hrecovered, hrequests]
    exact h.lost

/-- A segment at which a rebuffer is detected comes after all recoveries, so the request the rule
then finds unfinished has not been aborted. -/
theorem Inv.mem_live {i : ℕ} {level : ℚ} (h : Inv videoLength pool maxIndex r)
    (hdetects : r.Detects videoLength i level) (hopen : r.Unfinished (i + 1)) :
    i + 1 ∈ r.requestController.live := by
  rcases hopen with hlive | haborted
  · exact hlive
  · obtain ⟨j, hj, hji⟩ := List.mem_map.mp haborted
    have hle := h.le_last j hj
    have hcooldown := hdetects.2.2.2.1
    omega

theorem Inv.recover {i : ℕ} {level : ℚ} (h : Inv videoLength pool maxIndex r)
    (hdetects : r.Detects videoLength i level) (hopen : r.Unfinished (i + 1)) :
    Inv videoLength pool maxIndex (r.recover i) := by
  have hlive := h.mem_live hdetects hopen
  have habort : abortRequest r.requestController (i + 1)
      = r.requestController.step (.abort (i + 1)) := if_pos hlive
  obtain ⟨-, hmin, -, hcooldown, hlength⟩ := hdetects
  have hlast : ∀ j ∈ r.recovered, j + recoveryCooldown < i := fun j hj =>
    lt_of_le_of_lt (Nat.add_le_add_right (h.le_last j hj) _) hcooldown
  constructor
  · show (abortRequest r.requestController (i + 1)).Inv pool maxIndex
    rw [habort]
    exact h.requests.step hlive
  · refine List.pairwise_append.mpr ⟨h.spaced, List.pairwise_singleton _ _, ?_⟩
    intro j hj k hk
    rw [List.mem_singleton.mp hk]
    exact hlast j hj
  · intro j hj
    rcases List.mem_append.mp hj with hj | hj
    · exact h.bounds j hj
    · rw [List.mem_singleton.mp hj]
      exact ⟨hmin, hlength⟩
  · intro j hj
    show j ≤ i
    rcases List.mem_append.mp hj with hj | hj
    · have hlt := hlast j hj
      omega
    · exact (List.mem_singleton.mp hj).le
  · intro j hj
    show Function.update r.interceptor.bypass (.number (i + 1)) true (.number (j + 1)) = true
    rw [Function.update_apply]
    split
    · rfl
    · next hne =>
      rcases List.mem_append.mp hj with hj | hj
      · exact h.bypassed j hj
      · rw [List.mem_singleton.mp hj] at hne
        exact absurd rfl hne
  · show (r.recovered ++ [i]).length ≤ (abortRequest r.requestController (i + 1)).lost
    rw [habort, List.length_append, List.length_singleton]
    exact Nat.add_le_add_right h.lost 1

/-- The end of an outstanding request. -/
theorem Inv.ends (h : Inv videoLength pool maxIndex r) {e : RequestController.Event}
    (he : e.index ∈ r.requestController.live) :
    Inv videoLength pool maxIndex { r with requestController := r.requestController.step e } :=
  ⟨h.requests.step he, h.spaced, h.bounds, h.le_last, h.bypassed,
    h.lost.trans (RequestController.lost_le_step _ e)⟩

/-- Each recovery leaves one slot less for the requests. -/
theorem Inv.live_le (h : Inv videoLength pool maxIndex r) :
    r.requestController.live.length ≤ pool - r.recovered.length := by
  have hlength := h.requests.live_length
  have hlost := h.lost
  omega

/-- The pool has no outstanding request left, and its slots are all lost. -/
structure Starved (videoLength pool maxIndex : ℕ) (r : ServerSideRule X C) : Prop
    extends Inv videoLength pool maxIndex r where
  exhausted : pool ≤ r.recovered.length

theorem Starved.live_eq (h : Starved videoLength pool maxIndex r) :
    r.requestController.live = [] := by
  have hle := h.live_le
  have hexhausted := h.exhausted
  exact List.eq_nil_of_length_eq_zero (by omega)

variable [DecidableEq X]

/-- A call of the rule adds at most one recovery, after all the others, and the other events take
neither a recovery nor a lost slot back. -/
theorem Inv.step (h : Inv videoLength pool maxIndex r) {e : Event X C} (he : r.Orderly e) :
    Inv videoLength pool maxIndex (r.step videoLength e) := by
  cases e with
  | shouldAbandon index levels added =>
    rcases shouldAbandon_cases r index levels added with hsame | ⟨i, hdetects, hopen, hsame⟩
    · exact h.of_same hsame
    · exact (h.recover hdetects hopen).of_same hsame
  | getMaxIndex current added => exact h.of_same rfl
  | addPiece piece => exact h.of_same rfl
  | success index quality => exact h.ends he
  | fail index => exact h.ends he
  | intercepted event =>
    refine ⟨h.requests, h.spaced, h.bounds, h.le_last, ?_, h.lost⟩
    intro i hi
    exact (Interceptor.bypass_step event).mpr (.inl (h.bypassed i hi))

theorem inv_run {es : List (Event X C)}
    (h : EveryStep (step videoLength) Orderly (start pool maxIndex) es) :
    Inv videoLength pool maxIndex (run (step videoLength) (start pool maxIndex) es) :=
  h.invariant inv_start fun _ _ ht he => ht.step he

/-! ## Every run -/

/-- **Recoveries.** In every run they are more than the cooldown apart, none is before the
minimum index or at the end of the video, the player's request for each aborted segment is let
through, and at most as many requests are outstanding as slots are left without them. -/
theorem recoveries_run (videoLength pool maxIndex : ℕ) (es : List (Event X C))
    (h : EveryStep (step videoLength) Orderly (start pool maxIndex) es) :
    let r := run (step videoLength) (start pool maxIndex) es
    r.recovered.Pairwise (fun i j => i + recoveryCooldown < j) ∧
      (∀ i ∈ r.recovered, minIndex ≤ i ∧ i + 1 < videoLength ∧
        r.interceptor.bypass (.number (i + 1)) = true) ∧
      r.requestController.live.length ≤ pool - r.recovered.length := by
  have hinv := inv_run h
  refine ⟨hinv.spaced, ?_, hinv.live_le⟩
  intro i hi
  obtain ⟨hmin, hlength⟩ := hinv.bounds i hi
  exact ⟨hmin, hlength, hinv.bypassed i hi⟩

/-- Five segments arrive through a pool of one slot; the player asks for the sixth, and the buffer
runs low before it is there. -/
def lowBuffer : List (Event ℕ ℕ) :=
  [.success 1 (some 0), .success 2 (some 0), .success 3 (some 0), .success 4 (some 0),
    .success 5 (some 0), .addPiece ⟨6, some 2, some 1⟩, .intercepted (.intercept (.number 6)),
    .intercepted (.openRequest 0 "http://host/video2/6.m4s"), .intercepted (.send 0),
    .shouldAbandon (some 5) [1000] []]

theorem recoveries_run_lowBuffer :
    let r := run (step 10) (start 1 10) lowBuffer
    r.recovered = [5] ∧ r.interceptor.bypass (.number 6) = true ∧
      r.requestController.live.length ≤ 0 := by
  have hends : EveryStep (step 10) Orderly (start 1 10) lowBuffer := by decide +kernel
  have hrecovered : (run (step 10) (start 1 10) lowBuffer).recovered = [5] := by decide +kernel
  obtain ⟨-, hall, hlive⟩ := recoveries_run 10 1 10 lowBuffer hends
  rw [hrecovered] at hall hlive
  exact ⟨hrecovered, (hall 5 (List.mem_singleton_self 5)).2.2, hlive⟩

/-- A starved pool does not change any more: no request is left to end or to abort. -/
theorem Starved.step (h : Starved videoLength pool maxIndex r) {e : Event X C}
    (he : r.Orderly e) :
    Starved videoLength pool maxIndex (r.step videoLength e) ∧
      (r.step videoLength e).requestController = r.requestController := by
  have hinv := h.toInv.step he
  have hnone : ∀ i, i ∉ r.requestController.live := fun i hi => by
    rw [h.live_eq] at hi
    exact List.not_mem_nil hi
  cases e with
  | shouldAbandon index levels added =>
    rcases shouldAbandon_cases r index levels added with hsame | ⟨i, hdetects, hopen, -⟩
    · have hrecovered := congrArg (fun t => t.2.2.2) hsame
      exact ⟨⟨hinv, h.exhausted.trans_eq (congrArg List.length hrecovered).symm⟩,
        congrArg Prod.fst hsame⟩
    · exact absurd (h.mem_live hdetects hopen) (hnone _)
  | getMaxIndex current added => exact ⟨⟨hinv, h.exhausted⟩, rfl⟩
  | addPiece piece => exact ⟨⟨hinv, h.exhausted⟩, rfl⟩
  | success index quality => exact absurd he (hnone index)
  | fail index => exact absurd he (hnone index)
  | intercepted event => exact ⟨⟨hinv, h.exhausted⟩, rfl⟩

/-- **Starvation.** After as many recoveries as the pool has slots, no request is outstanding and
none is sent again, whatever happens. -/
theorem starved (videoLength pool maxIndex : ℕ) (es fs : List (Event X C))
    (h : EveryStep (step videoLength) Orderly (start pool maxIndex) (es ++ fs))
    (hpool : pool ≤ (run (step videoLength) (start pool maxIndex) es).recovered.length) :
    let before := run (step videoLength) (start pool maxIndex) es
    let after := run (step videoLength) (start pool maxIndex) (es ++ fs)
    after.requestController.live = [] ∧
      after.requestController.sent = before.requestController.sent := by
  obtain ⟨hes, hfs⟩ := everyStep_append.mp h
  intro before after
  have hkept : Starved videoLength pool maxIndex (run (step videoLength) before fs) ∧
      (run (step videoLength) before fs).requestController = before.requestController := by
    refine hfs.invariant (P := fun t => Starved videoLength pool maxIndex t ∧
      t.requestController = before.requestController) ⟨⟨inv_run hes, hpool⟩, rfl⟩ ?_
    rintro t e ⟨ht, hsame⟩ he
    obtain ⟨hnext, hcontroller⟩ := ht.step he
    exact ⟨hnext, hcontroller.trans hsame⟩
  have hafter : after = run (step videoLength) before fs := run_append _ _ es fs
  rw [hafter]
  exact ⟨hkept.1.live_eq, congrArg RequestController.sent hkept.2⟩

/-- The next rebuffer finds nothing to abort, and segments 7 to 10 are not requested. -/
theorem starved_lowBuffer :
    let after := run (step 10) (start 1 10) (lowBuffer ++ [.shouldAbandon (some 8) [500] []])
    after.requestController.live = [] ∧ after.requestController.sent = [1, 2, 3, 4, 5, 6] := by
  have hends : EveryStep (step 10) Orderly (start 1 10)
      (lowBuffer ++ [.shouldAbandon (some 8) [500] []]) := by decide +kernel
  have hpool : 1 ≤ (run (step 10) (start 1 10) lowBuffer).recovered.length := by decide +kernel
  have hsent : (run (step 10) (start 1 10) lowBuffer).requestController.sent
      = [1, 2, 3, 4, 5, 6] := by decide +kernel
  obtain ⟨hlive, hsame⟩ := starved 10 1 10 lowBuffer [.shouldAbandon (some 8) [500] []] hends hpool
  exact ⟨hlive, hsame.trans hsent⟩

end ServerSideRule
end Dash
end LiveStream
