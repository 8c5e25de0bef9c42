import LiveStream.Lib.Run
import LiveStream.Minerva.MinervaAbr

/-!
# The window of Minerva's rate

In the middle of an update interval `decide()` resets the counter of acknowledged bytes, and at
its end it divides the counter by half the interval. Both tests are made in one call, so a call
that comes when the interval is already over resets the counter and reads it at once.

A trace records, with the number of the call of `decide()`, what is done to the counter and when
bytes are acknowledged.

* `decided_decide`, the four things a call can do;
* `Inv.step`, resets and updates alternate, and every update counts the bytes since its reset;
* `measured_iff_onTime`, every reset comes before its update exactly if no call is late.
-/

namespace LiveStream
namespace Minerva

open Lib MinervaConstants

namespace System

/-! ## What a call does -/

/-- The call finds the interval over, and the counter was not reset in it. -/
def Late (s : System) (call : Call) : Prop :=
  call.minRtt.isSome = true ∧ s.abr.startedRateUpdate = false ∧
    ∃ interval ∈ s.abr.updateInterval, s.UpdateDue call interval

/-- What a call does to the flag, the counter and the interval. -/
inductive Decided (s : System) (call : Call) : System → List Action → Prop
  | idle {s' : System} (honTime : ¬s.Late call)
      (hstarted : s'.abr.startedRateUpdate = s.abr.startedRateUpdate)
      (hacked : s'.interface.ackedBytes = s.interface.ackedBytes)
      (hinterval : s'.abr.updateInterval = s.abr.updateInterval ∨
        s'.abr.updateInterval = MinervaAbr.updateIntervalMs call.minRttAfter) :
      Decided s call s' []
  | reset {s' : System} (honTime : ¬s.Late call) (hbefore : s.abr.startedRateUpdate = false)
      (hstarted : s'.abr.startedRateUpdate = true) (hacked : s'.interface.ackedBytes = 0)
      (hinterval : s'.abr.updateInterval = s.abr.updateInterval) :
      Decided s call s' [.resetAckedBytes]
  | update {s' : System} (hbefore : s.abr.startedRateUpdate = true)
      (hstarted : s'.abr.startedRateUpdate = false)
      (hacked : s'.interface.ackedBytes = s.interface.ackedBytes)
      (hinterval : s'.abr.updateInterval = MinervaAbr.updateIntervalMs call.minRttAfter) :
      Decided s call s' [.weightUpdate s.interface.ackedBytes]
  | both {s' : System} (hlate : s.Late call) (hbefore : s.abr.startedRateUpdate = false)
      (hstarted : s'.abr.startedRateUpdate = false) (hacked : s'.interface.ackedBytes = 0)
      (hinterval : s'.abr.updateInterval = MinervaAbr.updateIntervalMs call.minRttAfter) :
      Decided s call s' [.resetAckedBytes, .weightUpdate 0]

theorem updateIntervalMs_nonneg (minRtt : Option ℤ) :
    ∀ interval ∈ MinervaAbr.updateIntervalMs minRtt, 0 ≤ interval := by
  intro interval h
  rw [MinervaAbr.updateIntervalMs, Option.mem_def, Option.map_eq_some_iff] at h
  obtain ⟨rtt, -, rfl⟩ := h
  unfold minRttStart maxRttStart updateIntervalFactor
  split
  · norm_num
  · split
    · norm_num
    · omega

/-- Half an interval is over before the whole is. -/
theorem halfwayDue_of_updateDue {s : System} {call : Call} {interval : ℤ} (hpos : 0 ≤ interval)
    (hdue : s.UpdateDue call interval) (hstarted : s.abr.startedRateUpdate = false) :
    s.HalfwayDue call interval := by
  refine ⟨?_, hstarted⟩
  have hhalf : interval.tdiv 2 ≤ interval := by
    rw [Int.tdiv_eq_ediv_of_nonneg hpos]
    omega
  have hcast : ((interval.tdiv 2 : ℤ) : ℚ) ≤ interval := by exact_mod_cast hhalf
  exact hcast.trans_lt hdue

theorem decided_decide (c : Settings) {s : System} (call : Call)
    (hpos : ∀ interval ∈ s.abr.updateInterval, 0 ≤ interval) :
    Decided s call (s.decide c call).1 (s.decide c call).2 := by
  unfold decide
  cases hrtt : MinervaAbr.updateIntervalMs call.minRtt with
  | none =>
    have hnone : call.minRtt.isSome = false := by
      cases hread : call.minRtt with
      | none => rfl
      | some rtt =>
        rw [hread] at hrtt
        cases hrtt
    refine .idle ?_ rfl rfl (Or.inl rfl)
    rintro ⟨hsome, -⟩
    rw [hnone] at hsome
    cases hsome
  | some first =>
    have hsome : call.minRtt.isSome = true := by
      cases hread : call.minRtt with
      | none =>
        rw [hread] at hrtt
        cases hrtt
      | some rtt => rfl
    cases hinterval : s.abr.updateInterval with
    | none =>
      refine .idle ?_ rfl rfl (Or.inr rfl)
      rintro ⟨-, -, interval, hmem, -⟩
      rw [hinterval] at hmem
      cases hmem
    | some interval =>
      have hnonneg := hpos interval hinterval
      dsimp only
      by_cases hhalf : s.HalfwayDue call interval
      · rw [halfway, if_pos hhalf]
        by_cases hdue : s.UpdateDue call interval
        · have hdue' : s.onStartRateUpdate.UpdateDue call interval := hdue
          rw [finish, if_pos hdue']
          exact .both ⟨hsome, hhalf.2, interval, hinterval, hdue⟩ hhalf.2 rfl rfl rfl
        · have hdue' : ¬s.onStartRateUpdate.UpdateDue call interval := hdue
          rw [finish, if_neg hdue']
          refine .reset ?_ hhalf.2 rfl rfl rfl
          rintro ⟨-, -, i, hi, hlate⟩
          rw [hinterval, Option.mem_some_iff] at hi
          exact hdue (hi ▸ hlate)
      · rw [halfway, if_neg hhalf]
        by_cases hdue : s.UpdateDue call interval
        · have hstarted : s.abr.startedRateUpdate = true := by
            by_contra hfalse
            rw [Bool.not_eq_true] at hfalse
            exact hhalf (halfwayDue_of_updateDue hnonneg hdue hfalse)
          rw [finish, if_pos hdue]
          exact .update hstarted rfl rfl rfl
        · rw [finish, if_neg hdue]
          refine .idle ?_ rfl rfl (Or.inl rfl)
          rintro ⟨-, -, i, hi, hlate⟩
          rw [hinterval, Option.mem_some_iff] at hi
          exact hdue (hi ▸ hlate)

end System

/-! ## Traces -/

/-- A run, with the calls in which the counter was reset or read and in which bytes came. -/
structure Trace where
  system : System
  calls : ℕ
  log : List (ℕ × Action)
  /-- Bytes, with the number of the last call before them. -/
  acks : List (ℕ × ℤ)

namespace Trace

def new (now : ℚ) : Trace := ⟨System.new now, 0, [], []⟩

def step (c : Settings) (t : Trace) (e : System.Event) : Trace :=
  match e with
  | .registerMetrics _ => { t with system := t.system.step c e }
  | .addAckedBytes bytes =>
    { t with system := t.system.step c e, acks := t.acks ++ [(t.calls, bytes)] }
  | .decide call =>
    { t with
      system := t.system.step c e
      calls := t.calls + 1
      log := t.log ++ (t.system.decide c call).2.map fun action => (t.calls + 1, action) }

/-- A measured rate: the calls that reset and read the counter, and what was read. -/
structure Window where
  reset : ℕ
  update : ℕ
  bytes : ℤ
deriving DecidableEq

/-- The windows so far and the reset since the last update, after one more action. A reset after
a reset or an update after an update is `none`. -/
def record : List Window × Option ℕ → ℕ × Action → Option (List Window × Option ℕ)
  | (windows, none), (call, .resetAckedBytes) => some (windows, some call)
  | (windows, some reset), (call, .weightUpdate bytes) =>
    some (windows ++ [⟨reset, call, bytes⟩], none)
  | _, _ => none

def windowsOf (log : List (ℕ × Action)) : Option (List Window × Option ℕ) :=
  log.foldlM record ([], none)

/-- The bytes acknowledged from one call to another. -/
def bytesBetween (acks : List (ℕ × ℤ)) (first second : ℕ) : ℤ :=
  ((acks.filter fun ack => first ≤ ack.1 ∧ ack.1 < second).map Prod.snd).sum

/-- Every update comes after exactly one reset since the update before, in an earlier call, and
reads the bytes acknowledged between the two calls. -/
def Measured (t : Trace) : Prop :=
  ∃ windows pending, windowsOf t.log = some (windows, pending) ∧
    ∀ w ∈ windows, w.reset < w.update ∧ w.bytes = bytesBetween t.acks w.reset w.update

/-- A step that is not a late call. -/
def OnTime (t : Trace) : System.Event → Prop
  | .decide call => ¬t.system.Late call
  | _ => True

/-! ## The invariant -/

section Bytes

variable {acks : List (ℕ × ℤ)} {n first second : ℕ}

theorem bytesBetween_concat_of_le (h : second ≤ n) (b : ℤ) :
    bytesBetween (acks ++ [(n, b)]) first second = bytesBetween acks first second := by
  have hnot : ¬(first ≤ n ∧ n < second) := fun hb => by omega
  simp [bytesBetween, List.filter_append, hnot]

theorem bytesBetween_concat_of_lt (hfirst : first ≤ n) (hsecond : n < second) (b : ℤ) :
    bytesBetween (acks ++ [(n, b)]) first second = bytesBetween acks first second + b := by
  have hyes : first ≤ n ∧ n < second := ⟨hfirst, hsecond⟩
  simp [bytesBetween, List.filter_append, hyes]

/-- No bytes come after the last call but those counted with it. -/
theorem bytesBetween_succ (h : ∀ ack ∈ acks, ack.1 ≤ n) :
    bytesBetween acks first (n + 2) = bytesBetween acks first (n + 1) := by
  unfold bytesBetween
  congr 2
  apply List.filter_congr
  intro ack hack
  have hle := h ack hack
  simp only [decide_eq_decide]
  omega

theorem bytesBetween_eq_zero (h : ∀ ack ∈ acks, ack.1 ≤ n) :
    bytesBetween acks (n + 1) second = 0 := by
  have hnil : acks.filter (fun ack => n + 1 ≤ ack.1 ∧ ack.1 < second) = [] := by
    rw [List.filter_eq_nil_iff]
    intro ack hack
    have hle := h ack hack
    simp only [decide_eq_true_eq]
    omega
  rw [bytesBetween, hnil]
  rfl

end Bytes

/-- The windows of a trace, the reset since the last update, and what the counter holds. -/
structure Inv (t : Trace) (windows : List Window) (pending : Option ℕ) : Prop where
  windows_eq : windowsOf t.log = some (windows, pending)
  started : t.system.abr.startedRateUpdate = pending.isSome
  counted : ∀ reset ∈ pending, reset ≤ t.calls ∧
    t.system.interface.ackedBytes = bytesBetween t.acks reset (t.calls + 1)
  acks_le : ∀ ack ∈ t.acks, ack.1 ≤ t.calls
  finished : ∀ w ∈ windows, w.update ≤ t.calls ∧ w.bytes = bytesBetween t.acks w.reset w.update
  interval_nonneg : ∀ interval ∈ t.system.abr.updateInterval, 0 ≤ interval

theorem inv_new (now : ℚ) : Inv (new now) [] none where
  windows_eq := rfl
  started := rfl
  counted := fun _ h => nomatch h
  acks_le := fun _ h => nomatch h
  finished := fun _ h => nomatch h
  interval_nonneg := fun _ h => nomatch h

theorem windowsOf_append (log actions : List (ℕ × Action)) :
    windowsOf (log ++ actions) = (windowsOf log).bind fun w => actions.foldlM record w := by
  rw [windowsOf, List.foldlM_append]
  rfl

/-- The windows are strict: no reset was made in the call of its update. -/
def Strict (windows : List Window) : Prop := ∀ w ∈ windows, w.reset < w.update

theorem strict_concat {windows : List Window} {w : Window} :
    Strict (windows ++ [w]) ↔ Strict windows ∧ w.reset < w.update := by
  simp [Strict, List.mem_append, or_imp, forall_and]

variable {c : Settings} {t : Trace} {windows : List Window} {pending : Option ℕ}

theorem Inv.measured_iff (h : Inv t windows pending) : Measured t ↔ Strict windows := by
  constructor
  · rintro ⟨windows', pending', heq, hall⟩
    rw [h.windows_eq, Option.some.injEq, Prod.mk.injEq] at heq
    intro w hw
    exact (hall w (heq.1 ▸ hw)).1
  · intro hstrict
    exact ⟨windows, pending, h.windows_eq, fun w hw => ⟨hstrict w hw, (h.finished w hw).2⟩⟩

theorem Inv.addAckedBytes (h : Inv t windows pending) (bytes : ℤ) :
    Inv (t.step c (.addAckedBytes bytes)) windows pending where
  windows_eq := h.windows_eq
  started := h.started
  counted := by
    intro reset hreset
    obtain ⟨hle, hbytes⟩ := h.counted reset hreset
    refine ⟨hle, ?_⟩
    show t.system.interface.ackedBytes + bytes = bytesBetween (t.acks ++ [_]) reset (t.calls + 1)
    rw [bytesBetween_concat_of_lt hle (by omega), hbytes]
  acks_le := by
    intro ack hack
    rcases List.mem_append.mp hack with hold | hnew
    · exact h.acks_le ack hold
    · rw [List.mem_singleton.mp hnew]
      exact le_rfl
  finished := by
    intro w hw
    obtain ⟨hle, hbytes⟩ := h.finished w hw
    refine ⟨hle, ?_⟩
    show w.bytes = bytesBetween (t.acks ++ [_]) w.reset w.update
    rw [bytesBetween_concat_of_le hle, hbytes]
  interval_nonneg := h.interval_nonneg

/-- The flag and the interval, which reports do not touch. -/
def clockOf (s : MinervaAbr) : Bool × Option ℤ := (s.startedRateUpdate, s.updateInterval)

theorem clockOf_registerSegment (s : MinervaAbr) (g : AbrSchema.Segment) :
    clockOf (s.registerSegment g) = clockOf s := by
  unfold MinervaAbr.registerSegment MinervaAbr.registerLoading
  dsimp only
  split
  · split <;> rfl
  · rfl

theorem clockOf_registerBuffer (s : MinervaAbr) (b : AbrSchema.Value) :
    clockOf (s.registerBuffer b) = clockOf s := by
  unfold MinervaAbr.registerBuffer
  split <;> rfl

theorem clockOf_registerMetrics (s : MinervaAbr) (m : AbrSchema.Metrics) :
    clockOf (s.registerMetrics m) = clockOf s := by
  have hbuffers : clockOf (run MinervaAbr.registerBuffer s m.bufferLevel) = clockOf s :=
    run_frame clockOf_registerBuffer s m.bufferLevel
  have hsegments : clockOf (run MinervaAbr.registerSegment
      (run MinervaAbr.registerBuffer s m.bufferLevel) m.segments) = _ :=
    run_frame clockOf_registerSegment _ m.segments
  exact hsegments.trans hbuffers

theorem Inv.registerMetrics (h : Inv t windows pending) (m : AbrSchema.Metrics) :
    Inv (t.step c (.registerMetrics m)) windows pending := by
  obtain ⟨hstarted, hinterval⟩ := Prod.mk.inj (clockOf_registerMetrics t.system.abr m)
  refine ⟨h.windows_eq, ?_, h.counted, h.acks_le, h.finished, ?_⟩
  · exact hstarted.trans h.started
  · show ∀ interval ∈ (t.system.abr.registerMetrics m).updateInterval, 0 ≤ interval
    rw [hinterval]
    exact h.interval_nonneg

theorem Inv.pending_eq_none (h : Inv t windows pending)
    (hbefore : t.system.abr.startedRateUpdate = false) : pending = none := by
  rw [h.started] at hbefore
  exact Option.isNone_iff_eq_none.mp (Option.isSome_eq_false_iff.mp hbefore)

/-- A window closed by the next call is finished after it. -/
theorem Inv.finished_concat (h : Inv t windows pending) {w : Window}
    (hw : w.update = t.calls + 1 ∧ w.bytes = bytesBetween t.acks w.reset w.update) :
    ∀ w' ∈ windows ++ [w], w'.update ≤ t.calls + 1 ∧
      w'.bytes = bytesBetween t.acks w'.reset w'.update := by
  intro w' hw'
  rcases List.mem_append.mp hw' with hold | hnew
  · exact ⟨Nat.le_succ_of_le (h.finished w' hold).1, (h.finished w' hold).2⟩
  · rw [List.mem_singleton.mp hnew]
    exact ⟨hw.1.le, hw.2⟩

/-- A call keeps the invariant, and its window, if it closes one, is strict unless it is late. -/
theorem Inv.decide (h : Inv t windows pending) (call : Call) :
    ∃ windows' pending', Inv (t.step c (.decide call)) windows' pending' ∧
      (Strict windows' ↔ Strict windows ∧ ¬t.system.Late call) := by
  have hdecided := System.decided_decide c call h.interval_nonneg
  have hfinished : ∀ w ∈ windows, w.update ≤ t.calls + 1 ∧
      w.bytes = bytesBetween t.acks w.reset w.update := fun w hw =>
    ⟨Nat.le_succ_of_le (h.finished w hw).1, (h.finished w hw).2⟩
  have hacks : ∀ ack ∈ t.acks, ack.1 ≤ t.calls + 1 := fun ack hack =>
    Nat.le_succ_of_le (h.acks_le ack hack)
  have hnext := System.updateIntervalMs_nonneg call.minRttAfter
  simp only [step, System.step]
  generalize t.system.decide c call = result at hdecided ⊢
  obtain ⟨s', actions⟩ := result
  dsimp only at hdecided ⊢
  cases hdecided with
  | idle honTime hstarted hacked hinterval =>
    refine ⟨windows, pending, ⟨?_, ?_, ?_, hacks, hfinished, ?_⟩, ?_⟩
    · simpa using h.windows_eq
    · exact hstarted.trans h.started
    · intro reset hreset
      obtain ⟨hle, hbytes⟩ := h.counted reset hreset
      refine ⟨Nat.le_succ_of_le hle, ?_⟩
      show s'.interface.ackedBytes = bytesBetween t.acks reset (t.calls + 2)
      rw [hacked, hbytes, bytesBetween_succ h.acks_le]
    · intro interval hmem
      rcases hinterval with hsame | hnew
      · exact h.interval_nonneg interval (hsame ▸ hmem)
      · exact hnext interval (hnew ▸ hmem)
    · exact (and_iff_left honTime).symm
  | reset honTime hbefore hstarted hacked hinterval =>
    obtain rfl := h.pending_eq_none hbefore
    refine ⟨windows, some (t.calls + 1), ⟨?_, hstarted, ?_, hacks, hfinished, ?_⟩, ?_⟩
    · rw [windowsOf_append, h.windows_eq]
      rfl
    · intro reset hreset
      rw [Option.mem_some_iff] at hreset
      subst hreset
      refine ⟨le_rfl, ?_⟩
      show s'.interface.ackedBytes = bytesBetween t.acks (t.calls + 1) (t.calls + 1 + 1)
      rw [hacked, bytesBetween_eq_zero h.acks_le]
    · intro interval hmem
      exact h.interval_nonneg interval (hinterval ▸ hmem)
    · exact (and_iff_left honTime).symm
  | update hbefore hstarted hacked hinterval =>
    obtain ⟨reset, rfl⟩ : ∃ reset, pending = some reset := by
      rw [h.started] at hbefore
      exact Option.isSome_iff_exists.mp hbefore
    obtain ⟨hle, hbytes⟩ := h.counted reset rfl
    have honTime : ¬t.system.Late call := by
      rintro ⟨-, hfalse, -⟩
      rw [hbefore] at hfalse
      cases hfalse
    refine ⟨windows ++ [⟨reset, t.calls + 1, t.system.interface.ackedBytes⟩], none,
      ⟨?_, hstarted, fun reset hreset => absurd hreset (Option.not_mem_none reset), hacks, ?_,
        ?_⟩, ?_⟩
    · rw [windowsOf_append, h.windows_eq]
      rfl
    · exact h.finished_concat ⟨rfl, hbytes⟩
    · intro interval hmem
      exact hnext interval (hinterval ▸ hmem)
    · rw [strict_concat]
      show Strict windows ∧ reset < t.calls + 1 ↔ _
      exact and_congr_right fun _ => iff_of_true (by omega) honTime
  | both hlate hbefore hstarted hacked hinterval =>
    obtain rfl := h.pending_eq_none hbefore
    refine ⟨windows ++ [⟨t.calls + 1, t.calls + 1, 0⟩], none,
      ⟨?_, hstarted, fun reset hreset => absurd hreset (Option.not_mem_none reset), hacks, ?_,
        ?_⟩, ?_⟩
    · rw [windowsOf_append, h.windows_eq]
      rfl
    · exact h.finished_concat ⟨rfl, (bytesBetween_eq_zero h.acks_le).symm⟩
    · intro interval hmem
      exact hnext interval (hinterval ▸ hmem)
    · rw [strict_concat]
      show Strict windows ∧ t.calls + 1 < t.calls + 1 ↔ _
      exact and_congr_right fun _ => iff_of_false (lt_irrefl _) (not_not.mpr hlate)

theorem Inv.step (h : Inv t windows pending) (e : System.Event) :
    ∃ windows' pending', Inv (t.step c e) windows' pending' ∧
      (Strict windows' ↔ Strict windows ∧ t.OnTime e) := by
  cases e with
  | registerMetrics m => exact ⟨_, _, h.registerMetrics m, (and_iff_left trivial).symm⟩
  | addAckedBytes bytes => exact ⟨_, _, h.addAckedBytes bytes, (and_iff_left trivial).symm⟩
  | decide call => exact h.decide call

/-- A trace that has windows. -/
def Sound (t : Trace) : Prop := ∃ windows pending, Inv t windows pending

theorem sound_new (now : ℚ) : Sound (new now) := ⟨[], none, inv_new now⟩

theorem Sound.step (h : Sound t) (e : System.Event) : Sound (t.step c e) := by
  obtain ⟨windows, pending, hinv⟩ := h
  obtain ⟨windows', pending', hinv', -⟩ := hinv.step e
  exact ⟨windows', pending', hinv'⟩

theorem Sound.measured_step (h : Sound t) (e : System.Event) :
    Measured (t.step c e) ↔ Measured t ∧ t.OnTime e := by
  obtain ⟨windows, pending, hinv⟩ := h
  obtain ⟨windows', pending', hinv', hstrict⟩ := hinv.step e
  rw [hinv'.measured_iff, hinv.measured_iff, hstrict]

/-- **Measured rates.** In every run, the resets and updates alternate and every rate is measured
between two calls exactly if no call comes after an interval in which the counter was not reset. -/
theorem measured_iff_onTime (c : Settings) (now : ℚ) (es : List System.Event) :
    Measured (run (step c) (new now) es) ↔ EveryStep (step c) OnTime (new now) es := by
  have hnew : Measured (new now) := (inv_new now).measured_iff.mpr fun _ h => nomatch h
  rw [run_iff_everyStep (D := fun _ _ => True) (everyStep_of_forall fun _ _ _ => trivial)
    (sound_new now) (fun _ e h _ => h.step e) fun _ e h _ => h.measured_step e]
  exact and_iff_right hnew

/-- A player that reports nothing, of a video with one track. -/
def silent : Settings where
  tables := ⟨[[⟨0, 70, 1000⟩, ⟨4, 70, 1000⟩]], [600], List.cons_ne_nil _ _, List.cons_ne_nil _ _⟩
  shouldNormalize := false
  norm := []
  sqrt := id

/-- A call at a time, on a path with a round-trip time of 20 ms. -/
def callAt (now : ℚ) : Call := ⟨some 20, some 20, now, now, none⟩

/-- An interval of 500 ms begins, bytes are acknowledged, and the next call comes after 600 ms. -/
def lateRun : List System.Event := [.decide (callAt 0), .addAckedBytes 1000, .decide (callAt 600)]

/-- The late call resets the counter and reads 0 from it. A call at 300 ms in between would have
reset it in time. -/
theorem lateRun_not_measured :
    windowsOf (run (step silent) (new 0) lateRun).log = some ([⟨2, 2, 0⟩], none) ∧
      ¬Measured (run (step silent) (new 0) lateRun) ∧
      windowsOf (run (step silent) (new 0) [.decide (callAt 0), .decide (callAt 300),
        .addAckedBytes 1000, .decide (callAt 600)]).log = some ([⟨2, 3, 1000⟩], none) := by
  have hwindows : windowsOf (run (step silent) (new 0) lateRun).log = some ([⟨2, 2, 0⟩], none) := by
    decide +kernel
  refine ⟨hwindows, ?_, by decide +kernel⟩
  rintro ⟨windows, pending, heq, hall⟩
  rw [hwindows, Option.some.injEq, Prod.mk.injEq] at heq
  have hlt := (hall ⟨2, 2, 0⟩ (heq.1 ▸ List.mem_singleton_self _)).1
  exact absurd hlt (lt_irrefl _)

end Trace

end Minerva
end LiveStream
