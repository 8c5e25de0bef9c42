import LiveStream.Target.TargetAbr

/-!
# More bandwidth, more QoE?

The search for a bandwidth target relies on `qoe(b).first` growing with `b`: with more
bandwidth the same choices can be taken. Along the same choices more bandwidth means less
rebuffering and fuller buffers (`Ahead`). For the `localQoe` of `TargetAbr` and `TargetAbr2`
that is only good, and the planned QoE grows (`qoe_mono`). `TargetAbr3` charges the buffer
as well, and there it depends (`target3_mono_iff`).
-/

namespace LiveStream
namespace Target
namespace Planner

open Lib TargetAbrConstants

variable {p : Planner} {b b' : ℚ}

/-! ## One download under two bandwidths -/

theorem downloadTimeMs_anti (hb : 0 < b) (hle : b ≤ b') (i q : ℤ) :
    p.downloadTimeMs b' i q ≤ p.downloadTimeMs b i q := by
  have hsize : (0 : ℚ) ≤ 8 * (p.video.info q (i + 1)).size / SECOND := by
    unfold SECOND
    positivity
  have hsecond : (0 : ℚ) ≤ SECOND := by norm_num [SECOND]
  unfold downloadTimeMs
  exact mul_le_mul_of_nonneg_right (div_le_div_of_nonneg_left hsize hb hle) hsecond

/-- The second state is at the same point of the same plan, with at least as full a buffer. -/
structure Ahead (s s' : State) : Prop where
  segment_eq : s.segment = s'.segment
  quality_eq : s.quality = s'.quality
  buffer_le : s.buffer ≤ s'.buffer

theorem Ahead.refl (s : State) : Ahead s s := ⟨rfl, rfl, le_refl _⟩

theorem Ahead.currentBuffer_le {s s' : State} (h : Ahead s s') :
    (s.buffer * bufferUnit : ℚ) ≤ s'.buffer * bufferUnit := by
  have hbuffer : (s.buffer : ℚ) ≤ s'.buffer := by exact_mod_cast h.buffer_le
  have hunit : (0 : ℚ) ≤ bufferUnit := by norm_num [bufferUnit]
  exact mul_le_mul_of_nonneg_right hbuffer hunit

theorem Ahead.rebuffer_le {s s' : State} (h : Ahead s s') (hb : 0 < b) (hle : b ≤ b') (i q : ℤ) :
    p.rebuffer b' i s' q ≤ p.rebuffer b i s q := by
  have hbuffer := h.currentBuffer_le
  have hdownload := downloadTimeMs_anti (p := p) hb hle i q
  unfold rebuffer
  dsimp only
  split_ifs <;> linarith

theorem Ahead.bufferAfter_le {s s' : State} (h : Ahead s s') (hb : 0 < b) (hle : b ≤ b')
    (i q : ℤ) : p.bufferAfter b i s q ≤ p.bufferAfter b' i s' q := by
  have hbuffer := h.currentBuffer_le
  have hdownload := downloadTimeMs_anti (p := p) hb hle i q
  unfold bufferAfter
  dsimp only
  apply min_le_min_right
  split_ifs <;> linarith

/-- With more bandwidth the plan stays ahead. -/
theorem Ahead.next {s s' : State} (h : Ahead s s') (hb : 0 < b) (hle : b ≤ b') (q : ℤ) :
    Ahead (p.nextState b s.segment s q) (p.nextState b' s'.segment s' q) where
  segment_eq := by rw [nextState_segment, nextState_segment, h.segment_eq]
  quality_eq := rfl
  buffer_le := by
    have hunit : (0 : ℚ) ≤ bufferUnit := by norm_num [bufferUnit]
    rw [h.segment_eq]
    exact truncate_mono (div_le_div_of_nonneg_right (h.bufferAfter_le hb hle s'.segment q) hunit)

/-! ## Scores under two bandwidths -/

theorem baseQoe_anti (currentVmaf lastVmaf : ℤ) {rebuffer rebuffer' : ℤ}
    (h : rebuffer' ≤ rebuffer) :
    baseQoe currentVmaf lastVmaf rebuffer ≤ baseQoe currentVmaf lastVmaf rebuffer' := by
  have hcast : (rebuffer' : ℚ) ≤ rebuffer := by exact_mod_cast h
  unfold baseQoe gamma SECOND
  linarith

/-- Where only the rebuffering counts, every plan scores at least as high. -/
theorem planScore_mono (hlocal : p.localQoe = TargetAbr.localQoe) (hb : 0 < b) (hle : b ≤ b')
    (plan : List ℤ) : p.planScore b plan ≤ p.planScore b' plan := by
  -- the two simulations run side by side, the one with more bandwidth ahead
  refine Problem.score_le_score (R := fun s s' _ => Ahead s s') ?_ (Ahead.refl _) (le_refl 0)
  intro s s' q plan h
  refine ⟨?_, h.next hb hle q⟩
  show p.nextQoe b s.segment _ s q ≤ p.nextQoe b' s'.segment _ s' q
  unfold nextQoe
  rw [hlocal, h.segment_eq, h.quality_eq]
  exact baseQoe_anti _ _ (truncate_mono (h.rebuffer_le hb hle s'.segment q))

/-- `qoe(b).first ≤ qoe(b').first`, and both calls return. -/
def QoeLe (p : Planner) (b b' : ℚ) : Prop :=
  ∀ order order', ∃ r r', p.qoe b order = some r ∧ p.qoe b' order' = some r' ∧ r.1 ≤ r'.1

/-- The planned QoE is at least as high under `b'` exactly if every plan under `b` is
matched by some plan under `b'`. -/
theorem qoeLe_iff (hp : p.WellPosed) : p.QoeLe b b' ↔
    ∀ plan, p.IsPlan plan → ∃ plan', p.IsPlan plan' ∧
      p.planScore b plan ≤ p.planScore b' plan' := by
  obtain ⟨v, hqoe, ⟨best, hbest, hscore⟩, hupper⟩ := exists_best hp b
  obtain ⟨v', hqoe', ⟨best', hbest', hscore'⟩, hupper'⟩ := exists_best hp b'
  constructor
  · intro hle plan hplan
    obtain ⟨r, r', hr, hr', hrr'⟩ := hle .insertion .insertion
    obtain ⟨q, hq⟩ := hqoe .insertion
    obtain ⟨q', hq'⟩ := hqoe' .insertion
    rw [hq, Option.some.injEq] at hr
    rw [hq', Option.some.injEq] at hr'
    rw [← hr, ← hr'] at hrr'
    exact ⟨best', hbest', (hupper plan hplan).trans (hrr'.trans hscore'.ge)⟩
  · intro hmatch order order'
    obtain ⟨q, hq⟩ := hqoe order
    obtain ⟨q', hq'⟩ := hqoe' order'
    obtain ⟨plan', hplan', hle⟩ := hmatch best hbest
    refine ⟨_, _, hq, hq', ?_⟩
    exact hscore ▸ hle.trans (hupper' plan' hplan')

/-- Where only the rebuffering counts, more bandwidth never lowers the planned QoE. -/
theorem qoeLe_of_le (hp : p.WellPosed) (hlocal : p.localQoe = TargetAbr.localQoe) (hb : 0 < b)
    (hle : b ≤ b') : p.QoeLe b b' := by
  rw [qoeLe_iff hp]
  intro plan hplan
  exact ⟨plan, hplan, planScore_mono hlocal hb hle plan⟩

end Planner

/-! ## `TargetAbr` and `TargetAbr2` -/

/-- **More bandwidth never lowers the planned QoE.** In every reachable state in which
`decideQuality` consults the planner, with the `localQoe` of `TargetAbr` or `TargetAbr2`. -/
theorem qoe_mono (c : Setting)
    (hlocal : c.localQoe = TargetAbr.localQoe ∨ c.localQoe = TargetAbr2.localQoe)
    (bandwidthTarget : ℤ) (es : List TargetAbr.Event)
    (h2 : 2 ≤ (TargetAbr.after c bandwidthTarget es).base.decisionIndex)
    (b b' : ℚ) (hb : 0 < b) (hle : b ≤ b') :
    ((TargetAbr.after c bandwidthTarget es).planner c).QoeLe b b' := by
  have hp : ((TargetAbr.after c bandwidthTarget es).planner c).WellPosed :=
    ⟨(TargetAbr.inv_after c bandwidthTarget es).placed h2, c.video.ordered⟩
  have hsame : c.localQoe = TargetAbr.localQoe := hlocal.elim id id
  exact Planner.qoeLe_of_le hp hsame hb hle

/-- After one decision of `TargetAbr2` on the short video. -/
theorem qoe_mono_shortVideo :
    let c : Setting := ⟨Planner.shortVideo, TargetAbr2.localQoe⟩
    let s := TargetAbr.after c 1000 [.decide ⟨1000, 1000, fun _ => .insertion⟩]
    2 ≤ s.base.decisionIndex ∧ (s.planner c).QoeLe 1000 2000 := by
  intro c s
  have h2 : 2 ≤ s.base.decisionIndex := le_refl 2
  exact ⟨h2, qoe_mono c (Or.inr rfl) 1000 _ h2 1000 2000 (by norm_num) (by norm_num)⟩

/-! ## `TargetAbr3` -/

namespace Planner

open Lib TargetAbrConstants

variable {p : Planner} {b b' : ℚ}

/-- Along the plan, what `TargetAbr3` charges for the fuller buffer under `b'` is covered by
what it saves on rebuffering, segment by segment. -/
def ChargesCovered (p : Planner) (b b' : ℚ) : State → State → List ℤ → Prop
  | _, _, [] => True
  | s, s', q :: plan =>
    zetta * (truncate (p.bufferAfter b' s'.segment s' q) -
        truncate (p.bufferAfter b s.segment s q) : ℤ) ≤
      gamma * (truncate (p.rebuffer b s.segment s q) -
        truncate (p.rebuffer b' s'.segment s' q) : ℤ) ∧
    ChargesCovered p b b' (p.nextState b s.segment s q) (p.nextState b' s'.segment s' q) plan

theorem planScore_le_of_covered (hlocal : p.localQoe = TargetAbr3.localQoe) {plan : List ℤ}
    (hcovered : p.ChargesCovered b b' p.startState p.startState plan) :
    p.planScore b plan ≤ p.planScore b' plan := by
  -- here the buffers need not be ordered; the rest of the condition travels along
  refine Problem.score_le_score (R := fun s s' plan => s.segment = s'.segment ∧
    s.quality = s'.quality ∧ p.ChargesCovered b b' s s' plan) ?_ ⟨rfl, rfl, hcovered⟩ (le_refl 0)
  rintro s s' q plan ⟨hsegment, hquality, hcharge, hrest⟩
  refine ⟨?_, congrArg (· + 1) hsegment, rfl, hrest⟩
  show p.nextQoe b s.segment _ s q ≤ p.nextQoe b' s'.segment _ s' q
  unfold nextQoe
  rw [hlocal, ← hsegment, ← hquality]
  rw [← hsegment] at hcharge
  unfold TargetAbr3.localQoe baseQoe SECOND
  push_cast at hcharge
  linarith

/-- **When `TargetAbr3` keeps the monotonicity.** Exactly when every plan under the lower
bandwidth is matched by a plan under the higher one; in particular when along every plan the
charge for the fuller buffer is covered by the rebuffering it saves. -/
theorem target3_mono_iff (p : Planner) (hlocal : p.localQoe = TargetAbr3.localQoe)
    (hp : p.WellPosed) (b b' : ℚ) :
    (p.QoeLe b b' ↔ ∀ plan, p.IsPlan plan →
      ∃ plan', p.IsPlan plan' ∧ p.planScore b plan ≤ p.planScore b' plan') ∧
    ((∀ plan, p.IsPlan plan → p.ChargesCovered b b' p.startState p.startState plan) →
      p.QoeLe b b') := by
  refine ⟨qoeLe_iff hp, fun hcovered => ?_⟩
  rw [qoeLe_iff hp]
  intro plan hplan
  exact ⟨plan, hplan, planScore_le_of_covered hlocal (hcovered plan hplan)⟩

/-- One track of four segments of 4 s; segment 2 takes 8 s to download at 1000 kbps. -/
def oneTrack : Tracks where
  segments := [[⟨0, 80, 1000000⟩, ⟨4, 80, 1000000⟩, ⟨8, 80, 1000000⟩, ⟨12, 80, 1000000⟩]]
  length := 4
  nonempty := by decide
  equallyLong := by decide
  ordered := by decide

/-- `TargetAbr3` on this video, after the first decision, with a given buffer level. -/
def target3 (startBuffer : ℤ) : Planner := ⟨oneTrack, TargetAbr3.localQoe, 1, 0, startBuffer⟩

theorem target3_wellPosed (startBuffer : ℤ) : (target3 startBuffer).WellPosed :=
  ⟨⟨by simp [target3], by simp [target3], by simp [target3, oneTrack]⟩, oneTrack.ordered⟩

/-- There is one plan. -/
theorem target3_isPlan {startBuffer : ℤ} {plan : List ℤ} (h : (target3 startBuffer).IsPlan plan) :
    plan = [0] := by
  obtain ⟨hallowed, hlen⟩ := h
  have hone : plan.length = 1 := hlen
  obtain ⟨q, rfl⟩ := List.length_eq_one_iff.mp hone
  have hq : max 0 ((0 : ℤ) - 2) ≤ q ∧ q ≤ min (((1 : ℕ) : ℤ) - 1) (0 + 1) := hallowed.1
  rw [show q = 0 by omega]

theorem target3_downloadTimeMs (startBuffer : ℤ) (b : ℚ) :
    (target3 startBuffer).downloadTimeMs b 1 0 = 8000 / b * 1000 := by
  have hsize : ((target3 startBuffer).video.info 0 (1 + 1)).size = 1000000 := rfl
  rw [downloadTimeMs, hsize]
  norm_num [SECOND]

theorem target3_segmentLengthMs (startBuffer : ℤ) :
    (target3 startBuffer).segmentLengthMs 1 0 = 4000 := by
  have hlong : (1 + 1 : ℤ) + 1 < (oneTrack.track 0).length := by decide
  have href : refIndex ((target3 startBuffer).video.track 0).length (1 + 1) = 2 :=
    refIndex_of_lt hlong
  have hstart : ((target3 startBuffer).video.info 0 2).startTime = 8 := rfl
  have hnext : ((target3 startBuffer).video.info 0 (2 + 1)).startTime = 12 := rfl
  rw [segmentLengthMs, href, hstart, hnext, show SECOND * (12 - 8) = ((4000 : ℤ) : ℚ) by
    norm_num [SECOND], truncate_intCast]

/-- The score of the plan, from what the download leaves. -/
theorem target3_planScore (startBuffer : ℤ) (b : ℚ) {rebuffer buffer : ℤ}
    (hrebuffer : (target3 startBuffer).rebuffer b 1 (target3 startBuffer).startState 0 = rebuffer)
    (hbuffer : (target3 startBuffer).bufferAfter b 1 (target3 startBuffer).startState 0 = buffer) :
    (target3 startBuffer).planScore b [0] = truncate (80 - rebuffer / 10 - buffer / 50) := by
  have hvmaf : (target3 startBuffer).video.vmaf 0 (1 + 1) = 80 := by
    show truncate 80 = 80
    exact_mod_cast truncate_intCast 80
  have hlast : (target3 startBuffer).video.vmaf 0 1 = 80 := by
    show truncate 80 = 80
    exact_mod_cast truncate_intCast 80
  show truncate (((0 : ℤ) : ℚ) + TargetAbr3.localQoe ((target3 startBuffer).video.vmaf 0 (1 + 1))
    ((target3 startBuffer).video.vmaf 0 1)
    (truncate ((target3 startBuffer).rebuffer b 1 (target3 startBuffer).startState 0))
    (truncate ((target3 startBuffer).bufferAfter b 1 (target3 startBuffer).startState 0))) = _
  rw [hvmaf, hlast, hrebuffer, hbuffer, truncate_intCast, truncate_intCast]
  congr 1
  unfold TargetAbr3.localQoe baseQoe alpha beta gamma zetta SECOND horizon
  push_cast
  rw [sub_self, abs_zero]
  unfold gamma
  ring

/-- The planner returns the score of the one plan there is. -/
theorem target3_qoe (startBuffer : ℤ) (b : ℚ) (order : IterationOrder) :
    ((target3 startBuffer).qoe b order).map Prod.fst =
      some ((target3 startBuffer).planScore b [0]) := by
  obtain ⟨v, hqoe, ⟨plan, hplan, hscore⟩, -⟩ := exists_best (target3_wellPosed startBuffer) b
  obtain ⟨q, hq⟩ := hqoe order
  rw [hq, Option.map_some, ← hscore, target3_isPlan hplan]

/-- With an empty buffer the playback stalls under both bandwidths, and the buffer is the
same afterwards. -/
theorem target3_mono_stalling : (target3 0).QoeLe 1000 2000 := by
  refine (target3_mono_iff (target3 0) rfl (target3_wellPosed 0) 1000 2000).2 ?_
  intro plan hplan
  have hsegment : (target3 0).startState.segment = 1 := rfl
  have hbuffer : (target3 0).startState.buffer = 0 := rfl
  rw [target3_isPlan hplan, ChargesCovered, ChargesCovered]
  refine ⟨?_, trivial⟩
  have hlow : (target3 0).rebuffer 1000 1 (target3 0).startState 0 = ((8000 : ℤ) : ℚ) := by
    rw [rebuffer, target3_downloadTimeMs, hbuffer]
    norm_num
  have hhigh : (target3 0).rebuffer 2000 1 (target3 0).startState 0 = ((4000 : ℤ) : ℚ) := by
    rw [rebuffer, target3_downloadTimeMs, hbuffer]
    norm_num
  have hsame : (target3 0).bufferAfter 2000 1 (target3 0).startState 0 =
      (target3 0).bufferAfter 1000 1 (target3 0).startState 0 := by
    rw [bufferAfter, bufferAfter, target3_downloadTimeMs, target3_downloadTimeMs, hbuffer]
    norm_num
  rw [hsegment, hlow, hhigh, hsame, truncate_intCast, truncate_intCast]
  norm_num [gamma]

/-- **More bandwidth, less QoE.** With 10 s buffered, doubling the bandwidth saves no
rebuffering, and the fuller buffer costs. -/
theorem target3_not_mono :
    (target3 10000).WellPosed ∧ (0 : ℚ) < 1000 ∧ (1000 : ℚ) ≤ 2000 ∧
    (∀ order, ((target3 10000).qoe 1000 order).map Prod.fst = some (-40)) ∧
    ∀ order, ((target3 10000).qoe 2000 order).map Prod.fst = some (-120) := by
  have hbuffer : (target3 10000).startState.buffer = 250 := rfl
  have hlow : (target3 10000).planScore 1000 [0] = -40 := by
    have hrebuffer : (target3 10000).rebuffer 1000 1 (target3 10000).startState 0
        = ((0 : ℤ) : ℚ) := by
      rw [rebuffer, target3_downloadTimeMs, hbuffer]
      norm_num [bufferUnit]
    have hafter : (target3 10000).bufferAfter 1000 1 (target3 10000).startState 0 =
        ((6000 : ℤ) : ℚ) := by
      rw [bufferAfter, target3_downloadTimeMs, target3_segmentLengthMs, hbuffer]
      norm_num [bufferUnit, maxBuffer]
    rw [target3_planScore 10000 1000 hrebuffer hafter]
    norm_num [truncate]
  have hhigh : (target3 10000).planScore 2000 [0] = -120 := by
    have hrebuffer : (target3 10000).rebuffer 2000 1 (target3 10000).startState 0
        = ((0 : ℤ) : ℚ) := by
      rw [rebuffer, target3_downloadTimeMs, hbuffer]
      norm_num [bufferUnit]
    have hafter : (target3 10000).bufferAfter 2000 1 (target3 10000).startState 0 =
        ((10000 : ℤ) : ℚ) := by
      rw [bufferAfter, target3_downloadTimeMs, target3_segmentLengthMs, hbuffer]
      norm_num [bufferUnit, maxBuffer]
    rw [target3_planScore 10000 2000 hrebuffer hafter]
    norm_num [truncate]
  refine ⟨target3_wellPosed 10000, by norm_num, by norm_num, ?_, ?_⟩
  · intro order
    rw [target3_qoe, hlow]
  · intro order
    rw [target3_qoe, hhigh]

end Planner

end Target
end LiveStream
