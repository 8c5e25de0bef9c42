import LiveStream.Target.PlannerTable

/-!
# The planner is exact

* `bestState_spec`, what the search for the best last state finds;
* `qoe_of_planLength_pos`, what `qoe` returns for every iteration order;
* `qoe_exact`, that this is the best score of an allowed sequence of qualities, with the
  first quality of such a sequence.
-/

namespace LiveStream
namespace Target
namespace Planner

open Lib TargetAbrConstants

variable {p : Planner} {b : ℚ} {order : IterationOrder}

/-! ## The best last state -/

/-- The candidates in the order they are looked at. -/
def cands (p : Planner) (segment : ℤ) : List State :=
  (List.range (maxBuffer + 1)).flatMap fun (buffer : ℕ) =>
    (List.range p.video.segments.length).map fun (q : ℕ) => ⟨segment, buffer, q⟩

theorem bestState_eq (t : Search) :
    p.bestState t = (cands p t.maxSegment).foldl (pick t.dp) State.null := by
  rw [bestState, cands, List.foldl_flatMap]
  simp only [List.foldl_map]

theorem mem_cands {segment : ℤ} {s : State} : s ∈ cands p segment ↔
    s.segment = segment ∧ (0 ≤ s.buffer ∧ s.buffer ≤ maxBuffer) ∧
      0 ≤ s.quality ∧ s.quality < p.video.segments.length := by
  simp only [cands, List.mem_flatMap, List.mem_map, List.mem_range]
  constructor
  · rintro ⟨buffer, hbuffer, q, hq, rfl⟩
    dsimp only
    omega
  · rintro ⟨rfl, hbuffer, hquality⟩
    refine ⟨s.buffer.toNat, by omega, s.quality.toNat, by omega, ?_⟩
    rw [Int.toNat_of_nonneg hbuffer.1, Int.toNat_of_nonneg hquality.1]

/-- The loop keeps one of the stored candidates by comparing totals; `State.null` stands for
none yet. -/
theorem foldl_pick_eq (dp : State → Option Value) {cs : List State}
    (hcs : ∀ c ∈ cs, c.eq State.null = false) (held : Option State)
    (hheld : ∀ s, held = some s → s.eq State.null = false) :
    cs.foldl (pick dp) (held.getD State.null) = ((cs.filter fun c => (dp c).isSome).foldl
      (keepBy fun s c => (lookup dp s).qoe ≤ (lookup dp c).qoe) held).getD State.null := by
  induction cs generalizing held with
  | nil => rfl
  | cons c cs ih =>
    have hc : c.eq State.null = false := hcs c (List.mem_cons_self ..)
    have htail : ∀ d ∈ cs, d.eq State.null = false := fun d hd => hcs d (List.mem_cons_of_mem _ hd)
    rw [List.foldl_cons, List.filter_cons]
    by_cases hsome : (dp c).isSome
    · rw [if_pos hsome, List.foldl_cons]
      set held' := keepBy (fun s c => (lookup dp s).qoe ≤ (lookup dp c).qoe) held c with hheld'
      have hpick : pick dp (held.getD State.null) c = held'.getD State.null := by
        cases held with
        | none => simp [pick, hsome, hheld', keepBy, State.eq]
        | some s =>
          simp only [pick, hsome, hheld s rfl, hheld', keepBy, Option.getD_some, true_and,
            Bool.false_eq_true, false_or, decide_eq_true_eq]
          split <;> rfl
      rw [hpick]
      apply ih htail
      intro s hs
      rcases keepBy_eq_some hs with rfl | hs
      · exact hc
      · exact hheld s hs
    · have hpick : pick dp (held.getD State.null) c = held.getD State.null := by
        rw [pick, if_neg fun h => hsome h.1]
      rw [if_neg hsome, hpick]
      exact ih htail held hheld

/-- The best state is a stored candidate of the largest total, if one is stored. -/
theorem bestState_spec {t : Search} (ht : 0 ≤ t.maxSegment) :
    (p.bestState t = State.null ∧ ∀ c ∈ cands p t.maxSegment, t.dp c = none) ∨
      (p.bestState t ∈ cands p t.maxSegment ∧ (t.dp (p.bestState t)).isSome ∧
        ∀ c ∈ cands p t.maxSegment, (t.dp c).isSome →
          (lookup t.dp c).qoe ≤ (lookup t.dp (p.bestState t)).qoe) := by
  have hcs : ∀ c ∈ cands p t.maxSegment, c.eq State.null = false := fun c hc =>
    not_null_of_segment ((mem_cands.mp hc).1 ▸ ht)
  have hfold := foldl_pick_eq t.dp hcs none (by simp)
  rw [Option.getD_none, ← bestState_eq] at hfold
  have hyes : ∀ s c : State, decide ((lookup t.dp s).qoe ≤ (lookup t.dp c).qoe) = true →
      (lookup t.dp s).qoe ≤ (lookup t.dp c).qoe := fun _ _ => of_decide_eq_true
  have hno : ∀ s c : State, decide ((lookup t.dp s).qoe ≤ (lookup t.dp c).qoe) = false →
      (lookup t.dp c).qoe ≤ (lookup t.dp s).qoe :=
    fun _ _ h => (not_le.mp (of_decide_eq_false h)).le
  rcases foldl_keepBy_spec hyes hno
    ((cands p t.maxSegment).filter fun c => (t.dp c).isSome)
    with ⟨hnil, hnone⟩ | ⟨a, ha, hsome, hmax⟩
  · left
    rw [hfold, hnone]
    refine ⟨rfl, fun c hc => ?_⟩
    have hempty := List.filter_eq_nil_iff.mp hnil c hc
    simpa using hempty
  · right
    rw [hfold, hsome, Option.getD_some]
    obtain ⟨hmem, hstored⟩ := List.mem_filter.mp ha
    exact ⟨hmem, hstored, fun c hc hcs => hmax c (List.mem_filter.mpr ⟨hc, hcs⟩)⟩

/-! ## The last states are among the candidates -/

theorem refIndex_of_lt {size index : ℤ} (h : index + 1 < size) : refIndex size index = index := by
  rw [refIndex, if_neg (by omega)]

theorem startTime_le (hp : p.WellPosed) {q i : ℤ} (hq : 0 ≤ q) (hqn : q < p.video.segments.length)
    (hi : 0 ≤ i) (hiL : i + 1 < p.video.length) :
    (p.video.info q i).startTime ≤ (p.video.info q (i + 1)).startTime := by
  have hlen := length_track p.video hq hqn
  have hlt : i.toNat < (p.video.track q).length := by omega
  have hlt' : (i + 1).toNat < (p.video.track q).length := by omega
  have hmem : p.video.track q ∈ p.video.segments := by
    rw [TrackTable.track, List.getD_eq_getElem _ _ (by omega)]
    exact List.getElem_mem _
  have hordered := List.pairwise_map.mp (hp.ordered _ hmem)
  rw [TrackTable.info, TrackTable.info, List.getD_eq_getElem _ _ hlt, List.getD_eq_getElem _ _ hlt']
  exact List.pairwise_iff_getElem.mp hordered _ _ hlt hlt' (by omega)

theorem segmentLengthMs_nonneg (hp : p.WellPosed) {i q : ℤ} (hq : 0 ≤ q)
    (hqn : q < p.video.segments.length) (hi : 0 ≤ i) (hiL : i + 2 < p.video.length) :
    0 ≤ p.segmentLengthMs i q := by
  have href : refIndex (p.video.track q).length (i + 1) = i + 1 := by
    apply refIndex_of_lt
    rw [length_track p.video hq hqn]
    omega
  rw [segmentLengthMs, href]
  apply truncate_nonneg
  have hle := startTime_le hp hq hqn (i := i + 1) (by omega) (by omega)
  have hsecond : (0 : ℚ) ≤ SECOND := by norm_num [SECOND]
  exact mul_nonneg hsecond (sub_nonneg.mpr hle)

/-- The buffer level of a state the search enters is a level the last loop looks at. -/
theorem nextState_buffer {i q : ℤ} (s : State) (hlength : 0 ≤ p.segmentLengthMs i q) :
    0 ≤ (p.nextState b i s q).buffer ∧ (p.nextState b i s q).buffer ≤ maxBuffer := by
  have hunit : (0 : ℚ) < bufferUnit := by norm_num [bufferUnit]
  have hlength' : (0 : ℚ) ≤ p.segmentLengthMs i q := by exact_mod_cast hlength
  constructor
  · apply truncate_nonneg
    apply div_nonneg _ hunit.le
    apply le_min
    · apply add_nonneg _ hlength'
      split
      · exact le_refl 0
      · next hlt => exact sub_nonneg.mpr (not_lt.mp hlt)
    · exact mul_nonneg (Nat.cast_nonneg _) hunit.le
  · have hcap : p.bufferAfter b i s q ≤ maxBuffer * bufferUnit := min_le_right _ _
    apply truncate_le
    rw [div_le_iff₀ hunit]
    exact_mod_cast hcap

/-- Every state of the last round is a candidate. -/
theorem Level.mem_cands_of_mem {k : ℕ} {t : Search} (hp : p.WellPosed) (h : Level p b k t)
    (hk : 0 < k) (hL : p.lastIndex + k + 1 < p.video.length) {s : State} (hs : s ∈ t.states) :
    s ∈ cands p t.maxSegment := by
  obtain ⟨plan, hadm, hlen, hend⟩ := (h.mem_states s).mp hs
  have hone := hp.one_le
  have hquality := quality_endState hp.toPlaced hadm
  rw [hend] at hquality
  rw [mem_cands, h.maxSegment_eq, if_neg (by omega)]
  refine ⟨h.segment_eq hs, ?_, hquality⟩
  rcases List.eq_nil_or_concat' plan with rfl | ⟨front, q, rfl⟩
  · simp at hlen
    omega
  · have hfront : front.length + 1 = k := by simpa using hlen
    have hsegment := segment_endState (p := p) (b := b) p.startState front
    have hstart : p.startState.segment = p.lastIndex := rfl
    rw [Problem.endState_concat] at hend
    have hq : s.quality = q := by
      rw [← hend]
      rfl
    rw [← hend]
    apply nextState_buffer
    apply segmentLengthMs_nonneg hp <;> omega

/-! ## What `qoe` returns -/

theorem planLength_eq_zero_iff : p.planLength = 0 ↔ (p.video.length : ℤ) ≤ p.lastIndex + 2 := by
  unfold planLength horizon
  omega

/-- The second state of the path has the first quality of the plan. -/
theorem second_visited (s : State) (q : ℤ) (plan : List ℤ) :
    ∃ u : State, ((problem p b).visited s (q :: plan))[1]? = some u ∧ u.quality = q := by
  refine ⟨p.nextState b s.segment s q, ?_, rfl⟩
  rw [Problem.visited, List.getElem?_cons_succ]
  cases plan <;> rfl

/-- The answer read off the walk back from the best state. -/
theorem qoe_of_walk {best u : State} {path : List State}
    (hbest : p.bestState (p.search b order) = best) (hnotnull : best.eq State.null = false)
    (hwalk : walk (p.search b order).dp walkFuel best = some path.reverse)
    (hu : path[1]? = some u) :
    p.qoe b order = some ((lookup (p.search b order).dp best).qoe, u.quality) := by
  obtain ⟨hlong, -⟩ := List.getElem?_eq_some_iff.mp hu
  rw [qoe]
  simp only [hbest, hnotnull, hwalk, List.reverse_reverse, Option.bind_eq_bind, Option.bind_some,
    if_pos hlong, hu]
  rfl

/-- Without a stored candidate the quality is kept. -/
theorem qoe_of_bestState_eq_null (h : p.bestState (p.search b order) = State.null) :
    p.qoe b order = some (0, p.currentQuality) := by
  rw [qoe]
  simp only [h]
  rfl

/-- Where nothing can be planned, the quality is kept. -/
theorem qoe_of_planLength_eq_zero (order : IterationOrder) (hp : p.Placed) (h0 : p.planLength = 0) :
    p.qoe b order = some (0, p.currentQuality) := by
  have hlevel := level_search (b := b) order hp
  have hone := hp.one_le
  have hmax := hlevel.maxSegment_eq
  rw [if_pos h0] at hmax
  apply qoe_of_bestState_eq_null
  -- the candidates belong to segment 0, about which nothing is stored
  rcases bestState_spec (p := p) (t := p.search b order) hmax.ge with ⟨hnull, -⟩ | ⟨hmem, hsome, -⟩
  · exact hnull
  · have hsegment := (mem_cands.mp hmem).1
    have hlater := hlevel.later _ hsome
    omega

theorem maxSegment_search (order : IterationOrder) (hp : p.Placed) (hpos : 0 < p.planLength) :
    (p.search b order).maxSegment = p.lastIndex + p.planLength := by
  rw [(level_search (b := b) order hp).maxSegment_eq, if_neg hpos.ne']

/-- With one, the answer is the first quality of a plan that ends there, and its score. -/
theorem qoe_of_bestState (order : IterationOrder) (hp : p.Placed) (hpos : 0 < p.planLength)
    (hmem : p.bestState (p.search b order) ∈ cands p (p.search b order).maxSegment)
    (hsome : ((p.search b order).dp (p.bestState (p.search b order))).isSome) :
    ∃ q plan, (problem p b).Admissible p.startState (q :: plan) ∧
      (q :: plan).length = p.planLength ∧
      p.qoe b order = some ((problem p b).score p.startState 0 (q :: plan), q) ∧
      (lookup (p.search b order).dp (p.bestState (p.search b order))).qoe =
        (problem p b).score p.startState 0 (q :: plan) := by
  have hlevel := level_search (b := b) order hp
  have hmax := maxSegment_search (b := b) order hp hpos
  have hone := hp.one_le
  generalize ht : p.search b order = t at hlevel hmem hsome hmax
  generalize hbestState : p.bestState t = best at hmem hsome
  have hsegment : best.segment = t.maxSegment := (mem_cands.mp hmem).1
  have hstate : best ∈ t.states := hlevel.only best (by omega) hsome
  obtain ⟨e, plan, he, -, hplan, hwalk⟩ := hlevel.stored best hstate
  rcases plan with _ | ⟨q, plan⟩
  · have hlen := hplan.length_eq
    simp at hlen
    omega
  · have hhorizon : p.planLength ≤ horizon + 1 := min_le_left _ _
    have hfuel : p.planLength + 2 ≤ walkFuel := by
      unfold walkFuel
      omega
    obtain ⟨u, hu, huq⟩ := second_visited (p := p) (b := b) p.startState q plan
    have hnotnull : best.eq State.null = false := not_null_of_segment (by omega)
    subst ht
    refine ⟨q, plan, hplan.admissible, hplan.length_eq, ?_, ?_⟩
    · rw [qoe_of_walk hbestState hnotnull (hwalk walkFuel hfuel) hu, lookup_of_some he,
        hplan.score_eq, huq]
    · rw [lookup_of_some he, hplan.score_eq]

/-- **What `qoe` returns.** The score and the first quality of a plan that no plan of its
length beats. -/
theorem qoe_of_planLength_pos (order : IterationOrder) (hp : p.WellPosed)
    (hpos : 0 < p.planLength) :
    ∃ q plan, (problem p b).Admissible p.startState (q :: plan) ∧
      (q :: plan).length = p.planLength ∧
      p.qoe b order = some ((problem p b).score p.startState 0 (q :: plan), q) ∧
      ∀ plan', (problem p b).Admissible p.startState plan' → plan'.length = p.planLength →
        (problem p b).score p.startState 0 plan' ≤
          (problem p b).score p.startState 0 (q :: plan) := by
  have hlevel := level_search (b := b) order hp.toPlaced
  have hmax := maxSegment_search (b := b) order hp.toPlaced hpos
  have hone := hp.one_le
  have hL : p.lastIndex + p.planLength + 1 < p.video.length := by
    unfold planLength at hpos ⊢
    omega
  have hstored : ∀ s ∈ (p.search b order).states,
      s ∈ cands p (p.search b order).maxSegment ∧ ((p.search b order).dp s).isSome := by
    intro s hs
    obtain ⟨e, -, he, -⟩ := hlevel.stored s hs
    exact ⟨hlevel.mem_cands_of_mem hp hpos hL hs, by simp [he]⟩
  rcases bestState_spec (p := p) (t := p.search b order) (by omega) with
    ⟨-, hnone⟩ | ⟨hmem, hsome, hbest⟩
  · -- the end of any plan is stored
    obtain ⟨plan, hadm, hlen⟩ := exists_plan (b := b) hp.toPlaced p.planLength
    obtain ⟨hcand, hsome⟩ := hstored _ ((hlevel.mem_states _).mpr ⟨plan, hadm, hlen, rfl⟩)
    rw [hnone _ hcand] at hsome
    cases hsome
  · obtain ⟨q, plan, hadm, hlen, hqoe, hscore⟩ :=
      qoe_of_bestState order hp.toPlaced hpos hmem hsome
    refine ⟨q, plan, hadm, hlen, hqoe, ?_⟩
    intro plan' hadm' hlen'
    have hend := (hlevel.mem_states _).mpr ⟨plan', hadm', hlen', rfl⟩
    obtain ⟨e', plan'', he', -, hplan', -⟩ := hlevel.stored _ hend
    obtain ⟨hcand, hsome'⟩ := hstored _ hend
    have hle := hbest _ hcand hsome'
    rw [hscore, lookup_of_some he'] at hle
    exact (hplan'.upper plan' hadm' hlen' rfl).trans hle

/-- The planner always answers, with a quality at most one above and two below the current one.
Where the start times are not in order no candidate may be stored; then the quality is kept. -/
theorem qoe_mem_qualities (order : IterationOrder) (hp : p.Placed) :
    ∃ r, p.qoe b order = some r ∧ r.2 ∈ p.qualities p.startState := by
  have hkeep : p.currentQuality ∈ p.qualities p.startState :=
    quality_mem_qualities (s := p.startState) hp.quality_nonneg hp.quality_lt
  rcases Nat.eq_zero_or_pos p.planLength with h0 | hpos
  · exact ⟨_, qoe_of_planLength_eq_zero order hp h0, hkeep⟩
  · have hmax := maxSegment_search (b := b) order hp hpos
    have hone := hp.one_le
    rcases bestState_spec (p := p) (t := p.search b order) (by omega) with
      ⟨hnull, -⟩ | ⟨hmem, hsome, -⟩
    · exact ⟨_, qoe_of_bestState_eq_null hnull, hkeep⟩
    · obtain ⟨q, plan, hadm, -, hqoe, -⟩ := qoe_of_bestState order hp hpos hmem hsome
      exact ⟨_, hqoe, hadm.1⟩

/-! ## Exactness -/

/-- Sequences of qualities of `n` tracks that start from `c` and go up by at most one and
down by at most two at each segment. -/
def Allowed (n : ℕ) : ℤ → List ℤ → Prop
  | _, [] => True
  | c, q :: plan => (max 0 (c - 2) ≤ q ∧ q ≤ min ((n : ℤ) - 1) (c + 1)) ∧ Allowed n q plan

theorem admissible_iff_allowed {s : State} {plan : List ℤ} :
    (problem p b).Admissible s plan ↔ Allowed p.video.segments.length s.quality plan := by
  induction plan generalizing s with
  | nil => exact Iff.rfl
  | cons q plan ih =>
    rw [Problem.Admissible, Allowed, ih]
    exact and_congr_left fun _ => mem_qualities

/-- The score of a sequence of qualities for the segments after the latest decision. -/
def planScore (p : Planner) (b : ℚ) (plan : List ℤ) : ℤ := (problem p b).score p.startState 0 plan

/-- The sequences the planner chooses from. -/
def IsPlan (p : Planner) (plan : List ℤ) : Prop :=
  Allowed p.video.segments.length p.currentQuality plan ∧ plan.length = p.planLength

theorem isPlan_iff {plan : List ℤ} : p.IsPlan plan ↔
    (problem p b).Admissible p.startState plan ∧ plan.length = p.planLength :=
  and_congr_left fun _ => (admissible_iff_allowed (s := p.startState)).symm

/-- Whatever the iteration order, `qoe` returns the best score of a plan. -/
theorem exists_best (hp : p.WellPosed) (b : ℚ) :
    ∃ v, (∀ order, ∃ q, p.qoe b order = some (v, q)) ∧
      (∃ plan, p.IsPlan plan ∧ p.planScore b plan = v) ∧
      ∀ plan, p.IsPlan plan → p.planScore b plan ≤ v := by
  rcases Nat.eq_zero_or_pos p.planLength with h0 | hpos
  · refine ⟨0, fun order => ⟨_, qoe_of_planLength_eq_zero order hp.toPlaced h0⟩,
      ⟨[], ⟨trivial, h0.symm⟩, rfl⟩, ?_⟩
    rintro plan ⟨-, hlen⟩
    rw [List.length_eq_zero_iff.mp (hlen.trans h0)]
    exact le_refl 0
  · obtain ⟨q, plan, hadm, hlen, -, hmax⟩ := qoe_of_planLength_pos (b := b) .insertion hp hpos
    refine ⟨p.planScore b (q :: plan), fun order => ?_,
      ⟨q :: plan, isPlan_iff.mpr ⟨hadm, hlen⟩, rfl⟩, ?_⟩
    · -- the plans found in two orders are both best
      obtain ⟨q', plan', hadm', hlen', hqoe', hmax'⟩ := qoe_of_planLength_pos (b := b) order hp hpos
      have hscore : p.planScore b (q' :: plan') = p.planScore b (q :: plan) :=
        le_antisymm (hmax _ hadm' hlen') (hmax' _ hadm hlen)
      exact ⟨q', hscore ▸ hqoe'⟩
    · intro plan' hplan'
      obtain ⟨hadm', hlen'⟩ := (isPlan_iff (b := b)).mp hplan'
      exact hmax plan' hadm' hlen'

/-- **The planner is exact**, whatever `localQoe` it calls. Near the end of the video it
keeps the quality. Otherwise it returns, in every iteration order, the best score that an
allowed sequence of qualities for the segments `l + 1, …, min (l + 11) (L - 2)` has, with
the first quality of a sequence of that score. The score itself is the same for all orders. -/
theorem qoe_exact (p : Planner) (hp : p.WellPosed) (b : ℚ) :
    (p.video.length ≤ p.lastIndex + 2 → ∀ order, p.qoe b order = some (0, p.currentQuality)) ∧
    (p.lastIndex + 2 < p.video.length → ∀ order, ∃ q plan,
      Allowed p.video.segments.length p.currentQuality (q :: plan) ∧
      ((q :: plan).length : ℤ) = min (p.lastIndex + 11) (p.video.length - 2) - p.lastIndex ∧
      p.qoe b order = some (p.planScore b (q :: plan), q) ∧
      ∀ plan', Allowed p.video.segments.length p.currentQuality plan' →
        (plan'.length : ℤ) = min (p.lastIndex + 11) (p.video.length - 2) - p.lastIndex →
        p.planScore b plan' ≤ p.planScore b (q :: plan)) ∧
    ∀ order order', (p.qoe b order).map Prod.fst = (p.qoe b order').map Prod.fst := by
  refine ⟨fun hL order => ?_, fun hL order => ?_, fun order order' => ?_⟩
  · exact qoe_of_planLength_eq_zero order hp.toPlaced (planLength_eq_zero_iff.mpr hL)
  · have hpos : 0 < p.planLength := by
      rw [Nat.pos_iff_ne_zero, ne_eq, planLength_eq_zero_iff]
      omega
    have hlength : (p.planLength : ℤ) =
        min (p.lastIndex + 11) (p.video.length - 2) - p.lastIndex := by
      unfold planLength horizon
      omega
    obtain ⟨q, plan, hadm, hlen, hqoe, hmax⟩ := qoe_of_planLength_pos (b := b) order hp hpos
    refine ⟨q, plan, admissible_iff_allowed.mp hadm, by rw [hlen, hlength], hqoe, ?_⟩
    intro plan' hallowed hlen'
    exact hmax plan' (admissible_iff_allowed.mpr hallowed) (by omega)
  · obtain ⟨v, hv, -, -⟩ := exists_best hp b
    obtain ⟨q, hq⟩ := hv order
    obtain ⟨q', hq'⟩ := hv order'
    rw [hq, hq', Option.map_some, Option.map_some]

/-- Two tracks of four segments, asked about after the first decision. -/
def shortVideo : Tracks where
  segments := [[⟨0, 80, 100000⟩, ⟨4, 80, 100000⟩, ⟨8, 70, 150000⟩, ⟨12, 80, 100000⟩],
    [⟨0, 90, 300000⟩, ⟨4, 90, 300000⟩, ⟨8, 85, 450000⟩, ⟨12, 90, 300000⟩]]
  length := 4
  nonempty := by decide
  equallyLong := by decide
  ordered := by decide

/-- Both algorithms on the short video. -/
theorem qoe_exact_shortVideo :
    let p : Planner := ⟨shortVideo, TargetAbr.localQoe, 1, 0, 4000⟩
    let p2 : Planner := ⟨shortVideo, TargetAbr2.localQoe, 1, 0, 4000⟩
    (∀ order, ∃ q plan, Allowed 2 0 (q :: plan) ∧
      p.qoe 1000 order = some (p.planScore 1000 (q :: plan), q)) ∧
    (∀ order, ∃ q plan, Allowed 2 0 (q :: plan) ∧
      p2.qoe 1000 order = some (p2.planScore 1000 (q :: plan), q)) := by
  intro p p2
  constructor
  · intro order
    obtain ⟨q, plan, hallowed, -, hqoe, -⟩ :=
      (qoe_exact p ⟨⟨by decide, by decide, by decide⟩, shortVideo.ordered⟩ 1000).2.1
        (by decide) order
    exact ⟨q, plan, hallowed, hqoe⟩
  · intro order
    obtain ⟨q, plan, hallowed, -, hqoe, -⟩ :=
      (qoe_exact p2 ⟨⟨by decide, by decide, by decide⟩, shortVideo.ordered⟩ 1000).2.1
        (by decide) order
    exact ⟨q, plan, hallowed, hqoe⟩

end Planner
end Target
end LiveStream
