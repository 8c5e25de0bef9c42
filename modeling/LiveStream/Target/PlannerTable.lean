import LiveStream.Target.Planner

/-!
# What the planner's table holds

`problem p b` is the decision problem the planner solves: states are those of the table, a
choice is the quality of the next segment, and the gain is the segment's `localQoe`. The
scores of its plans keep a running total that is truncated at each segment.

* `Level p b k t`: after `k` rounds the table holds, for every state that a plan of length
  `k` leads to, the best score of such a plan, and the back-pointers trace one;
* `Level.round` and `level_search`, that every round keeps this.
-/

namespace LiveStream
namespace Target
namespace Planner

open Lib TargetAbrConstants

/-- The decision problem of the planner under a fixed bandwidth. -/
def problem (p : Planner) (bandwidth : ℚ) : Problem State ℤ where
  choices := p.qualities
  next := fun s q => p.nextState bandwidth s.segment s q
  gain := fun s q => p.nextQoe bandwidth s.segment (p.video.vmaf s.quality s.segment) s q

/-- The planner is asked after a decision for one of the tracks. -/
structure Placed (p : Planner) : Prop where
  one_le : 1 ≤ p.lastIndex
  quality_nonneg : 0 ≤ p.currentQuality
  quality_lt : p.currentQuality < p.video.segments.length

/-- And about a video whose tracks are in order. -/
structure WellPosed (p : Planner) : Prop extends Placed p where
  ordered : ∀ track ∈ p.video.segments, (track.map Video.VideoInfo.startTime).Pairwise (· ≤ ·)

/-- How many segments are planned: up to `horizon + 1`, and none of the last two entries. -/
def planLength (p : Planner) : ℕ := min (horizon + 1) (p.video.length - 2 - p.lastIndex).toNat

variable {p : Planner} {b : ℚ} {order : IterationOrder}

/-! ## Qualities and segments -/

theorem mem_qualities {s : State} {q : ℤ} : q ∈ p.qualities s ↔
    max 0 (s.quality - 2) ≤ q ∧ q ≤ min ((p.video.segments.length : ℤ) - 1) (s.quality + 1) := by
  simp only [qualities, List.mem_map, List.mem_range]
  constructor
  · rintro ⟨i, hi, rfl⟩
    omega
  · rintro ⟨hlo, hhi⟩
    exact ⟨(q - max 0 (s.quality - 2)).toNat, by omega, by omega⟩

theorem length_track (v : TrackTable) {q : ℤ} (h0 : 0 ≤ q) (hq : q < v.segments.length) :
    (v.track q).length = v.length := by
  apply v.equallyLong
  have hlt : q.toNat < v.segments.length := by omega
  rw [TrackTable.track, List.getD_eq_getElem _ _ hlt]
  exact List.getElem_mem hlt

theorem segments_length_pos (v : TrackTable) : 0 < v.segments.length :=
  List.length_pos_of_ne_nil v.nonempty

theorem length_track_zero (v : TrackTable) : (v.track 0).length = v.length :=
  length_track v (le_refl 0) (by exact_mod_cast segments_length_pos v)

@[simp] theorem nextState_segment (i : ℤ) (s : State) (q : ℤ) :
    (p.nextState b i s q).segment = i + 1 := rfl

/-- A plan of length `k` ends `k` segments later. -/
theorem segment_endState (s : State) (plan : List ℤ) :
    ((problem p b).endState s plan).segment = s.segment + plan.length := by
  induction plan using List.reverseRecOn with
  | nil => simp [Problem.endState]
  | append_singleton plan q ih =>
    rw [Problem.endState_concat]
    show ((problem p b).endState s plan).segment + 1 = _
    rw [ih, List.length_append, List.length_singleton]
    push_cast
    ring

theorem segment_le_of_mem_visited {s u : State} {plan : List ℤ}
    (hu : u ∈ (problem p b).visited s plan) : u.segment ≤ s.segment + plan.length := by
  induction plan using List.reverseRecOn with
  | nil =>
    rw [Problem.visited, List.mem_singleton] at hu
    simp [hu]
  | append_singleton plan q ih =>
    rw [Problem.visited_concat, List.mem_append, List.mem_singleton] at hu
    rw [List.length_append, List.length_singleton]
    push_cast
    rcases hu with hu | rfl
    · have hle := ih hu
      omega
    · show ((problem p b).endState s plan).segment + 1 ≤ _
      rw [segment_endState]
      omega

/-- The qualities of a plan stay among the tracks. -/
theorem quality_endState (hp : p.Placed) {plan : List ℤ}
    (hplan : (problem p b).Admissible p.startState plan) :
    0 ≤ ((problem p b).endState p.startState plan).quality ∧
      ((problem p b).endState p.startState plan).quality < p.video.segments.length := by
  rcases List.eq_nil_or_concat' plan with rfl | ⟨front, q, rfl⟩
  · exact ⟨hp.quality_nonneg, hp.quality_lt⟩
  · rw [Problem.endState_concat]
    have hq := mem_qualities.mp (Problem.admissible_concat.mp hplan).2
    show 0 ≤ q ∧ q < p.video.segments.length
    omega

/-- Within the tracks the quality can be kept. -/
theorem quality_mem_qualities {s : State} (h0 : 0 ≤ s.quality)
    (hn : s.quality < p.video.segments.length) : s.quality ∈ p.qualities s := by
  rw [mem_qualities]
  omega

/-- So there are plans of every length. -/
theorem exists_plan (hp : p.Placed) (k : ℕ) :
    ∃ plan, (problem p b).Admissible p.startState plan ∧ plan.length = k := by
  induction k with
  | zero => exact ⟨[], trivial, rfl⟩
  | succ k ih =>
    obtain ⟨plan, hadm, hlen⟩ := ih
    obtain ⟨h0, hn⟩ := quality_endState hp hadm
    refine ⟨plan ++ [((problem p b).endState p.startState plan).quality], ?_, ?_⟩
    · exact Problem.admissible_concat.mpr ⟨hadm, quality_mem_qualities h0 hn⟩
    · rw [List.length_append, hlen, List.length_singleton]

/-! ## Following the table back -/

theorem not_null_of_segment {s : State} (h : 0 ≤ s.segment) : s.eq State.null = false := by
  have hne : s.segment ≠ -1 := by omega
  simp [State.eq, State.null, hne]

theorem lookup_of_some {dp : State → Option Value} {s : State} {e : Value} (h : dp s = some e) :
    lookup dp s = e := by
  rw [lookup, h, Option.getD_some]

/-- The walk reads only the states it returns. -/
theorem walk_congr {dp dp' : State → Option Value} {fuel : ℕ} {s : State} {path : List State}
    (h : walk dp fuel s = some path) (hsame : ∀ u ∈ path, dp' u = dp u) :
    walk dp' fuel s = some path := by
  induction fuel generalizing s path with
  | zero => cases h
  | succ fuel ih =>
    rw [walk] at h ⊢
    split at h
    · next hnull => rw [if_pos hnull, h]
    · next hnull =>
      obtain ⟨rest, hrest, rfl⟩ := Option.map_eq_some_iff.mp h
      have hs : lookup dp' s = lookup dp s := by
        rw [lookup, lookup, hsame s (List.mem_cons_self ..)]
      rw [if_neg hnull, hs, ih hrest fun u hu => hsame u (List.mem_cons_of_mem _ hu),
        Option.map_some]

/-! ## One round -/

/-- What the table holds after `k` rounds that planned a segment each. -/
structure Level (p : Planner) (b : ℚ) (k : ℕ) (t : Search) : Prop where
  /-- The current states are those that plans of length `k` lead to. -/
  mem_states : ∀ s, s ∈ t.states ↔ ∃ plan, (problem p b).Admissible p.startState plan ∧
    plan.length = k ∧ (problem p b).endState p.startState plan = s
  /-- Their entries are exact, and trace a best plan. -/
  stored : ∀ s ∈ t.states, ∃ e plan, t.dp s = some e ∧ e.vmaf = p.video.vmaf s.quality s.segment ∧
    (problem p b).IsBest p.startState k s e.qoe plan ∧
    ∀ fuel, k + 2 ≤ fuel →
      walk t.dp fuel s = some ((problem p b).visited p.startState plan).reverse
  /-- Nothing else is known about this segment or later ones. -/
  only : ∀ s, p.lastIndex + k ≤ s.segment → (t.dp s).isSome → s ∈ t.states
  /-- Nothing is known about segments before the latest decision. -/
  later : ∀ s, (t.dp s).isSome → p.lastIndex ≤ s.segment
  maxSegment_eq : t.maxSegment = if k = 0 then 0 else p.lastIndex + k

theorem Level.segment_eq {k : ℕ} {t : Search} (h : Level p b k t) {s : State} (hs : s ∈ t.states) :
    s.segment = p.lastIndex + k := by
  obtain ⟨plan, -, hlen, rfl⟩ := (h.mem_states s).mp hs
  rw [segment_endState, hlen]
  rfl

theorem eq_startState_of_isSome {s : State} (h : (p.start.dp s).isSome) : s = p.startState := by
  by_contra hs
  simp [start, Function.update_of_ne hs] at h

theorem level_start (hp : p.Placed) : Level p b 0 p.start where
  mem_states := by
    intro s
    simp only [start, List.mem_singleton]
    constructor
    · rintro rfl
      exact ⟨[], trivial, rfl, rfl⟩
    · rintro ⟨plan, -, hlen, rfl⟩
      rw [List.length_eq_zero_iff.mp hlen]
      rfl
  stored := by
    intro s hs
    obtain rfl : s = p.startState := List.mem_singleton.mp hs
    have hdp : p.start.dp p.startState =
        some ⟨0, p.video.vmaf p.currentQuality p.lastIndex, State.null⟩ := by
      simp [start]
    refine ⟨_, [], hdp, rfl, Problem.isBest_nil _, ?_⟩
    intro fuel hfuel
    obtain ⟨f, rfl⟩ : ∃ f, fuel = f + 2 := ⟨fuel - 2, by omega⟩
    have hstart : p.startState.eq State.null = false :=
      not_null_of_segment (le_trans zero_le_one hp.one_le)
    rw [walk, hstart, lookup_of_some hdp, if_neg Bool.false_ne_true, walk]
    rfl
  only := fun s _ hsome => List.mem_singleton.mpr (eq_startState_of_isSome hsome)
  later := by
    intro s hsome
    rw [eq_startState_of_isSome hsome]
    exact le_refl p.lastIndex
  maxSegment_eq := rfl

/-- The pairs a round tries, in the order it tries them. -/
def edges (p : Planner) (order : IterationOrder) (i : ℤ) (states : List State) : List (State × ℤ) :=
  (order.visit i states).flatMap fun s => (p.qualities s).map fun q => (s, q)

theorem mem_edges {i : ℤ} {states : List State} {c : State × ℤ} :
    c ∈ edges p order i states ↔ c.1 ∈ states ∧ c.2 ∈ p.qualities c.1 := by
  simp only [edges, List.mem_flatMap, List.mem_map, (order.perm i states).mem_iff]
  constructor
  · rintro ⟨s, hs, q, hq, rfl⟩
    exact ⟨hs, hq⟩
  · rintro ⟨hs, hq⟩
    exact ⟨c.1, hs, c.2, hq, rfl⟩

/-- Inside the horizon a round is a run over its pairs. -/
theorem round_eq {t : Search} {i : ℤ} (hi : i + 2 < p.video.length) :
    p.round b order t i = run (p.relaxEdge b i) { t with states := [] }
      (edges p order i t.states) := by
  have hin : ¬((p.video.track 0).length : ℤ) ≤ i + 2 := by
    rw [length_track_zero]
    omega
  rw [round, if_neg hin, run, edges, List.foldl_flatMap]
  simp only [List.foldl_map]

/-- Past it, it does nothing. -/
theorem round_of_le {t : Search} {i : ℤ} (hi : (p.video.length : ℤ) ≤ i + 2) :
    p.round b order t i = t := by
  rw [round, length_track_zero, if_pos hi]

/-- The table part of the search variables. -/
def Search.frontier (t : Search) : Frontier State Value := ⟨t.dp, t.states⟩

/-- The total of a pair, with the table entry it starts from read before the round. -/
def edgeTotal (p : Planner) (b : ℚ) (i : ℤ) (dp : State → Option Value) (c : State × ℤ) : ℚ :=
  (lookup dp c.1).qoe + p.nextQoe b i (lookup dp c.1).vmaf c.1 c.2

/-- The value stored for a pair. -/
def edgeValue (p : Planner) (b : ℚ) (i : ℤ) (dp : State → Option Value) (c : State × ℤ) : Value :=
  ⟨truncate (edgeTotal p b i dp c), p.video.vmaf c.2 (i + 1), c.1⟩

/-- The states a pair leads to are not those of the current segment, so the entries a round
reads do not change during it: it is a pass of `relax` with fixed totals. -/
theorem frontier_run (dp : State → Option Value) {t : Search} {i : ℤ} {cs : List (State × ℤ)}
    (hcs : ∀ c ∈ cs, c.1.segment = i) (ht : ∀ s, s.segment = i → t.dp s = dp s) :
    (run (p.relaxEdge b i) t cs).frontier =
      run (relax (fun c => p.nextState b i c.1 c.2) (edgeTotal p b i dp) (edgeValue p b i dp)
        Value.qoe) t.frontier cs := by
  -- an edge writes to segment `i + 1` only, so the entries it reads are those before the round
  apply run_map (P := fun t => ∀ s, s.segment = i → t.dp s = dp s) ht
  · intro t ht c _ s hs
    have hne : s ≠ p.nextState b i c.1 c.2 := by
      intro h
      rw [h, nextState_segment] at hs
      omega
    unfold relaxEdge
    dsimp only
    split
    · exact (Function.update_of_ne hne _ _).trans (ht s hs)
    · exact ht s hs
  · intro t ht c hc
    have hread : lookup t.dp c.1 = lookup dp c.1 := by
      rw [lookup, lookup, ht c.1 (hcs c hc)]
    unfold relaxEdge
    simp only [hread, apply_ite Search.frontier]
    rfl

/-- A pass that enters a state moves `max_segment` on. -/
theorem maxSegment_run {t : Search} (i : ℤ) (cs : List (State × ℤ)) (hstates : t.states = []) :
    (run (p.relaxEdge b i) t cs).states = [] ∨
      (run (p.relaxEdge b i) t cs).maxSegment = max t.maxSegment (i + 1) := by
  have hinv : ((run (p.relaxEdge b i) t cs).states = [] ∧
      (run (p.relaxEdge b i) t cs).maxSegment = t.maxSegment) ∨
      (run (p.relaxEdge b i) t cs).maxSegment = max t.maxSegment (i + 1) := by
    apply run_invariant (P := fun u : Search => (u.states = [] ∧ u.maxSegment = t.maxSegment) ∨
      u.maxSegment = max t.maxSegment (i + 1)) (Or.inl ⟨hstates, rfl⟩)
    intro u hu c _
    unfold relaxEdge
    dsimp only
    split
    · right
      rcases hu with ⟨-, hu⟩ | hu
      · rw [hu]
      · simp only [hu, max_assoc, max_self]
    · exact hu
  exact hinv.imp And.left id

section
variable {k : ℕ} {t : Search}

/-- A round inside the horizon is a relaxation pass over its pairs. -/
theorem Level.relaxed (order : IterationOrder) (h : Level p b k t)
    (hk : p.lastIndex + k + 2 < p.video.length) :
    Relaxed (fun c => p.nextState b (p.lastIndex + k) c.1 c.2)
      (edgeTotal p b (p.lastIndex + k) t.dp) (edgeValue p b (p.lastIndex + k) t.dp) t.dp
      (edges p order (p.lastIndex + k) t.states)
      (p.round b order t (p.lastIndex + k)).frontier := by
  have hsegment : ∀ c ∈ edges p order (p.lastIndex + k) t.states, c.1.segment = p.lastIndex + k :=
    fun c hc => h.segment_eq (mem_edges.mp hc).1
  have hfresh : ∀ c ∈ edges p order (p.lastIndex + k) t.states,
      t.dp (p.nextState b (p.lastIndex + k) c.1 c.2) = none := by
    intro c _
    -- a stored state of a later segment would be one of this round's
    by_contra hne
    have hmem := h.only (p.nextState b (p.lastIndex + k) c.1 c.2)
      (by rw [nextState_segment]; omega) (Option.isSome_iff_ne_none.mpr hne)
    have hseg := h.segment_eq hmem
    rw [nextState_segment] at hseg
    omega
  have hpass := frontier_run (p := p) (b := b) t.dp (t := { t with states := [] }) hsegment
    fun _ _ => rfl
  rw [round_eq hk, hpass]
  exact relaxed_run (fun _ => rfl) hfresh

/-- The total of a pair is the best score so far plus the gain of the last choice. -/
theorem Level.edgeTotal_eq (h : Level p b k t) {c : State × ℤ} (hc : c.1 ∈ t.states) {e : Value}
    (he : t.dp c.1 = some e) (hvmaf : e.vmaf = p.video.vmaf c.1.quality c.1.segment) :
    edgeTotal p b (p.lastIndex + k) t.dp c = e.qoe + (problem p b).gain c.1 c.2 := by
  rw [edgeTotal, lookup_of_some he, hvmaf, ← h.segment_eq hc]
  rfl

theorem Level.next_eq (h : Level p b k t) {c : State × ℤ} (hc : c.1 ∈ t.states) :
    (problem p b).next c.1 c.2 = p.nextState b (p.lastIndex + k) c.1 c.2 := by
  rw [← h.segment_eq hc]
  rfl

/-- The states entered in a round are those that plans of length `k + 1` lead to. -/
theorem Level.mem_round (h : Level p b k t) (hk : p.lastIndex + k + 2 < p.video.length)
    (s : State) : s ∈ (p.round b order t (p.lastIndex + k)).states ↔
      ∃ plan, (problem p b).Admissible p.startState plan ∧ plan.length = k + 1 ∧
        (problem p b).endState p.startState plan = s := by
  have htouched : s ∈ (p.round b order t (p.lastIndex + k)).states ↔
      ∃ c ∈ edges p order (p.lastIndex + k) t.states,
        p.nextState b (p.lastIndex + k) c.1 c.2 = s := (h.relaxed order hk).mem_touched s
  rw [htouched]
  constructor
  · rintro ⟨c, hc, rfl⟩
    obtain ⟨hstate, hquality⟩ := mem_edges.mp hc
    obtain ⟨plan, hadm, hlen, hend⟩ := (h.mem_states c.1).mp hstate
    refine ⟨plan ++ [c.2], Problem.admissible_concat.mpr ⟨hadm, hend ▸ hquality⟩, ?_, ?_⟩
    · rw [List.length_append, hlen, List.length_singleton]
    · rw [Problem.endState_concat, hend, h.next_eq hstate]
  · rintro ⟨plan, hadm, hlen, rfl⟩
    rcases List.eq_nil_or_concat' plan with rfl | ⟨front, q, rfl⟩
    · cases hlen
    · rw [Problem.admissible_concat] at hadm
      have hfront : (problem p b).endState p.startState front ∈ t.states :=
        (h.mem_states _).mpr ⟨front, hadm.1, by simpa using hlen, rfl⟩
      refine ⟨((problem p b).endState p.startState front, q), mem_edges.mpr ⟨hfront, hadm.2⟩, ?_⟩
      rw [Problem.endState_concat, ← h.next_eq hfront]

/-- The entry of a state entered in a round extends that of the state it came from. -/
theorem Level.stored_round (h : Level p b k t)
    (hk : p.lastIndex + k + 2 < p.video.length) {s : State}
    (hs : s ∈ (p.round b order t (p.lastIndex + k)).states) :
    ∃ u q e plan, u ∈ t.states ∧ (p.round b order t (p.lastIndex + k)).dp s = some e ∧
      e.fromState = u ∧ e.vmaf = p.video.vmaf s.quality s.segment ∧
      (problem p b).IsBest p.startState (k + 1) s e.qoe (plan ++ [q]) ∧
      (problem p b).visited p.startState (plan ++ [q]) =
        (problem p b).visited p.startState plan ++ [s] ∧
      ∀ fuel, k + 2 ≤ fuel →
        walk t.dp fuel u = some ((problem p b).visited p.startState plan).reverse := by
  have hrelaxed := h.relaxed order hk
  obtain ⟨c, hc, rfl⟩ := (hrelaxed.mem_touched s).mp hs
  obtain ⟨⟨u, q⟩, htop, htable⟩ := hrelaxed.best c hc
  obtain ⟨hu, hq⟩ := mem_edges.mp htop.mem
  obtain ⟨e, plan, he, hvmaf, hbest, hwalk⟩ := h.stored u hu
  have hkey : p.nextState b (p.lastIndex + k) u q = p.nextState b (p.lastIndex + k) c.1 c.2 :=
    htop.key_eq
  have hnext : (problem p b).next u q = p.nextState b (p.lastIndex + k) c.1 c.2 :=
    (h.next_eq hu).trans hkey
  have htotal : edgeTotal p b (p.lastIndex + k) t.dp (u, q) = e.qoe + (problem p b).gain u q :=
    h.edgeTotal_eq (c := (u, q)) hu he hvmaf
  have hextend := hbest.extend hq ?_ ?_
  · refine ⟨u, q, _, plan, hu, htable, rfl, ?_, ?_, ?_, hwalk⟩
    · rw [← hkey]
      rfl
    · show (problem p b).IsBest _ _ _ (truncate (edgeTotal p b (p.lastIndex + k) t.dp (u, q))) _
      rw [htotal, ← hnext]
      exact hextend
    · rw [Problem.visited_concat, hbest.endState_eq, hnext]
  · -- every state that can be reached has a best plan
    intro plan' hadm hlen
    obtain ⟨e', plan'', -, -, hbest', -⟩ :=
      h.stored _ ((h.mem_states _).mpr ⟨plan', hadm, hlen, rfl⟩)
    exact ⟨e'.qoe, plan'', hbest'⟩
  · -- every rival is the total of a pair the round has tried
    intro u' v' plan' q' hbest' hq' hnext'
    have hu' : u' ∈ t.states :=
      (h.mem_states u').mpr ⟨plan', hbest'.admissible, hbest'.length_eq, hbest'.endState_eq⟩
    obtain ⟨e', plan'', he', hvmaf', hbest'', -⟩ := h.stored u' hu'
    have hv' : v' ≤ e'.qoe := by
      rw [← hbest'.score_eq]
      exact hbest''.upper plan' hbest'.admissible hbest'.length_eq hbest'.endState_eq
    have htotal' : edgeTotal p b (p.lastIndex + k) t.dp (u', q') =
        e'.qoe + (problem p b).gain u' q' := h.edgeTotal_eq (c := (u', q')) hu' he' hvmaf'
    have hupper := htop.upper (u', q') (mem_edges.mpr ⟨hu', hq'⟩)
      ((h.next_eq (c := (u', q')) hu').symm.trans (hnext'.trans hnext))
    rw [htotal, htotal'] at hupper
    refine le_trans (truncate_mono ?_) hupper
    have hcast : (v' : ℚ) ≤ e'.qoe := by exact_mod_cast hv'
    linarith

/-- A round leaves alone the entries of all segments but the next. -/
theorem Level.dp_round_of_ne (h : Level p b k t) (hk : p.lastIndex + k + 2 < p.video.length)
    {v : State} (hv : v.segment ≠ p.lastIndex + k + 1) :
    (p.round b order t (p.lastIndex + k)).dp v = t.dp v := by
  refine (h.relaxed order hk).frame v fun c _ hkey => hv ?_
  rw [← hkey]
  rfl

/-- **One round** plans one more segment. -/
theorem Level.round (hp : p.Placed) (h : Level p b k t)
    (hk : p.lastIndex + k + 2 < p.video.length) :
    Level p b (k + 1) (p.round b order t (p.lastIndex + k)) where
  mem_states := h.mem_round hk
  stored := by
    intro s hs
    obtain ⟨u, q, e, plan, hu, he, hfrom, hvmaf, hbest, hvisited, hwalk⟩ := h.stored_round hk hs
    refine ⟨e, plan ++ [q], he, hvmaf, hbest, ?_⟩
    intro fuel hfuel
    obtain ⟨f, rfl⟩ : ∃ f, fuel = f + 1 := ⟨fuel - 1, by omega⟩
    have hstart : p.startState.segment = p.lastIndex := rfl
    have hsegment : s.segment = p.lastIndex + k + 1 := by
      rw [← hbest.endState_eq, segment_endState, hbest.length_eq, hstart]
      push_cast
      ring
    have hone := hp.one_le
    -- the states before are those of earlier segments, whose entries the round leaves alone
    have hkept : ∀ v ∈ ((problem p b).visited p.startState plan).reverse,
        (p.round b order t (p.lastIndex + k)).dp v = t.dp v := by
      intro v hv
      have hle := segment_le_of_mem_visited (List.mem_reverse.mp hv)
      have hlen : plan.length = k := by
        have := hbest.length_eq
        simpa using this
      exact h.dp_round_of_ne hk (by omega)
    have hback := walk_congr (hwalk f (by omega)) hkept
    rw [walk, not_null_of_segment (by omega), if_neg Bool.false_ne_true, lookup_of_some he, hfrom,
      hback, hvisited, List.reverse_append]
    rfl
  only := by
    intro s hs hsome
    by_contra hmem
    have hnone : ∀ c ∈ edges p order (p.lastIndex + k) t.states,
        p.nextState b (p.lastIndex + k) c.1 c.2 ≠ s := fun c hc hkey =>
      hmem (((h.relaxed order hk).mem_touched s).mpr ⟨c, hc, hkey⟩)
    have hsame : (p.round b order t (p.lastIndex + k)).dp s = t.dp s :=
      (h.relaxed order hk).frame s hnone
    rw [hsame] at hsome
    push_cast at hs
    have hseg := h.segment_eq (h.only s (by omega) hsome)
    omega
  later := by
    intro s hsome
    by_cases hnext : s.segment = p.lastIndex + k + 1
    · omega
    · rw [h.dp_round_of_ne hk hnext] at hsome
      exact h.later s hsome
  maxSegment_eq := by
    rw [if_neg (Nat.succ_ne_zero k)]
    -- some plan goes on, so the round enters a state
    have hne : (p.round b order t (p.lastIndex + k)).states ≠ [] := by
      obtain ⟨plan, hadm, hlen⟩ := exists_plan (b := b) hp (k + 1)
      exact List.ne_nil_of_mem ((h.mem_round hk _).mpr ⟨plan, hadm, hlen, rfl⟩)
    have hone := hp.one_le
    have hold := h.maxSegment_eq
    rw [round_eq hk] at hne ⊢
    rcases maxSegment_run (p := p) (b := b) (t := { t with states := [] }) (p.lastIndex + k)
      (edges p order (p.lastIndex + k) t.states) rfl with hnil | hmax
    · exact absurd hnil hne
    · rw [hmax]
      show max t.maxSegment (p.lastIndex + k + 1) = p.lastIndex + ((k + 1 : ℕ) : ℤ)
      rw [hold]
      push_cast
      split <;> omega

end

/-! ## The whole search -/

/-- After `i` rounds, as many segments are planned as there are left. -/
theorem level_rounds (hp : p.Placed) (i : ℕ) :
    Level p b (min i (p.video.length - 2 - p.lastIndex).toNat)
      ((List.range i).foldl (fun t (j : ℕ) => p.round b order t (p.lastIndex + j)) p.start) := by
  induction i with
  | zero =>
    rw [Nat.zero_min]
    exact level_start hp
  | succ i ih =>
    rw [List.range_succ, List.foldl_append, List.foldl_cons, List.foldl_nil]
    by_cases hi : i < (p.video.length - 2 - p.lastIndex).toNat
    · rw [min_eq_left hi.le] at ih
      rw [min_eq_left hi]
      exact ih.round hp (by omega)
    · -- at the end of the video a round does nothing
      rw [round_of_le (by omega), min_eq_right (by omega)]
      rw [min_eq_right (by omega)] at ih
      exact ih

theorem level_search (order : IterationOrder) (hp : p.Placed) :
    Level p b p.planLength (p.search b order) :=
  level_rounds hp (horizon + 1)

end Planner
end Target
end LiveStream
