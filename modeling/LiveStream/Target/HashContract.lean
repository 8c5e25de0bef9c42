import LiveStream.Target.HashTablesTheorems

/-!
# The contract of the planner's hash tables

Keys that are equal must have equal hash codes. The last loop of `qoe` looks up every quality of
every buffer level, and the equality of states does not look at the quality while their hash
function does. So the contract is kept for videos of a single track only, where the qualities do not
differ.

* `mem_keysUsed`, that every candidate is among the keys used;
* `search_eq_of_single`, that with one track the order of traversal does not matter either;
* `keysUsed_respects_iff`, when the contract is kept;
* `keysUsed_twinPlanner`, what breaking it leads to.
-/

namespace LiveStream
namespace Target
namespace Planner
namespace Hashed

open Lib HashSearch

variable {p : Planner} {b : ℚ} {c : Containers} {t : HashSearch}

/-! ## Every candidate is a key -/

/-- The walk only adds to the keys used. -/
theorem used_walk_subset (fuel : ℕ) (s : State) : t.used ⊆ (walk c fuel s t).2.used := by
  induction fuel generalizing s t with
  | zero => exact List.Subset.refl _
  | succ fuel ih =>
    rw [walk]
    split
    · exact List.Subset.refl _
    · exact List.Subset.trans (List.subset_append_left _ [s]) (ih (t := (t.subscript c s).2) _)

/-- So does the choice between two states, and it looks up the candidate. -/
theorem used_pick_subset (best cand : State) : cand :: t.used ⊆ (pick c (best, t) cand).2.used := by
  have hfind : cand :: t.used ⊆ (t.find c cand).2.used := by
    intro s hs
    simpa [HashSearch.find, HashSearch.uses, or_comm] using hs
  unfold pick
  dsimp only
  split
  · split
    · exact hfind
    · have hmore : cand :: t.used ⊆ (t.find c cand).2.used ++ [cand] ++ [best] := fun s hs =>
        List.mem_append_left _ (List.mem_append_left _ (hfind hs))
      split <;> exact hmore
  · exact hfind

theorem used_foldl_pick_subset (cs : List State) (best : State) :
    cs ++ t.used ⊆ (cs.foldl (pick c) (best, t)).2.used := by
  induction cs generalizing best t with
  | nil => exact List.Subset.refl _
  | cons cand cs ih =>
    have hpick := used_pick_subset (c := c) (t := t) best cand
    have hrest := ih (t := (pick c (best, t) cand).2) (pick c (best, t) cand).1
    intro s hs
    apply hrest
    rcases List.mem_append.mp hs with hs | hs
    · rcases List.mem_cons.mp hs with rfl | hs
      · exact List.mem_append_right _ (hpick (List.mem_cons_self ..))
      · exact List.mem_append_left _ hs
    · exact List.mem_append_right _ (hpick (List.mem_cons_of_mem _ hs))

/-- The last loop looks up every candidate. -/
theorem mem_keysUsed {s : State} (hs : s ∈ cands p (search p b c).maxSegment) :
    s ∈ keysUsed p b c := by
  have hbest : s ∈ (bestState p c (search p b c)).2.used := by
    rw [bestState_eq_foldl]
    exact used_foldl_pick_subset _ _ (List.mem_append_left _ hs)
  unfold keysUsed qoe
  -- the loop over the candidates is not to be unfolded again
  generalize bestState p c (search p b c) = r at hbest ⊢
  have hwalk := used_walk_subset (c := c) (t := r.2) walkFuel r.1 hbest
  dsimp only
  split
  · exact hbest
  · split
    · exact hwalk
    · exact List.mem_append_left _ (List.mem_append_left _ (List.mem_append_left _ hwalk))

/-! ## One state in each round -/

theorem visit_eq (order : IterationOrder) (i : ℤ) {states : List State} (h : states.length ≤ 1) :
    order.visit i states = states := by
  have hperm := order.perm i states
  rcases states with _ | ⟨s, _ | ⟨u, rest⟩⟩
  · exact hperm.eq_nil
  · exact List.perm_singleton.mp hperm
  · simp at h

/-- A single track leaves one quality to try. -/
theorem length_qualities_le (hn : p.video.segments.length = 1) (s : State) :
    (p.qualities s).length ≤ 1 := by
  simp only [qualities, List.length_map, List.length_range]
  omega

/-- Every edge enters at most one state. -/
theorem length_states_relaxEdge (i : ℤ) (t : Search) (edge : State × ℤ) :
    (p.relaxEdge b i t edge).states.length ≤ t.states.length + 1 := by
  have hinsert : ∀ k : State, (insertNew t.states k).length ≤ t.states.length + 1 := by
    intro k
    unfold insertNew
    split
    · omega
    · simp
  unfold Planner.relaxEdge
  dsimp only
  split
  · exact hinsert _
  · omega

theorem round_single (hn : p.video.segments.length = 1) (order order' : IterationOrder) {t : Search}
    (ht : t.states.length ≤ 1) (i : ℤ) :
    p.round b order t i = p.round b order' t i ∧ (p.round b order t i).states.length ≤ 1 := by
  unfold Planner.round
  rw [visit_eq order i ht, visit_eq order' i ht]
  refine ⟨rfl, ?_⟩
  split
  · exact ht
  · rcases hstates : t.states with _ | ⟨s, _ | ⟨u, rest⟩⟩
    · simp
    · rw [List.foldl_cons, List.foldl_nil]
      have hone := length_qualities_le hn s
      generalize p.qualities s = qs at hone ⊢
      rcases qs with _ | ⟨q, _ | ⟨q', qs⟩⟩
      · simp
      · exact length_states_relaxEdge i { t with states := [] } (s, q)
      · simp at hone
    · rw [hstates] at ht
      simp at ht

/-- With a single track the order of traversal does not matter. -/
theorem search_eq_of_single (hn : p.video.segments.length = 1) (order order' : IterationOrder) :
    p.search b order = p.search b order' := by
  apply run_map (φ := id) (P := fun t => t.states.length ≤ 1) (le_refl 1)
  · intro t ht i _
    exact (round_single hn order order' ht _).2
  · intro t ht i _
    exact (round_single hn order order' ht _).1

/-! ## The contract -/

/-- With a second track there are equal keys of different hash codes. -/
theorem not_respects (hn : 2 ≤ p.video.segments.length) :
    ¬stateHasher.Respects (keysUsed p b c) := by
  intro hrespects
  have hused : ∀ q : ℤ, 0 ≤ q → q ≤ 1 → ⟨(search p b c).maxSegment, 0, q⟩ ∈ keysUsed p b c := by
    intro q h0 h1
    apply mem_keysUsed
    rw [mem_cands]
    refine ⟨rfl, ⟨le_refl 0, Int.natCast_nonneg _⟩, h0, ?_⟩
    show q < p.video.segments.length
    omega
  have heq : (⟨(search p b c).maxSegment, 0, 0⟩ : State).eq ⟨(search p b c).maxSegment, 0, 1⟩ :=
    State.eq_iff.mpr ⟨rfl, rfl⟩
  have hhash := hrespects _ (hused 0 (by omega) (by omega)) _ (hused 1 (by omega) (by omega)) heq
  have hword : BitVec.ofInt 64 0 = BitVec.ofInt 64 1 := (hash_eq_iff heq).mp hhash
  exact absurd hword (by decide)

/-- With a single track equal states are the same. -/
theorem eq_of_single (hn : p.video.segments.length = 1) {s u : State} (hs : s ∈ p.onTrack)
    (hu : u ∈ p.onTrack) (h : s.eq u = true) : s = u := by
  obtain ⟨hs0, hs1⟩ := hs
  obtain ⟨hu0, hu1⟩ := hu
  apply State.eq_of_quality_eq h
  omega

theorem separates_of_single (hn : p.video.segments.length = 1) : c.Separates p.onTrack :=
  ⟨Layout.separates_of_eq fun _ hs _ hu => eq_of_single hn hs hu,
    Layout.separates_of_eq fun _ hs _ hu => eq_of_single hn hs hu⟩

/-- **When the contract is kept.** Equal keys have equal hash codes, and the tables and the answer
are the same in every library, exactly if the video has a single track. -/
theorem keysUsed_respects_iff (p : Planner) (hq : 0 ≤ p.currentQuality)
    (hqn : p.currentQuality < p.video.segments.length) (b : ℚ) (c : Containers) :
    (stateHasher.Respects (keysUsed p b c) ∧ ∀ c' : Containers,
      (qoe p b c').1 = (qoe p b c).1 ∧ (qoe p b c').2.content = (qoe p b c).2.content) ↔
    p.video.segments.length = 1 := by
  have hstart : p.startState ∈ p.onTrack := ⟨hq, hqn⟩
  constructor
  · intro h
    by_contra hn
    have hpos := segments_length_pos p.video
    exact not_respects (by omega) h.1
  · intro hn
    obtain ⟨t, hqoe, hcontent, hclosed⟩ :=
      qoe_spec (b := b) (separates_of_single (c := c) hn) hstart
    constructor
    · intro s hs u hu heq
      rw [keysUsed, hqoe] at hs hu
      rw [eq_of_single hn (hclosed.used_mem s hs) (hclosed.used_mem u hu) heq]
    · intro c'
      obtain ⟨t', hqoe', hcontent', -⟩ :=
        qoe_spec (b := b) (separates_of_single (c := c') hn) hstart
      have hsearch := search_eq_of_single (b := b) hn c'.order c.order
      simp only [hqoe, hqoe', hcontent, hcontent', hsearch, Planner.qoe, and_self]

/-- One track. -/
def singleTrack : TrackTable where
  segments := [[⟨0, 80, 100000⟩, ⟨4, 80, 100000⟩, ⟨8, 80, 100000⟩, ⟨12, 80, 100000⟩]]
  length := 4
  nonempty := by decide
  equallyLong := by decide

/-- Both algorithms on a video of one track, in tables of one bucket and of two. -/
theorem keysUsed_respects_singleTrack :
    let p : Planner := ⟨singleTrack, TargetAbr.localQoe, 1, 0, 4000⟩
    let p2 : Planner := ⟨singleTrack, TargetAbr2.localQoe, 1, 0, 4000⟩
    (stateHasher.Respects (keysUsed p 1000 (.fixed 1)) ∧
      (qoe p 1000 (.fixed 2)).1 = (qoe p 1000 (.fixed 1)).1) ∧
    (stateHasher.Respects (keysUsed p2 1000 (.fixed 1)) ∧
      (qoe p2 1000 (.fixed 2)).1 = (qoe p2 1000 (.fixed 1)).1) := by
  intro p p2
  have hp := (keysUsed_respects_iff p (by decide) (by decide) 1000 (.fixed 1)).mpr rfl
  have hp2 := (keysUsed_respects_iff p2 (by decide) (by decide) 1000 (.fixed 1)).mpr rfl
  exact ⟨⟨hp.1, (hp.2 (.fixed 2)).1⟩, ⟨hp2.1, (hp2.2 (.fixed 2)).1⟩⟩

/-! ### Two tracks of equal sizes -/

/-- Two tracks that differ in VMAF only, so that the buffer does not depend on the quality. -/
def twinTracks : TrackTable where
  segments := [[⟨0, 80, 100000⟩, ⟨4, 80, 100000⟩, ⟨8, 80, 100000⟩, ⟨12, 80, 100000⟩],
    [⟨0, 90, 100000⟩, ⟨4, 90, 100000⟩, ⟨8, 85, 100000⟩, ⟨12, 90, 100000⟩]]
  length := 4
  nonempty := by decide
  equallyLong := by decide

def twinPlanner : Planner := ⟨twinTracks, TargetAbr.localQoe, 1, 0, 4000⟩

/-- A candidate equal to no stored state is passed over. -/
theorem foldl_pick_of_not_stored {cs : List State}
    (hcs : ∀ s ∈ cs, ∀ x ∈ t.dp.keys, x.eq s = false) (best : State) :
    cs.foldl (pick c) (best, t) = (best, t.uses cs) := by
  induction cs generalizing t with
  | nil => simp [HashSearch.uses]
  | cons s cs ih =>
    have hnone : c.dp.locate stateHasher .find t.dp.keys s = none := by
      apply List.find?_eq_none.mpr
      intro x hx hmeets
      have hfalse := hcs s (List.mem_cons_self ..) x ((c.dp.chain_perm _).mem_iff.mp hx)
      have htrue : x.eq s = true := Layout.eq_of_meets hmeets
      rw [hfalse] at htrue
      cases htrue
    have hpick : pick c (best, t) s = (best, t.uses [s]) := by
      simp [pick, HashSearch.find, Table.contains, hnone]
    have hrest := ih (t := t.uses [s]) fun r hr => hcs r (List.mem_cons_of_mem _ hr)
    rw [List.foldl_cons, hpick, hrest, uses_uses]
    rfl

/-- The candidates of the buffer levels from `n` on. -/
def candsFrom (n count : ℕ) : List State :=
  ((List.range count).map (n + ·)).flatMap fun (buffer : ℕ) =>
    (List.range 2).map fun (q : ℕ) => ⟨2, buffer, q⟩

theorem cands_twinPlanner :
    cands twinPlanner 2 = candsFrom 0 180 ++
      ([⟨2, 180, 0⟩, ⟨2, 180, 1⟩] ++ candsFrom 181 2320) := by
  have hrange : List.range 2501 = (List.range 180).map (0 + ·) ++
      ([180] ++ (List.range 2320).map (181 + ·)) := by
    rw [show 2501 = 180 + (1 + 2320) from rfl, List.range_add, List.range_add, List.map_append,
      List.map_map]
    simp [Function.comp_def, ← Nat.add_assoc]
  rw [cands, show maxBuffer + 1 = 2501 from rfl, hrange, List.flatMap_append, List.flatMap_append]
  rfl

theorem not_eq_of_mem_candsFrom {n count : ℕ} {s x : State} (hs : s ∈ candsFrom n count)
    (hout : 180 < n ∨ n + count ≤ 180) (hx : x.segment ≠ 2 ∨ x.buffer = 180) : x.eq s = false := by
  simp only [candsFrom, List.mem_flatMap, List.mem_map, List.mem_range] at hs
  obtain ⟨buffer, ⟨i, hi, rfl⟩, q, -, rfl⟩ := hs
  rw [← Bool.not_eq_true, State.eq_iff]
  rintro ⟨hsegment, hbuffer⟩
  push_cast at hbuffer
  dsimp only at hsegment hbuffer
  omega

/-- Only the candidates of one buffer level matter. -/
theorem bestState_twinPlanner (hmax : t.maxSegment = 2)
    (hbefore : ∀ x ∈ t.dp.keys, x.segment ≠ 2 ∨ x.buffer = 180)
    (hafter : ∀ x ∈ ([⟨2, 180, 0⟩, ⟨2, 180, 1⟩].foldl (pick c)
      (State.null, t.uses (candsFrom 0 180))).2.dp.keys, x.segment ≠ 2 ∨ x.buffer = 180) :
    let r := [⟨2, 180, 0⟩, ⟨2, 180, 1⟩].foldl (pick c) (State.null, t.uses (candsFrom 0 180))
    bestState twinPlanner c t = (r.1, r.2.uses (candsFrom 181 2320)) := by
  intro r
  rw [bestState_eq_foldl, hmax, cands_twinPlanner, List.foldl_append, List.foldl_append]
  rw [foldl_pick_of_not_stored fun s hs x hx =>
    not_eq_of_mem_candsFrom hs (Or.inr (by omega)) (hbefore x hx)]
  exact foldl_pick_of_not_stored (t := r.2)
    (fun s hs x hx => not_eq_of_mem_candsFrom hs (Or.inl (by omega)) (hafter x hx)) r.1

/-- **What two tracks lead to.** Among the keys used there are equal ones of different hash codes.
In tables of one bucket the two states of the next segment share an entry, in tables of two buckets
they do not. The total is that of quality 0 both times, but where the entry is shared, quality 1 is
answered. -/
theorem keysUsed_twinPlanner :
    (∃ x ∈ keysUsed twinPlanner 1000 (.fixed 1), ∃ y ∈ keysUsed twinPlanner 1000 (.fixed 1),
      x.eq y = true ∧ stateHasher.hash x ≠ stateHasher.hash y) ∧
    (search twinPlanner 1000 (.fixed 1)).dp.keys = [⟨1, 100, 0⟩, ⟨2, 180, 0⟩] ∧
    (search twinPlanner 1000 (.fixed 2)).dp.keys = [⟨1, 100, 0⟩, ⟨2, 180, 0⟩, ⟨2, 180, 1⟩] ∧
    (qoe twinPlanner 1000 (.fixed 1)).1 = some (80, 1) ∧
    (qoe twinPlanner 1000 (.fixed 2)).1 = some (80, 0) := by
  have hmax : (search twinPlanner 1000 (.fixed 1)).maxSegment = 2 := by decide +kernel
  have hused : ∀ q : ℤ, 0 ≤ q → q < 2 → ⟨2, 180, q⟩ ∈ keysUsed twinPlanner 1000 (.fixed 1) := by
    intro q h0 h2
    apply mem_keysUsed
    rw [mem_cands, hmax]
    have hbuffer : (0 : ℤ) ≤ 180 ∧ (180 : ℤ) ≤ maxBuffer := by decide
    exact ⟨rfl, hbuffer, h0, h2⟩
  refine ⟨⟨_, hused 0 (by decide) (by decide), _, hused 1 (by decide) (by decide), ?_, ?_⟩,
    by decide +kernel, by decide +kernel, ?_, ?_⟩
  · decide
  · decide +kernel
  · rw [qoe, bestState_twinPlanner hmax (by decide +kernel) (by decide +kernel)]
    decide +kernel
  · rw [qoe, bestState_twinPlanner (by decide +kernel) (by decide +kernel) (by decide +kernel)]
    decide +kernel

end Hashed
end Planner
end Target
end LiveStream
