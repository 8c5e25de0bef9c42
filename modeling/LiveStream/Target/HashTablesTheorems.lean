import LiveStream.Target.HashTables

/-!
# The planner over hash tables that keep states apart

The proofs follow the planner operation by operation. On keys that the tables never take for each
other (`Containers.Separates`) every operation is the one of a plain map, so the search over the
hash tables is the search of `Planner.search` and only the record of the keys grows
(`HashSearch.uses`).

* `relaxEdge_eq`, `round_spec` and `search_spec`, the loops that fill the tables;
* `bestState_spec`, `walk_spec` and `answer_spec`, reading the answer;
* `qoe_spec`, the refinement, and `qoe_of_comparesCodes`: a library that compares hash codes before
  keys gives the planner of `LiveStream.Target.Planner`.
-/

namespace LiveStream
namespace Target

open Lib

/-- No two states of `K` are taken for each other, in any of the tables. -/
structure Containers.Separates (c : Containers) (K : Set State) : Prop where
  dp : c.dp.Separates stateHasher K
  states : c.states.Separates stateHasher K

namespace Planner

/-- The states of the tracks. -/
def onTrack (p : Planner) : Set State :=
  { s | 0 ≤ s.quality ∧ s.quality < p.video.segments.length }

namespace HashSearch

/-- The variables without the record of the keys. -/
def content (t : HashSearch) : Search := ⟨t.dp.get, t.states, t.maxSegment⟩

@[simp] theorem dp_uses (t : HashSearch) (ks : List State) : (t.uses ks).dp = t.dp := rfl

@[simp] theorem uses_uses (t : HashSearch) (ks ls : List State) :
    (t.uses ks).uses ls = t.uses (ks ++ ls) := by
  simp [uses]

/-- The keys are states of `K`, and every state the variables mention is stored. -/
structure Closed (K : Set State) (t : HashSearch) : Prop where
  keys_mem : ∀ s ∈ t.dp.keys, s ∈ K
  used_mem : ∀ s ∈ t.used, s ∈ K
  states_stored : ∀ s ∈ t.states, s ∈ t.dp.keys
  from_stored : ∀ s v, t.dp.get s = some v → v.fromState = State.null ∨ v.fromState ∈ t.dp.keys

variable {c : Containers} {K : Set State} {t : HashSearch} {k : State}

theorem Closed.uses (h : t.Closed K) {ks : List State} (hks : ∀ k ∈ ks, k ∈ K) :
    (t.uses ks).Closed K where
  keys_mem := h.keys_mem
  used_mem := fun s hs => (List.mem_append.mp hs).elim (h.used_mem s) (hks s)
  states_stored := h.states_stored
  from_stored := h.from_stored

/-- From `t` to `t'` keys of `K` were looked up, and nothing was made. -/
def Looked (K : Set State) (t t' : HashSearch) : Prop :=
  ∃ ks : List State, (∀ k ∈ ks, k ∈ K) ∧ t' = t.uses ks

theorem looked_uses {ks : List State} (hks : ∀ k ∈ ks, k ∈ K) : Looked K t (t.uses ks) :=
  ⟨ks, hks, rfl⟩

theorem looked_refl : Looked K t t := ⟨[], by simp, by simp [HashSearch.uses]⟩

theorem Looked.trans {t' t'' : HashSearch} (h : Looked K t t') (h' : Looked K t' t'') :
    Looked K t t'' := by
  obtain ⟨ks, hks, rfl⟩ := h
  obtain ⟨ls, hls, rfl⟩ := h'
  rw [uses_uses]
  exact looked_uses fun k hk => (List.mem_append.mp hk).elim (hks k) (hls k)

theorem Looked.closed {t' : HashSearch} (h : Looked K t t') (hclosed : t.Closed K) :
    t'.Closed K := by
  obtain ⟨ks, hks, rfl⟩ := h
  exact hclosed.uses hks

theorem Looked.dp_eq {t' : HashSearch} (h : Looked K t t') : t'.dp = t.dp := by
  obtain ⟨ks, -, rfl⟩ := h
  rfl

theorem Looked.content_eq {t' : HashSearch} (h : Looked K t t') : t'.content = t.content := by
  obtain ⟨ks, -, rfl⟩ := h
  rfl

/-! ## The operations on separated keys -/

theorem find_eq (hsep : c.Separates K) (h : t.Closed K) (hk : k ∈ K) :
    t.find c k = ((t.dp.get k).isSome, t.uses [k]) := by
  rw [find, Table.contains_eq hsep.dp h.keys_mem hk]

/-- A stored key is found, so no entry is made. -/
theorem subscript_eq (hsep : c.Separates K) (h : t.Closed K) (hk : k ∈ t.dp.keys) :
    t.subscript c k = (lookup t.dp.get k, t.uses [k]) := by
  obtain ⟨v, hv⟩ := Option.isSome_iff_exists.mp ((t.dp.stored k).mpr hk)
  rw [subscript, Table.read_eq hsep.dp h.keys_mem hk hv, Table.touch_eq hsep.dp h.keys_mem hk,
    lookup_of_some hv]
  rfl

theorem assign_eq (hsep : c.Separates K) (h : t.Closed K) (hk : k ∈ K) (v : Value) :
    t.assign c k v = { t.uses [k] with dp := t.dp.put k v } := by
  rw [assign, Table.assign_eq hsep.dp h.keys_mem hk]

theorem insertState_eq (hsep : c.Separates K) (hstates : ∀ s ∈ t.states, s ∈ K) (hk : k ∈ K) :
    t.insertState c k = { t.uses [k] with states := insertNew t.states k } := by
  rw [insertState, hsep.states.insertKey_eq hstates hk]

/-- The keys `betters` looks up. -/
def bettersKeys (t : HashSearch) (k : State) : List State :=
  if (t.dp.get k).isSome then [k, k] else [k]

theorem mem_bettersKeys {s : State} : s ∈ t.bettersKeys k ↔ s = k := by
  unfold bettersKeys
  split <;> simp

theorem betters_eq (hsep : c.Separates K) (h : t.Closed K) (hk : k ∈ K) (qoe : ℚ) :
    t.betters c k qoe = (improves Value.qoe (t.dp.get k) qoe, t.uses (t.bettersKeys k)) := by
  rw [betters, find_eq hsep h hk]
  cases hget : t.dp.get k with
  | none => simp [bettersKeys, hget, improves]
  | some v =>
    have hstored : k ∈ (t.uses [k]).dp.keys := (t.dp.stored k).mp (by simp [hget])
    have hclosed : (t.uses [k]).Closed K := h.uses (by simpa using hk)
    simp [subscript_eq hsep hclosed hstored, bettersKeys, hget, improves, lookup_of_some hget]

/-- An improved entry, with the variables that are set together with it. -/
def enter (t : HashSearch) (k : State) (v : Value) (segment : ℤ) : HashSearch where
  dp := t.dp.put k v
  states := insertNew t.states k
  maxSegment := max t.maxSegment segment
  used := t.used ++ [k, k]

theorem improve_eq (hsep : c.Separates K) (h : t.Closed K) (hk : k ∈ K) (v : Value) (segment : ℤ) :
    t.improve c k v segment = t.enter k v segment := by
  have hstates : ∀ s ∈ t.states, s ∈ K := fun s hs => h.keys_mem s (h.states_stored s hs)
  have hassigned : ∀ s ∈ (t.assign c k v).states, s ∈ K := hstates
  rw [improve, insertState_eq hsep hassigned hk, assign_eq hsep h hk]
  simp [enter, uses]

theorem Closed.enter (h : t.Closed K) (hk : k ∈ K) {v : Value}
    (hv : v.fromState = State.null ∨ v.fromState ∈ t.dp.keys) (segment : ℤ) :
    (t.enter k v segment).Closed K where
  keys_mem := by
    intro s hs
    rcases mem_insertNew.mp hs with hs | rfl
    · exact h.keys_mem s hs
    · exact hk
  used_mem := by
    have hkk : ∀ s ∈ [k, k], s ∈ K := by simpa using hk
    exact (h.uses hkk).used_mem
  states_stored := by
    intro s hs
    apply mem_insertNew.mpr
    exact (mem_insertNew.mp hs).imp_left (h.states_stored s)
  from_stored := by
    intro s w hw
    show w.fromState = State.null ∨ w.fromState ∈ insertNew t.dp.keys k
    rw [mem_insertNew, ← or_assoc]
    left
    by_cases hs : s = k
    · have hvw : v = w := by simpa [HashSearch.enter, hs] using hw
      exact hvw ▸ hv
    · apply h.from_stored s w
      simpa [HashSearch.enter, Function.update_of_ne hs] using hw

end HashSearch

/-! ## The search -/

namespace Hashed

open HashSearch

variable {p : Planner} {b : ℚ} {c : Containers} {t : HashSearch}

theorem nextState_mem {s : State} {q : ℤ} (hq : q ∈ p.qualities s) (i : ℤ) :
    p.nextState b i s q ∈ p.onTrack := by
  have hbounds := mem_qualities.mp hq
  show 0 ≤ q ∧ q < p.video.segments.length
  omega

/-- An edge from a stored state reads its entry, and enters the next state if that is new or
better. -/
theorem relaxEdge_eq (hsep : c.Separates p.onTrack) (h : t.Closed p.onTrack) {i : ℤ} {s : State}
    {q : ℤ} (hs : s ∈ t.dp.keys) (hq : q ∈ p.qualities s) :
    let next := p.nextState b i s q
    let u := t.uses (s :: s :: t.bettersKeys next)
    u.Closed p.onTrack ∧ relaxEdge p b c i t (s, q) =
      if improves Value.qoe (t.dp.get next) (edgeTotal p b i t.dp.get (s, q)) then
        u.enter next (edgeValue p b i t.dp.get (s, q)) (i + 1)
      else u := by
  intro next u
  have hsK := h.keys_mem s hs
  have hnext : next ∈ p.onTrack := nextState_mem hq i
  have hone : (t.uses [s]).Closed p.onTrack := h.uses (by simpa using hsK)
  have htwo : (t.uses [s, s]).Closed p.onTrack := h.uses (by simpa using hsK)
  have hu : u.Closed p.onTrack := by
    apply h.uses
    intro k hk
    rw [List.mem_cons, List.mem_cons, mem_bettersKeys] at hk
    rcases hk with rfl | rfl | rfl
    · exact hsK
    · exact hsK
    · exact hnext
  refine ⟨hu, ?_⟩
  have hfirst := subscript_eq hsep h hs
  have hsecond := subscript_eq hsep hone (k := s) hs
  have hbetters : (t.uses [s, s]).betters c next (edgeTotal p b i t.dp.get (s, q)) =
      (improves Value.qoe (t.dp.get next) (edgeTotal p b i t.dp.get (s, q)), u) := by
    rw [betters_eq hsep htwo hnext, uses_uses]
    rfl
  unfold relaxEdge
  simp only [hfirst, hsecond, dp_uses, uses_uses, List.cons_append, List.nil_append]
  -- both readings of the entry are those of the table before
  show (let r := (t.uses [s, s]).betters c next (edgeTotal p b i t.dp.get (s, q))
    if r.1 then r.2.improve c next (edgeValue p b i t.dp.get (s, q)) (i + 1) else r.2) = _
  simp only [hbetters, improve_eq hsep hu hnext]

theorem content_relaxEdge (hsep : c.Separates p.onTrack) (h : t.Closed p.onTrack) {i : ℤ}
    {s : State} {q : ℤ} (hs : s ∈ t.dp.keys) (hq : q ∈ p.qualities s) :
    (relaxEdge p b c i t (s, q)).content = p.relaxEdge b i t.content (s, q) := by
  rw [(relaxEdge_eq hsep h hs hq).2, apply_ite content]
  rfl

/-- The variables during a round: those of `Closed`, with the visited states stored. -/
structure DuringRound (p : Planner) (visited : List State) (t : HashSearch) : Prop
    extends Closed p.onTrack t where
  visited_stored : ∀ s ∈ visited, s ∈ t.dp.keys

theorem DuringRound.relaxEdge (hsep : c.Separates p.onTrack) {visited : List State}
    (h : DuringRound p visited t) {i : ℤ} {s : State} {q : ℤ} (hs : s ∈ visited)
    (hq : q ∈ p.qualities s) : DuringRound p visited (relaxEdge p b c i t (s, q)) := by
  have hstored := h.visited_stored s hs
  obtain ⟨hu, heq⟩ := relaxEdge_eq (b := b) (i := i) hsep h.toClosed hstored hq
  rw [heq]
  split
  · refine ⟨hu.enter (nextState_mem hq i) (Or.inr hstored) _, ?_⟩
    intro r hr
    exact mem_insertNew.mpr (Or.inl (h.visited_stored r hr))
  · exact ⟨hu, h.visited_stored⟩

/-- One round over the hash tables is one round. -/
theorem round_spec (hsep : c.Separates p.onTrack) (h : t.Closed p.onTrack) (i : ℤ) :
    (round p b c t i).Closed p.onTrack ∧
      (round p b c t i).content = p.round b c.order t.content i := by
  unfold round Planner.round
  split
  · exact ⟨h, rfl⟩
  · have hstart : DuringRound p t.states { t with states := [] } :=
      ⟨⟨h.keys_mem, h.used_mem, fun s hs => absurd hs List.not_mem_nil, h.from_stored⟩,
        h.states_stored⟩
    have hstep : ∀ u, DuringRound p t.states u → ∀ e ∈ edges p c.order i t.states,
        DuringRound p t.states (relaxEdge p b c i u e) := by
      intro u hu e he
      obtain ⟨hs, hq⟩ := mem_edges.mp he
      exact hu.relaxEdge hsep hs hq
    have hclosed := run_invariant hstart hstep
    have hcontent := run_map (φ := content) (g := p.relaxEdge b i) hstart hstep <| by
      intro u hu e he
      obtain ⟨hs, hq⟩ := mem_edges.mp he
      exact content_relaxEdge hsep hu.toClosed (hu.visited_stored _ hs) hq
    simp only [run, edges, List.foldl_flatMap, List.foldl_map] at hclosed hcontent
    exact ⟨hclosed.toClosed, hcontent⟩

theorem start_spec (hsep : c.Separates p.onTrack) (hstart : p.startState ∈ p.onTrack) :
    (start p c).Closed p.onTrack ∧ (start p c).content = p.start := by
  have hempty : (⟨Table.empty, [], 0, []⟩ : HashSearch).Closed p.onTrack :=
    ⟨fun s hs => absurd hs List.not_mem_nil, fun s hs => absurd hs List.not_mem_nil,
      fun s hs => absurd hs List.not_mem_nil, fun s v hv => absurd hv (Option.some_ne_none v).symm⟩
  -- the first entry is made the way later ones are, except that `max_segment` stays
  have heq : start p c = (⟨Table.empty, [], 0, []⟩ : HashSearch).improve c p.startState
      ⟨0, p.video.vmaf p.currentQuality p.lastIndex, State.null⟩ 0 := rfl
  rw [heq, improve_eq hsep hempty hstart]
  exact ⟨hempty.enter hstart (Or.inl rfl) 0, rfl⟩

theorem search_spec (hsep : c.Separates p.onTrack) (hstart : p.startState ∈ p.onTrack) :
    (search p b c).Closed p.onTrack ∧ (search p b c).content = p.search b c.order := by
  obtain ⟨hclosed, hcontent⟩ := start_spec hsep hstart
  have hstep : ∀ u : HashSearch, u.Closed p.onTrack →
      ∀ i ∈ List.range (TargetAbrConstants.horizon + 1),
        (round p b c u (p.lastIndex + i)).Closed p.onTrack :=
    fun u hu i _ => (round_spec hsep hu _).1
  unfold search Planner.search
  constructor
  · exact run_invariant hclosed hstep
  · rw [← hcontent]
    exact run_map hclosed hstep fun u hu i _ => (round_spec hsep hu _).2

/-! ## Reading the answer off the table -/

/-- The null state, or one that can be subscripted without making an entry. -/
def NullOrStored (t : HashSearch) (s : State) : Prop := s = State.null ∨ s ∈ t.dp.keys

theorem NullOrStored.stored {s : State} (h : NullOrStored t s) (hs : s.eq State.null = false) :
    s ∈ t.dp.keys := by
  rcases h with rfl | h
  · cases hs
  · exact h

theorem pick_spec (hsep : c.Separates p.onTrack) (h : t.Closed p.onTrack) {best cand : State}
    (hbest : NullOrStored t best) (hcand : cand ∈ p.onTrack) :
    ∃ t', pick c (best, t) cand = (Planner.pick t.dp.get best cand, t') ∧
      Looked p.onTrack t t' ∧ NullOrStored t (Planner.pick t.dp.get best cand) := by
  have hlook : Looked p.onTrack t (t.uses [cand]) := looked_uses (by simpa using hcand)
  unfold pick Planner.pick
  simp only [find_eq hsep h hcand]
  by_cases hsome : (t.dp.get cand).isSome
  · have hstored : cand ∈ t.dp.keys := (t.dp.stored cand).mp hsome
    cases hnull : best.eq State.null with
    | true =>
      refine ⟨t.uses [cand], by simp [hsome], hlook, Or.inr ?_⟩
      simpa [hsome] using hstored
    | false =>
      have hbest' : best ∈ t.dp.keys := hbest.stored hnull
      have htwice : Looked p.onTrack t (t.uses [cand, cand]) := looked_uses (by simpa using hcand)
      have hfirst := subscript_eq hsep (hlook.closed h) (k := cand) hstored
      have hsecond := subscript_eq hsep (htwice.closed h) (k := best) hbest'
      refine ⟨t.uses [cand, cand, best], ?_, looked_uses ?_, ?_⟩
      · simp only [hsome, hfirst, uses_uses, List.cons_append, List.nil_append, hsecond, dp_uses,
          ↓reduceIte, Bool.false_eq_true, false_or, true_and]
        split <;> rfl
      · simpa using ⟨hcand, h.keys_mem best hbest'⟩
      · split
        · exact Or.inr hstored
        · exact Or.inr hbest'
  · exact ⟨t.uses [cand], by simp [hsome], hlook, by simpa [hsome] using hbest⟩

theorem foldl_pick_spec (hsep : c.Separates p.onTrack) {cs : List State}
    (hcs : ∀ s ∈ cs, s ∈ p.onTrack) (h : t.Closed p.onTrack) {best : State}
    (hbest : NullOrStored t best) :
    ∃ t', cs.foldl (pick c) (best, t) = (cs.foldl (Planner.pick t.dp.get) best, t') ∧
      Looked p.onTrack t t' ∧ NullOrStored t (cs.foldl (Planner.pick t.dp.get) best) := by
  induction cs generalizing best t with
  | nil => exact ⟨t, rfl, looked_refl, hbest⟩
  | cons cand cs ih =>
    obtain ⟨u, hpick, hlook, hpicked⟩ := pick_spec hsep h hbest (hcs cand (List.mem_cons_self ..))
    have hdp := hlook.dp_eq
    have hpicked' : NullOrStored u (Planner.pick t.dp.get best cand) := by
      rw [NullOrStored, hdp]
      exact hpicked
    obtain ⟨t', hfold, hlook', hbest'⟩ :=
      ih (fun s hs => hcs s (List.mem_cons_of_mem _ hs)) (hlook.closed h) hpicked'
    rw [NullOrStored, hdp] at hbest'
    rw [hdp] at hfold
    refine ⟨t', ?_, hlook.trans hlook', hbest'⟩
    rw [List.foldl_cons, hpick, hfold, List.foldl_cons]

/-- The candidates are looked at one after the other. -/
theorem bestState_eq_foldl :
    bestState p c t = (cands p t.maxSegment).foldl (pick c) (State.null, t) := by
  rw [bestState, cands, List.foldl_flatMap]
  simp only [List.foldl_map]

theorem bestState_spec (hsep : c.Separates p.onTrack) (h : t.Closed p.onTrack) :
    ∃ t', bestState p c t = (p.bestState t.content, t') ∧ Looked p.onTrack t t' ∧
      NullOrStored t (p.bestState t.content) := by
  rw [bestState_eq_foldl, Planner.bestState_eq]
  exact foldl_pick_spec hsep (fun s hs => (mem_cands.mp hs).2.2) h (Or.inl rfl)

/-- The walk back goes along stored states. -/
theorem walk_spec (hsep : c.Separates p.onTrack) (fuel : ℕ) (h : t.Closed p.onTrack) {s : State}
    (hs : NullOrStored t s) :
    ∃ t', walk c fuel s t = (Planner.walk t.dp.get fuel s, t') ∧ Looked p.onTrack t t' ∧
      ∀ path, Planner.walk t.dp.get fuel s = some path → ∀ r ∈ path, r ∈ t.dp.keys := by
  induction fuel generalizing s t with
  | zero => exact ⟨t, rfl, looked_refl, fun path hpath => by cases hpath⟩
  | succ fuel ih =>
    rw [walk, Planner.walk]
    cases hnull : s.eq State.null with
    | true =>
      refine ⟨t, rfl, looked_refl, ?_⟩
      intro path hpath r hr
      obtain rfl : [] = path := by simpa using hpath
      cases hr
    | false =>
      have hstored := hs.stored hnull
      obtain ⟨v, hv⟩ := Option.isSome_iff_exists.mp ((t.dp.stored s).mpr hstored)
      have hlook : Looked p.onTrack t (t.uses [s]) :=
        looked_uses (by simpa using h.keys_mem s hstored)
      obtain ⟨t', hwalk, hlook', hpath⟩ := ih (hlook.closed h) (h.from_stored s v hv)
      refine ⟨t', ?_, hlook.trans hlook', ?_⟩
      · simp only [Bool.false_eq_true, ↓reduceIte, subscript_eq hsep h hstored, lookup_of_some hv,
          hwalk, dp_uses]
      · intro path hrest r hr
        rw [if_neg Bool.false_ne_true, lookup_of_some hv] at hrest
        obtain ⟨rest, hrest', rfl⟩ := Option.map_eq_some_iff.mp hrest
        rcases List.mem_cons.mp hr with rfl | hr
        · exact hstored
        · exact hpath rest hrest' r hr

theorem mem_of_firstState {states : List State} {first : State}
    (h : firstState states = some first) : first ∈ states := by
  unfold firstState at h
  split at h <;> exact List.mem_of_getElem? h

theorem answer_spec (hsep : c.Separates p.onTrack) (h : t.Closed p.onTrack) {best first : State}
    (hbest : best ∈ t.dp.keys) (hfirst : first ∈ t.dp.keys) :
    ∃ t', answer c best first t = (((lookup t.dp.get best).qoe, first.quality), t') ∧
      Looked p.onTrack t t' := by
  have hbestK := h.keys_mem best hbest
  have hfirstK := h.keys_mem first hfirst
  have hone : (t.uses [first]).Closed p.onTrack := h.uses (by simpa using hfirstK)
  have htwo : (t.uses [first, best]).Closed p.onTrack := h.uses (by simp [hfirstK, hbestK])
  refine ⟨t.uses [first, best, best], ?_, looked_uses (by simp [hfirstK, hbestK])⟩
  simp only [answer, subscript_eq hsep h hfirst, subscript_eq hsep hone (k := best) hbest,
    uses_uses, List.cons_append, List.nil_append, subscript_eq hsep htwo (k := best) hbest, dp_uses]

/-- The answer of `Planner.qoe` once a best state is found. -/
theorem qoe_of_bestState_ne_null {order : IterationOrder}
    (h : (p.bestState (p.search b order)).eq State.null = false) :
    p.qoe b order =
      ((Planner.walk (p.search b order).dp walkFuel (p.bestState (p.search b order))).bind
        fun path => firstState path.reverse).map fun first : State =>
          ((lookup (p.search b order).dp (p.bestState (p.search b order))).qoe, first.quality) := by
  unfold Planner.qoe
  simp only [h, Bool.false_eq_true, ↓reduceIte]
  cases Planner.walk (p.search b order).dp walkFuel (p.bestState (p.search b order)) with
  | none => rfl
  | some path =>
    simp only [Option.bind_eq_bind, Option.bind_some, firstState]
    split
    · cases path.reverse[1]? <;> rfl
    · cases path.reverse[0]? <;> rfl

/-- **The refinement.** If the tables never take two states of the tracks for each other, the
planner answers like the one whose table is keyed by all three fields, its tables hold the same,
and the keys it uses are states of the tracks. -/
theorem qoe_spec (hsep : c.Separates p.onTrack) (hstart : p.startState ∈ p.onTrack) :
    ∃ t, qoe p b c = (p.qoe b c.order, t) ∧ t.content = p.search b c.order ∧
      t.Closed p.onTrack := by
  obtain ⟨hclosed, hcontent⟩ := search_spec (b := b) hsep hstart
  obtain ⟨t₁, hbest, hlook₁, hstored⟩ := bestState_spec hsep hclosed
  have hdp : (search p b c).dp.get = (p.search b c.order).dp := congrArg Search.dp hcontent
  rw [hcontent] at hbest hstored
  unfold qoe
  simp only [hbest]
  cases hnull : (p.bestState (p.search b c.order)).eq State.null with
  | true =>
    refine ⟨t₁, ?_, hlook₁.content_eq.trans hcontent, hlook₁.closed hclosed⟩
    simp [Planner.qoe, hnull]
  | false =>
    have hmem : p.bestState (p.search b c.order) ∈ t₁.dp.keys := by
      rw [hlook₁.dp_eq]
      exact hstored.stored hnull
    obtain ⟨t₂, hwalk, hlook₂, hpath⟩ :=
      walk_spec hsep walkFuel (hlook₁.closed hclosed) (Or.inr hmem)
    have hlook := hlook₁.trans hlook₂
    rw [hlook₁.dp_eq, hdp] at hwalk hpath
    rw [qoe_of_bestState_ne_null hnull]
    simp only [Bool.false_eq_true, ↓reduceIte, hwalk]
    cases hfirst : (Planner.walk (p.search b c.order).dp walkFuel
        (p.bestState (p.search b c.order))).bind fun path => firstState path.reverse with
    | none => exact ⟨t₂, rfl, hlook.content_eq.trans hcontent, hlook.closed hclosed⟩
    | some first =>
      obtain ⟨path, hpath', hfirst'⟩ := Option.bind_eq_some_iff.mp hfirst
      have hmem₂ : p.bestState (p.search b c.order) ∈ t₂.dp.keys := hlook₂.dp_eq ▸ hmem
      have hfirstMem : first ∈ t₂.dp.keys := by
        rw [hlook.dp_eq]
        exact hpath path hpath' first (List.mem_reverse.mp (mem_of_firstState hfirst'))
      obtain ⟨t₃, hanswer, hlook₃⟩ := answer_spec hsep (hlook.closed hclosed) hmem₂ hfirstMem
      rw [hlook.dp_eq, hdp] at hanswer
      have hlook' := hlook.trans hlook₃
      refine ⟨t₃, ?_, hlook'.content_eq.trans hcontent, hlook'.closed hclosed⟩
      simp only [hanswer, Option.map_some]

/-- **Comparing hash codes first.** A library that looks at the hash codes of two keys before it
compares them separates all states of the tracks, so the planner is `Planner.qoe`. -/
theorem qoe_of_comparesCodes (hq : 0 ≤ p.currentQuality)
    (hqn : p.currentQuality < p.video.segments.length) (hn : p.video.segments.length ≤ 2 ^ 64)
    (hdp : ∀ a, c.dp.comparesCodes a = true) (hstates : ∀ a, c.states.comparesCodes a = true) :
    (qoe p b c).1 = p.qoe b c.order ∧ (qoe p b c).2.content = p.search b c.order := by
  have happart : ∀ s ∈ p.onTrack, ∀ u ∈ p.onTrack, stateHasher.eq s u = true →
      stateHasher.hash s = stateHasher.hash u → s = u := by
    intro s hs u hu heq hhash
    obtain ⟨hs0, hs1⟩ := hs
    obtain ⟨hu0, hu1⟩ := hu
    exact eq_of_hash_eq heq hhash (by omega) (by omega)
  have hsep : c.Separates p.onTrack :=
    ⟨Layout.separates_of_comparesCodes hdp happart,
      Layout.separates_of_comparesCodes hstates happart⟩
  have hstart : p.startState ∈ p.onTrack := ⟨hq, hqn⟩
  obtain ⟨t, hqoe, hcontent, -⟩ := qoe_spec (b := b) hsep hstart
  simp only [hqoe, hcontent, and_self]

end Hashed
end Planner
end Target
end LiveStream
