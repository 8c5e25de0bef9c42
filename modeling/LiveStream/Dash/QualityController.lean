import LiveStream.Lib.Newest
import LiveStream.Lib.Run

/-!
# The quality controller

`controller/quality.ts`, `common/cache.ts` and the `Decision` of `common/data.ts`. The controller
keeps one decision per segment, the newest by timestamp. A decision may have no quality: then
`getQuality` answers the default it is called with, and adds a decision with that quality back to
the cache.

* `getQuality_fst`, the decision added back never replaces the one it is made from;
* `piece_after`, the decision stored after any sequence of calls, as a fold over those added.
-/

namespace LiveStream
namespace Dash

open Lib

/-- A decision; `none` is `undefined`. -/
structure Decision where
  index : ℤ
  quality : Option ℤ
  timestamp : Option ℤ
deriving DecidableEq

/-- `a < b`; false if one of the two is `undefined`. -/
def lessThan : Option ℤ → Option ℤ → Bool
  | some a, some b => a < b
  | _, _ => false

theorem lessThan_self (a : Option ℤ) : lessThan a a = false := by
  cases a with
  | none => rfl
  | some a => exact decide_eq_false (lt_irrefl a)

/-- The timestamp for comparisons, a decision without one being below all others. -/
def Decision.rank (p : Decision) : WithBot ℤ :=
  match p.timestamp with
  | none => ⊥
  | some t => t

theorem Decision.lessThan_timestamp {p : Decision} (hp : p.timestamp ≠ none) (q : Decision) :
    lessThan p.timestamp q.timestamp = decide (p.rank < q.rank) := by
  obtain ⟨t, ht⟩ := Option.ne_none_iff_exists'.mp hp
  unfold rank
  rw [ht]
  cases q.timestamp with
  | none => exact (decide_eq_false not_lt_bot).symm
  | some u => exact decide_eq_decide.mpr WithBot.coe_lt_coe.symm

theorem Decision.timestamp_eq_of_rank_eq {p q : Decision} (hp : p.timestamp ≠ none)
    (hq : q.timestamp ≠ none) (h : p.rank = q.rank) : p.timestamp = q.timestamp := by
  obtain ⟨t, ht⟩ := Option.ne_none_iff_exists'.mp hp
  obtain ⟨u, hu⟩ := Option.ne_none_iff_exists'.mp hq
  unfold rank at h
  rw [ht, hu] at h ⊢
  rw [WithBot.coe_inj.mp h]

/-! ## `PieceCache` -/

/-- The cache; every decision is stored under its own index. -/
structure PieceCache where
  container : ℤ → Option Decision
  keyed : ∀ i p, container i = some p → p.index = i

namespace PieceCache

theorem keyed_empty (i : ℤ) (p : Decision) (h : (none : Option Decision) = some p) :
    p.index = i := absurd h.symm (Option.some_ne_none p)

def empty : PieceCache := ⟨fun _ => none, keyed_empty⟩

def piece (c : PieceCache) (index : ℤ) : Option Decision := c.container index

theorem keyed_update (c : PieceCache) (piece : Decision) (i : ℤ) (p : Decision)
    (h : Function.update c.container piece.index (some piece) i = some p) : p.index = i := by
  by_cases hi : i = piece.index
  · rw [hi, Function.update_self, Option.some.injEq] at h
    rw [← h, hi]
  · rw [Function.update_of_ne hi] at h
    exact c.keyed i p h

/-- `this.container[piece.index] = piece`. -/
def store (c : PieceCache) (piece : Decision) : PieceCache :=
  ⟨Function.update c.container piece.index (some piece), keyed_update c piece⟩

def insert (c : PieceCache) (piece : Decision) : PieceCache :=
  match c.container piece.index with
  | some currentPiece =>
    if lessThan currentPiece.timestamp piece.timestamp then c.store piece else c
  | none => c.store piece

/-- Is the decision `a` to be replaced by `b`? -/
def replaces (a b : Decision) : Bool := lessThan a.timestamp b.timestamp

theorem piece_store (c : PieceCache) (p : Decision) (i : ℤ) :
    (c.store p).piece i = if p.index = i then some p else c.piece i := by
  show Function.update c.container p.index (some p) i = _
  rw [Function.update_apply]
  simp only [eq_comm]
  rfl

/-- **Step lemma.** Of each index the cache keeps one of the decisions. -/
theorem piece_insert (c : PieceCache) (p : Decision) (i : ℤ) :
    (c.insert p).piece i = if p.index = i then keepBy replaces (c.piece i) p else c.piece i := by
  unfold insert
  split
  · next current hc =>
    split
    · next hlt =>
      rw [piece_store]
      split
      · next hi =>
        rw [← hi, piece, hc, keepBy, if_pos (show replaces current p = true from hlt)]
      · rfl
    · next hlt =>
      split
      · next hi =>
        rw [← hi, piece, hc, keepBy, if_neg (show ¬ replaces current p = true from hlt)]
      · rfl
  · next hc =>
    rw [piece_store]
    split
    · next hi => rw [← hi, piece, hc, keepBy]
    · rfl

/-- What is stored of an index is kept from the decisions of that index alone, in their order. -/
theorem piece_run_insert (c : PieceCache) (ps : List Decision) (i : ℤ) :
    (run insert c ps).piece i =
      (ps.filter fun p => p.index = i).foldl (keepBy replaces) (c.piece i) := by
  induction ps generalizing c with
  | nil => rfl
  | cons p ps ih =>
    rw [run_cons, ih, piece_insert]
    by_cases hi : p.index = i
    · rw [List.filter_cons_of_pos (by simpa using hi), List.foldl_cons, if_pos hi]
    · rw [List.filter_cons_of_neg (by simpa using hi), if_neg hi]

/-- A decision that is not newer than the one stored changes nothing. -/
theorem insert_of_not_lessThan {c : PieceCache} {p q : Decision} (hp : c.piece q.index = some p)
    (h : lessThan p.timestamp q.timestamp = false) : c.insert q = c := by
  unfold insert
  rw [show c.container q.index = some p from hp]
  exact if_neg (by rw [h]; exact Bool.false_ne_true)

/-- The stored decision stays until a newer one of its index is inserted. -/
theorem piece_run_insert_of_forall {c : PieceCache} {p : Decision} {i : ℤ} {ps : List Decision}
    (hp : c.piece i = some p)
    (h : ∀ q ∈ ps, q.index = i → lessThan p.timestamp q.timestamp = false) :
    (run insert c ps).piece i = some p := by
  rw [piece_run_insert, hp]
  apply foldl_keepBy_of_forall
  intro q hq
  obtain ⟨hmem, hi⟩ := List.mem_filter.mp hq
  exact h q hmem (of_decide_eq_true hi)

/-- From a decision with a timestamp on, the cache keeps the largest timestamp. -/
theorem foldl_keepBy_replaces {p : Decision} (hp : p.timestamp ≠ none) (ps : List Decision) :
    ps.foldl (keepBy replaces) (some p) = ps.foldl (keepMax Decision.rank) (some p) := by
  induction ps generalizing p with
  | nil => rfl
  | cons q ps ih =>
    have hsame : keepBy replaces (some p) q = keepMax Decision.rank (some p) q := by
      show (if replaces p q then some q else some p) =
        if decide (p.rank < q.rank) then some q else some p
      rw [replaces, Decision.lessThan_timestamp hp]
    rw [List.foldl_cons, List.foldl_cons, ← hsame, keepBy]
    split
    · next hlt =>
      -- the new decision has a timestamp too
      apply ih
      intro hnone
      rw [replaces, hnone] at hlt
      cases hp' : p.timestamp <;> rw [hp'] at hlt <;> cases hlt
    · exact ih hp

end PieceCache

/-! ## `QualityController` -/

structure QualityController where
  index : ℤ
  cache : PieceCache

namespace QualityController

def init : QualityController := ⟨1, .empty⟩

/-- `none` for the `RangeError`. -/
def advance (s : QualityController) (index : ℤ) : Option QualityController :=
  if index < s.index then none else some { s with index := index }

def addPiece (s : QualityController) (piece : Decision) : QualityController :=
  { s with cache := s.cache.insert piece }

/-- The attached callback: it may add decisions. -/
def onGetQuality (s : QualityController) (added : List Decision) : QualityController :=
  run addPiece s added

/-- The index a call of `getQuality` is about. -/
def resolve (s : QualityController) (index : Option ℤ) : ℤ := index.getD s.index

def getQuality (s : QualityController) (index defaultQuality : Option ℤ) (added : List Decision) :
    QualityController × Option ℤ :=
  let index := s.resolve index
  let s := s.onGetQuality added
  match s.cache.piece index with
  | none => (s, some 0)
  | some decision =>
    match decision.quality with
    | some quality => (s, some quality)
    | none =>
      let decision :=
        if decision.timestamp = none then ⟨decision.index, defaultQuality, some 0⟩ else decision
      (s.addPiece ⟨decision.index, defaultQuality, decision.timestamp⟩, defaultQuality)

theorem onGetQuality_cache (s : QualityController) (added : List Decision) :
    (s.onGetQuality added).cache = run PieceCache.insert s.cache added :=
  run_map (φ := cache) (P := fun _ => True) trivial (fun _ _ _ _ => trivial) fun _ _ _ _ => rfl

variable {s : QualityController} {index d : Option ℤ} {added : List Decision} {p : Decision}

theorem getQuality_of_none
    (hp : (s.onGetQuality added).cache.piece (s.resolve index) = none) :
    (s.getQuality index d added).2 = some 0 := by
  simp only [getQuality, hp]

theorem getQuality_of_quality {quality : ℤ}
    (hp : (s.onGetQuality added).cache.piece (s.resolve index) = some p)
    (hq : p.quality = some quality) : (s.getQuality index d added).2 = some quality := by
  simp only [getQuality, hp, hq]

theorem getQuality_of_undefined
    (hp : (s.onGetQuality added).cache.piece (s.resolve index) = some p) (hq : p.quality = none) :
    (s.getQuality index d added).2 = d := by
  simp only [getQuality, hp, hq]

/-- The decision `getQuality` adds back has the timestamp of the one stored, or 0 if that has
none; it does not replace it. -/
theorem getQuality_fst (s : QualityController) (index d : Option ℤ) (added : List Decision) :
    (s.getQuality index d added).1 = s.onGetQuality added := by
  unfold getQuality
  dsimp only
  split
  · rfl
  · next p hp =>
    split
    · rfl
    · have hindex : p.index = s.resolve index := (s.onGetQuality added).cache.keyed _ p hp
      have hsame : ∀ timestamp, lessThan p.timestamp timestamp = false →
          (s.onGetQuality added).addPiece ⟨p.index, d, timestamp⟩ = s.onGetQuality added := by
        intro timestamp h
        unfold addPiece
        rw [PieceCache.insert_of_not_lessThan (p := p) (hindex ▸ hp) h]
      split
      · next hnone => exact hsame (some 0) (by rw [hnone]; rfl)
      · exact hsame p.timestamp (lessThan_self _)

/-! ## Sequences of calls -/

/-- A call, with the decisions the callback adds in a `getQuality`. -/
inductive Call where
  | advance (index : ℤ)
  | addPiece (piece : Decision)
  | getQuality (index defaultQuality : Option ℤ) (added : List Decision)

def step (s : QualityController) : Call → QualityController
  | .advance index => (s.advance index).getD s
  | .addPiece piece => s.addPiece piece
  | .getQuality index defaultQuality added => (s.getQuality index defaultQuality added).1

/-- The state after a sequence of calls. -/
def after (calls : List Call) : QualityController := run step init calls

/-- The decisions a call adds. -/
def Call.pieces : Call → List Decision
  | .advance _ => []
  | .addPiece piece => [piece]
  | .getQuality _ _ added => added

def pieces (calls : List Call) : List Decision := calls.flatMap Call.pieces

/-- The decisions added for a segment by the calls, and then by a callback. -/
def piecesOf (calls : List Call) (added : List Decision) (i : ℤ) : List Decision :=
  (pieces calls ++ added).filter fun p => p.index = i

/-- **Step lemma.** Only the decisions added change the cache. -/
theorem step_cache (s : QualityController) (call : Call) :
    (s.step call).cache = run PieceCache.insert s.cache call.pieces := by
  cases call with
  | advance index =>
    show ((s.advance index).getD s).cache = s.cache
    unfold advance
    split <;> rfl
  | addPiece piece => rfl
  | getQuality index defaultQuality added =>
    show (s.getQuality index defaultQuality added).1.cache = _
    rw [getQuality_fst, onGetQuality_cache]
    rfl

/-- The cache after any calls is that of the decisions they add, answers written back included. -/
theorem run_step_cache (s : QualityController) (calls : List Call) :
    (run step s calls).cache = run PieceCache.insert s.cache (pieces calls) := by
  induction calls generalizing s with
  | nil => rfl
  | cons call calls ih =>
    have hpieces : pieces (call :: calls) = call.pieces ++ pieces calls := List.flatMap_cons
    rw [run_cons, ih, step_cache, hpieces, run_append]

/-- The decision a `getQuality` finds after a sequence of calls. -/
theorem piece_after (calls : List Call) (added : List Decision) (i : ℤ) :
    ((after calls).onGetQuality added).cache.piece i =
      (piecesOf calls added i).foldl (keepBy PieceCache.replaces) none := by
  rw [onGetQuality_cache, after, run_step_cache, ← run_append, PieceCache.piece_run_insert]
  rfl

/-- What a `getQuality` found is still there at a later one, unless a newer decision came. -/
theorem piece_later {calls : List Call} {i : ℤ} {mid : List Call} {added' : List Decision}
    (hp : ((after calls).onGetQuality added).cache.piece i = some p)
    (h : ∀ q ∈ pieces mid ++ added', q.index = i → lessThan p.timestamp q.timestamp = false) :
    ((after (calls ++ .getQuality index d added :: mid)).onGetQuality added').cache.piece i =
      some p := by
  have hcache : (after (calls ++ .getQuality index d added :: mid)).cache =
      run PieceCache.insert ((after calls).onGetQuality added).cache (pieces mid) := by
    rw [after, run_append, run_cons, run_step_cache]
    show run PieceCache.insert ((after calls).getQuality index d added).1.cache _ = _
    rw [getQuality_fst]
  rw [onGetQuality_cache, hcache, ← run_append]
  exact PieceCache.piece_run_insert_of_forall hp h

/-- If the first decision of a segment has a timestamp, the one kept has the largest. -/
theorem piece_after_of_timestamp {calls : List Call} {i : ℤ}
    (hfirst : ∃ p ∈ (piecesOf calls added i).head?, p.timestamp ≠ none) :
    ((after calls).onGetQuality added).cache.piece i =
      (piecesOf calls added i).foldl (keepMax Decision.rank) none := by
  rw [piece_after]
  obtain ⟨p, hp, hne⟩ := hfirst
  cases hps : piecesOf calls added i with
  | nil => rfl
  | cons q qs =>
    rw [hps, List.head?_cons, Option.mem_some_iff] at hp
    subst hp
    exact PieceCache.foldl_keepBy_replaces hne qs

theorem piece_after_of_forall {calls : List Call} {i : ℤ}
    (ht : ∀ p ∈ piecesOf calls added i, p.timestamp ≠ none) :
    ((after calls).onGetQuality added).cache.piece i =
      (piecesOf calls added i).foldl (keepMax Decision.rank) none := by
  cases hps : piecesOf calls added i with
  | nil =>
    rw [piece_after, hps]
    rfl
  | cons q qs =>
    rw [← hps]
    apply piece_after_of_timestamp
    rw [hps]
    exact ⟨q, rfl, ht q (hps ▸ List.mem_cons_self ..)⟩

/-- Without undefined qualities the answer is the quality stored, or 0. -/
theorem getQuality_of_forall {calls : List Call} (d : Option ℤ)
    (hq : ∀ p ∈ piecesOf calls added ((after calls).resolve index), p.quality ≠ none) :
    ((after calls).getQuality index d added).2 =
      (((after calls).onGetQuality added).cache.piece ((after calls).resolve index)).elim (some 0)
        Decision.quality := by
  cases hp : ((after calls).onGetQuality added).cache.piece ((after calls).resolve index) with
  | none => exact getQuality_of_none hp
  | some p =>
    have hmem : p ∈ piecesOf calls added ((after calls).resolve index) := by
      rw [piece_after] at hp
      exact mem_of_foldl_keepBy hp
    obtain ⟨quality, hquality⟩ := Option.ne_none_iff_exists'.mp (hq p hmem)
    rw [getQuality_of_quality hp hquality, Option.elim_some, hquality]

/-- A decision without a timestamp that comes first is kept. -/
theorem piece_after_of_no_timestamp {calls : List Call} {i : ℤ}
    (hfirst : (piecesOf calls added i).head? = some p) (hp : p.timestamp = none) :
    ((after calls).onGetQuality added).cache.piece i = some p := by
  obtain ⟨qs, hqs⟩ := List.head?_eq_some_iff.mp hfirst
  rw [piece_after, hqs, List.foldl_cons]
  apply foldl_keepBy_of_forall
  intro q _
  rw [PieceCache.replaces, hp]
  rfl

/-- A decision with the largest timestamp. -/
def Newest (ps : List Decision) (p : Decision) : Prop := p ∈ ps ∧ ∀ q ∈ ps, q.rank ≤ p.rank

/-- Where the first decision has a timestamp, the answer is that of the largest. -/
theorem getQuality_newest {calls : List Call} (d : Option ℤ)
    (hq : ∀ p ∈ piecesOf calls added ((after calls).resolve index), p.quality ≠ none)
    (hfirst : ∃ p ∈ (piecesOf calls added ((after calls).resolve index)).head?,
      p.timestamp ≠ none) :
    ∃ p, Newest (piecesOf calls added ((after calls).resolve index)) p ∧
      ((after calls).getQuality index d added).2 = p.quality := by
  rw [getQuality_of_forall d hq, piece_after_of_timestamp hfirst]
  rcases foldl_keepMax_spec Decision.rank (piecesOf calls added ((after calls).resolve index)) with
    ⟨hnil, -⟩ | ⟨p, hp, hkept, hmax⟩
  · obtain ⟨p, hp, -⟩ := hfirst
    rw [hnil, List.head?_nil] at hp
    exact absurd hp (Option.not_mem_none p)
  · exact ⟨p, ⟨hp, hmax⟩, by rw [hkept, Option.elim_some]⟩

/-- The answers of `getQuality` in any sequence of calls. A later call that still finds the
decision without quality answers what the first one did exactly if it has the same default.
Where all decisions of a segment have a quality, the answer is that of the largest timestamp
exactly if the first of them has a timestamp or happens to have this quality; with distinct
timestamps the order does not matter. -/
theorem defaulted_or_newest (calls : List Call) (index d : Option ℤ) (added : List Decision) :
    let s := after calls
    let i := s.resolve index
    let ps := piecesOf calls added i
    (∀ (mid : List Call) (index' d' : Option ℤ) (added' : List Decision) (p : Decision),
      let t := after (calls ++ .getQuality index d added :: mid)
      (s.onGetQuality added).cache.piece i = some p → p.quality = none → t.resolve index' = i →
      (∀ q ∈ pieces mid ++ added', q.index = i → lessThan p.timestamp q.timestamp = false) →
      (s.getQuality index d added).2 = d ∧ ((t.getQuality index' d' added').2 = d ↔ d' = d)) ∧
    (∀ first, ps.head? = some first → (∀ p ∈ ps, p.quality ≠ none) →
      ((∃ p, Newest ps p ∧ (s.getQuality index d added).2 = p.quality) ↔
        first.timestamp ≠ none ∨ ∃ p, Newest ps p ∧ first.quality = p.quality)) ∧
    (∀ (calls' : List Call) (index' d' : Option ℤ) (added' : List Decision),
      let ps' := piecesOf calls' added' ((after calls').resolve index')
      ps.Perm ps' → (∀ p ∈ ps, p.quality ≠ none) → (∀ p ∈ ps, p.timestamp ≠ none) →
      (ps.map Decision.timestamp).Nodup →
      (s.getQuality index d added).2 = ((after calls').getQuality index' d' added').2) := by
  intro s i ps
  refine ⟨?_, ?_, ?_⟩
  · intro mid index' d' added' p t hp hq hi hnew
    have hlater : (t.onGetQuality added').cache.piece i = some p := piece_later hp hnew
    rw [← hi] at hlater
    refine ⟨getQuality_of_undefined hp hq, ?_⟩
    rw [getQuality_of_undefined hlater hq]
  · intro first hfirst hq
    by_cases htime : first.timestamp = none
    · -- the first decision is the one that answers
      have hanswer : (s.getQuality index d added).2 = first.quality := by
        rw [getQuality_of_forall d hq, piece_after_of_no_timestamp hfirst htime, Option.elim_some]
      rw [hanswer]
      simp [htime]
    · exact iff_of_true (getQuality_newest d hq ⟨first, hfirst, htime⟩) (Or.inl htime)
  · intro calls' index' d' added' ps' hperm hq ht hdistinct
    have hq' : ∀ p ∈ ps', p.quality ≠ none := fun p hp => hq p (hperm.mem_iff.mpr hp)
    have ht' : ∀ p ∈ ps', p.timestamp ≠ none := fun p hp => ht p (hperm.mem_iff.mpr hp)
    rw [getQuality_of_forall d hq, getQuality_of_forall d' hq', piece_after_of_forall ht,
      piece_after_of_forall ht']
    congr 1
    apply foldl_keepMax_eq (r := fun a b => a.rank ≤ b.rank) (fun _ _ h => h)
    · exact Covers.of_mem_iff (fun a => le_refl a.rank) fun _ => hperm.mem_iff
    · intro a ha b hb hab
      have ha' := hperm.mem_iff.mpr ha
      have hb' := hperm.mem_iff.mpr hb
      exact List.inj_on_of_nodup_map hdistinct ha' hb'
        (Decision.timestamp_eq_of_rank_eq (ht a ha') (ht b hb') hab)

/-- Segment 1 has no quality, and each of two calls answers its own default. The first decision
for segment 2 has no timestamp, and none replaces it. -/
theorem second_default_answered :
    let undecided : Decision := ⟨1, none, some 5⟩
    let s := after [.addPiece undecided]
    let t := after [.addPiece undecided, .getQuality (some 1) (some 2) []]
    (s.onGetQuality []).cache.piece 1 = some undecided ∧
      (s.getQuality (some 1) (some 2) []).2 = some 2 ∧
      (t.getQuality (some 1) (some 3) []).2 = some 3 ∧
      ((after [.addPiece ⟨2, some 0, none⟩, .addPiece ⟨2, some 4, some 9⟩]).getQuality (some 2) none
        []).2 = some 0 := by
  decide

/-- The same default twice, and two decisions for segment 2 in both orders. -/
theorem defaulted_or_newest_two_segments :
    let old : Decision := ⟨2, some 0, some 3⟩
    let new : Decision := ⟨2, some 4, some 9⟩
    let undecided : Decision := ⟨1, none, some 5⟩
    ((after [.addPiece undecided, .getQuality (some 1) (some 2) []]).getQuality (some 1) (some 2)
        []).2 = some 2 ∧
      (∃ p, Newest [old, new] p ∧
        ((after [.addPiece old]).getQuality (some 2) none [new]).2 = p.quality) ∧
      ((after [.addPiece old, .addPiece new]).getQuality (some 2) none []).2 =
        ((after [.addPiece new, .addPiece old]).getQuality (some 2) (some 1) []).2 := by
  refine ⟨?_, ?_, ?_⟩
  · exact ((defaulted_or_newest [.addPiece ⟨1, none, some 5⟩] (some 1) (some 2) []).1 [] (some 1)
      (some 2) [] ⟨1, none, some 5⟩ (by decide) rfl rfl (by simp [pieces])).2.mpr rfl
  · exact ((defaulted_or_newest [.addPiece ⟨2, some 0, some 3⟩] (some 2) none
      [⟨2, some 4, some 9⟩]).2.1 ⟨2, some 0, some 3⟩ (by decide) (by decide)).mpr
        (Or.inl (by decide))
  · exact (defaulted_or_newest [.addPiece ⟨2, some 0, some 3⟩, .addPiece ⟨2, some 4, some 9⟩]
      (some 2) none []).2.2 [.addPiece ⟨2, some 4, some 9⟩, .addPiece ⟨2, some 0, some 3⟩]
        (some 2) (some 1) [] (by decide) (by decide) (by decide) (by decide)

end QualityController

end Dash
end LiveStream
