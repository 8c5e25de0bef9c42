import LiveStream.Lib.Text
import LiveStream.Target.GapAbr

/-!
# The remote target: what is sent and what is read

`RemoteAbr::getTargetDecision` writes its arguments into the query of a GET request, and the
handler of `/target_bandwidth` in `learning/server.py` reads them back. HTTP is taken to
deliver the query as it is, and `eval` to return the elements of a list literal.

* `readParameter_query`, every parameter arrives as it was printed;
* `getTargetBandwidth_query`, what the handler has read;
* `decodes_iff`, when that is what was meant.
-/

namespace LiveStream
namespace Learning

open Lib
open Target.RemoteAbr (Request)
open Video (subscript)

/-! ## The client -/

/-- The parameters `getTargetDecision` writes, in order. -/
def parameters (q : Request) : List (List Char × List Char) :=
  [("avg_bandwidth".toList, showInt q.avgBandwidth),
    ("current_bandwidth".toList, showInt q.currentBandwidth),
    ("last_buffer".toList, showInt q.lastBuffer),
    ("last_rtt".toList, showInt q.lastRtt),
    ("current_quality".toList, showInt q.currentQuality),
    ("vmafs".toList, showList (showList showInt) q.vmafs),
    ("sizes".toList, showList (showList showInt) q.sizes),
    ("current_index".toList, showInt q.currentIndex)]

/-- The query of the request. -/
def query (q : Request) : List Char := showQuery (parameters q)

/-! ## The server -/

/-- The local variables of the handler. -/
structure Arguments where
  avgBandwidth : ℤ
  currentBandwidth : ℤ
  lastBuffer : ℤ
  lastRtt : ℤ
  vmafs : List (List ℤ)
  sizes : List (List ℤ)
  currentQuality : ℤ
  currentIndex : ℤ
  currentVmaf : ℤ
  currentSize : ℤ
deriving DecidableEq

/-- `int(request.args.get(name))`; `none` for an exception. -/
def intParameter (text : List Char) (name : String) : Option ℤ :=
  (queryValue text name.toList).bind readInt

/-- `eval(request.args.get(name))` of a matrix. -/
def matrixParameter (text : List Char) (name : String) : Option (List (List ℤ)) :=
  (queryValue text name.toList).bind (readList (takeList takeInt))

/-- `matrix[0][column]`. -/
def firstRow (matrix : List (List ℤ)) (column : ℤ) : Option ℤ :=
  matrix.head?.bind fun row => subscript row column

/-- `get_target_bandwidth` up to the model: the variables it has read. -/
def getTargetBandwidth (text : List Char) : Option Arguments := do
  let avgBandwidth ← intParameter text "avg_bandwidth"
  let currentBandwidth ← intParameter text "current_bandwidth"
  let lastBuffer ← intParameter text "last_buffer"
  let lastRtt ← intParameter text "last_rtt"
  let vmafs ← matrixParameter text "vmafs"
  let sizes ← matrixParameter text "sizes"
  let currentQuality ← intParameter text "current_quality"
  let currentIndex ← intParameter text "current_index"
  let currentVmaf ← firstRow vmafs (currentQuality - 1)
  let currentSize ← firstRow sizes (currentQuality - 1)
  return ⟨avgBandwidth, currentBandwidth, lastBuffer, lastRtt, vmafs, sizes, currentQuality,
    currentIndex, currentVmaf, currentSize⟩

/-! ## Every parameter arrives -/

theorem not_mem_showInt (n : ℤ) : '&' ∉ showInt n := by
  intro h
  rcases mem_showInt h with h | h
  · exact absurd h (by decide)
  · exact absurd h (by decide)

theorem not_mem_showMatrix (matrix : List (List ℤ)) : '&' ∉ showList (showList showInt) matrix := by
  intro h
  rcases mem_showList h with h | h | h | ⟨row, -, h⟩
  · exact absurd h (by decide)
  · exact absurd h (by decide)
  · exact absurd h (by decide)
  · rcases mem_showList h with h | h | h | ⟨n, -, h⟩
    · exact absurd h (by decide)
    · exact absurd h (by decide)
    · exact absurd h (by decide)
    · exact not_mem_showInt n h

theorem readQuery_query (q : Request) : readQuery (query q) = parameters q := by
  apply readQuery_showQuery
  · exact List.cons_ne_nil _ _
  · intro f hf
    have hnames : ∀ name ∈ (parameters q).map Prod.fst, '&' ∉ name ∧ '=' ∉ name := by
      show ∀ name ∈ ["avg_bandwidth".toList, "current_bandwidth".toList, "last_buffer".toList,
        "last_rtt".toList, "current_quality".toList, "vmafs".toList, "sizes".toList,
        "current_index".toList], '&' ∉ name ∧ '=' ∉ name
      decide
    exact hnames f.1 (List.mem_map_of_mem hf)
  · intro f hf
    simp only [parameters, List.mem_cons, List.not_mem_nil, or_false] at hf
    rcases hf with rfl | rfl | rfl | rfl | rfl | rfl | rfl | rfl
    any_goals exact not_mem_showInt _
    all_goals exact not_mem_showMatrix _

theorem intParameter_query (q : Request) (name : String) (n : ℤ)
    (h : ((parameters q).find? fun f => f.1 = name.toList).map Prod.snd = some (showInt n)) :
    intParameter (query q) name = some n := by
  rw [intParameter, queryValue, readQuery_query, h, Option.bind_some, readInt_showInt]

theorem matrixParameter_query (q : Request) (name : String) (matrix : List (List ℤ))
    (h : ((parameters q).find? fun f => f.1 = name.toList).map Prod.snd
      = some (showList (showList showInt) matrix)) :
    matrixParameter (query q) name = some matrix := by
  rw [matrixParameter, queryValue, readQuery_query, h, Option.bind_some,
    readList_showList readable_int.list]

/-- What the handler has read: all that was sent, and two entries of the first rows. -/
theorem getTargetBandwidth_query (q : Request) : getTargetBandwidth (query q) = do
    let currentVmaf ← firstRow q.vmafs (q.currentQuality - 1)
    let currentSize ← firstRow q.sizes (q.currentQuality - 1)
    return ⟨q.avgBandwidth, q.currentBandwidth, q.lastBuffer, q.lastRtt, q.vmafs, q.sizes,
      q.currentQuality, q.currentIndex, currentVmaf, currentSize⟩ := by
  unfold getTargetBandwidth
  rw [intParameter_query q "avg_bandwidth" q.avgBandwidth rfl,
    intParameter_query q "current_bandwidth" q.currentBandwidth rfl,
    intParameter_query q "last_buffer" q.lastBuffer rfl,
    intParameter_query q "last_rtt" q.lastRtt rfl,
    matrixParameter_query q "vmafs" q.vmafs rfl,
    matrixParameter_query q "sizes" q.sizes rfl,
    intParameter_query q "current_quality" q.currentQuality rfl,
    intParameter_query q "current_index" q.currentIndex rfl]
  rfl

/-! ## The two entries -/

/-- The request of a state whose horizon lies inside a video of `n` tracks. -/
structure Shaped (q : Request) (n : ℕ) : Prop where
  vmafs_rows : q.vmafs.length = 5
  sizes_rows : q.sizes.length = 5
  vmafs_columns : ∀ row ∈ q.vmafs, row.length = n
  sizes_columns : ∀ row ∈ q.sizes, row.length = n
  quality_nonneg : 0 ≤ q.currentQuality
  quality_lt : q.currentQuality < n

/-- Every request that is sent has this shape. -/
theorem shaped_request {p : Target.Planner} (hp : p.Placed) (r : Target.Readings)
    (hsent : (Target.RemoteAbr.request p r).isSent = true) :
    Shaped (Target.RemoteAbr.request p r) p.video.segments.length := by
  have hrows : (Target.RemoteAbr.horizon p).length = 5 := by
    have hlow : 5 ≤ ((Target.RemoteAbr.horizon p).map fun i =>
        (List.range p.video.segments.length).map fun q : ℕ => p.video.vmaf q i).length :=
      of_decide_eq_true hsent
    have hhigh : (Target.RemoteAbr.horizon p).length ≤ 5 := by
      apply (List.length_filter_le _ _).trans
      simp [Target.RemoteAbr.horizonAdjustment]
    rw [List.length_map] at hlow
    omega
  have hcolumns : ∀ field, ∀ row ∈ Target.RemoteAbr.matrix p field,
      row.length = p.video.segments.length := by
    intro field row hrow
    obtain ⟨i, -, rfl⟩ := List.mem_map.mp hrow
    simp
  refine ⟨?_, ?_, hcolumns p.video.vmaf, hcolumns fun q i => (p.video.info q i).size,
    hp.quality_nonneg, hp.quality_lt⟩
  · exact (List.length_map _).trans hrows
  · exact (List.length_map _).trans hrows

/-- The column that is read for a quality: the one before, and for quality 0 the last. -/
def previousColumn (n : ℕ) (quality : ℤ) : ℤ := if quality = 0 then n - 1 else quality - 1

/-- In a row of `n` entries the subscript `quality - 1` is that column, which exists. -/
theorem firstRow_previous {matrix : List (List ℤ)} {n : ℕ} {quality : ℤ} (hrows : 0 < matrix.length)
    (hcolumns : ∀ row ∈ matrix, row.length = n) (h0 : 0 ≤ quality) (hn : quality < n) :
    firstRow matrix (quality - 1) = firstRow matrix (previousColumn n quality)
      ∧ (firstRow matrix (previousColumn n quality)).isSome := by
  obtain ⟨row, rows, rfl⟩ := List.exists_cons_of_ne_nil (List.length_pos_iff.mp hrows)
  have hlen : row.length = n := hcolumns row (List.mem_cons_self ..)
  show subscript row (quality - 1) = subscript row (previousColumn n quality)
    ∧ (subscript row (previousColumn n quality)).isSome
  have hcolumn : 0 ≤ previousColumn n quality ∧ previousColumn n quality < n := by
    unfold previousColumn
    split <;> omega
  constructor
  · unfold previousColumn
    by_cases hzero : quality = 0
    · -- a subscript of -1 counts from the end
      rw [if_pos hzero, hzero]
      unfold subscript
      rw [if_neg (by omega), if_pos (by omega), if_pos (by omega)]
      congr 1
      omega
    · rw [if_neg hzero]
  · unfold subscript
    rw [if_pos hcolumn.1, List.getElem?_eq_getElem (by omega)]
    rfl

/-- The handler's variables are what was encoded, and the two entries of the first rows are
those of the current quality. -/
structure Decodes (q : Request) (a : Arguments) : Prop where
  scalars : (a.avgBandwidth, a.currentBandwidth, a.lastBuffer, a.lastRtt, a.currentQuality,
    a.currentIndex) = (q.avgBandwidth, q.currentBandwidth, q.lastBuffer, q.lastRtt,
    q.currentQuality, q.currentIndex)
  vmafs : a.vmafs = q.vmafs
  sizes : a.sizes = q.sizes
  currentVmaf : firstRow q.vmafs q.currentQuality = some a.currentVmaf
  currentSize : firstRow q.sizes q.currentQuality = some a.currentSize

/-- **The wire format.** The handler reads the same scalars and matrices, but takes the two
entries from the column before. All is as encoded exactly if that column has the same entries
in the first rows. -/
theorem decodes_iff (q : Request) (n : ℕ) (h : Shaped q n) :
    (∃ a, getTargetBandwidth (query q) = some a ∧ Decodes q a)
      ↔ firstRow q.vmafs (previousColumn n q.currentQuality) = firstRow q.vmafs q.currentQuality
        ∧ firstRow q.sizes (previousColumn n q.currentQuality)
          = firstRow q.sizes q.currentQuality := by
  have hvmafs := firstRow_previous (by rw [h.vmafs_rows]; norm_num) h.vmafs_columns
    h.quality_nonneg h.quality_lt
  have hsizes := firstRow_previous (by rw [h.sizes_rows]; norm_num) h.sizes_columns
    h.quality_nonneg h.quality_lt
  obtain ⟨vmaf, hvmaf⟩ := Option.isSome_iff_exists.mp hvmafs.2
  obtain ⟨size, hsize⟩ := Option.isSome_iff_exists.mp hsizes.2
  have hread : getTargetBandwidth (query q) = some ⟨q.avgBandwidth, q.currentBandwidth,
      q.lastBuffer, q.lastRtt, q.vmafs, q.sizes, q.currentQuality, q.currentIndex, vmaf, size⟩ := by
    rw [getTargetBandwidth_query, hvmafs.1, hsizes.1, hvmaf, hsize]
    rfl
  rw [hread, hvmaf, hsize]
  constructor
  · rintro ⟨a, ha, hd⟩
    obtain rfl := Option.some.inj ha
    exact ⟨hd.currentVmaf.symm, hd.currentSize.symm⟩
  · intro hsame
    exact ⟨_, rfl, rfl, rfl, rfl, hsame.1.symm, hsame.2.symm⟩

/-- Five rows of two tracks, where the qualities of the first segment cannot be told apart. -/
def opening : Request where
  avgBandwidth := 1500
  currentBandwidth := 1400
  lastBuffer := 8000
  lastRtt := 60
  currentQuality := 1
  currentIndex := 7
  vmafs := [[90, 90], [80, 95], [80, 95], [80, 95], [80, 95]]
  sizes := [[1000, 1000], [1000, 2500], [1000, 2500], [1000, 2500], [1000, 2500]]

theorem decodes_opening : ∃ a, getTargetBandwidth (query opening) = some a ∧ Decodes opening a :=
  (decodes_iff opening 2 ⟨rfl, rfl, by decide, by decide, by decide, by decide⟩).mpr ⟨rfl, rfl⟩

/-- A request for a state whose current quality is the lowest of three. -/
def lowest : Request where
  avgBandwidth := 1500
  currentBandwidth := 1400
  lastBuffer := 8000
  lastRtt := 60
  currentQuality := 0
  currentIndex := 7
  vmafs := List.replicate 5 [70, 80, 95]
  sizes := List.replicate 5 [1000, 2000, 4000]

/-- The handler takes vmaf and size of the highest. -/
theorem lowest_read_as_highest :
    getTargetBandwidth (query lowest) = some ⟨1500, 1400, 8000, 60, List.replicate 5 [70, 80, 95],
        List.replicate 5 [1000, 2000, 4000], 0, 7, 95, 4000⟩
      ∧ firstRow lowest.vmafs lowest.currentQuality = some 70
      ∧ firstRow lowest.sizes lowest.currentQuality = some 1000
      ∧ ¬∃ a, getTargetBandwidth (query lowest) = some a ∧ Decodes lowest a := by
  have hread : getTargetBandwidth (query lowest) = some ⟨1500, 1400, 8000, 60,
      List.replicate 5 [70, 80, 95], List.replicate 5 [1000, 2000, 4000], 0, 7, 95, 4000⟩ := by
    rw [getTargetBandwidth_query]
    decide
  refine ⟨hread, by decide, by decide, ?_⟩
  intro ⟨a, ha, hdecodes⟩
  obtain rfl := Option.some.inj (hread.symm.trans ha)
  exact absurd hdecodes.currentVmaf (by decide)

end Learning
end LiveStream
