import LiveStream.Exp.Plots
import LiveStream.Lib.Checked
import LiveStream.Lib.Newest

/-!
# Under which segment a value is exported

* `slots_update`, one update of a dataset keeps the newest value of every segment, at the
  position before the segment's number;
* `plotInv_run`, so do the plots over every sequence of updates;
* `exportPlots_eq`, the log that `export_plots` writes then, and `readMetric_export`, what
  `get_metrics` takes from it;
* `exported_iff`, when the record of a segment holds the segment's own value.
-/

namespace LiveStream
namespace Exp

open Lib
open Video (Dict)

/-! ## The newest value of a segment -/

/-- The updates of segment `x` in the dataset `name` of the plot `metric`. -/
def updatesOf (us : List Update) (metric name : String) (x : ℤ) : List Update :=
  us.filter fun u => u.metric = metric ∧ u.name = name ∧ u.x = x

/-- The update of the segment with the largest `w`, the latest of equal ones. -/
def latest (us : List Update) (metric name : String) (x : ℤ) : Option Update :=
  (updatesOf us metric name x).foldl (keepBy fun a u => a.w ≤ u.w) none

/-- The value of the latest update, 0 as long as there is none. -/
def valueOf (us : List Update) (metric name : String) (x : ℤ) : ℚ :=
  ((latest us metric name x).map Update.y).getD 0

def stampOf (us : List Update) (metric name : String) (x : ℤ) : ℚ :=
  ((latest us metric name x).map Update.w).getD 0

theorem latest_concat_of_ne {us : List Update} {u : Update} {metric name : String} {x : ℤ}
    (h : ¬(u.metric = metric ∧ u.name = name ∧ u.x = x)) :
    latest (us ++ [u]) metric name x = latest us metric name x := by
  have hfilter : updatesOf (us ++ [u]) metric name x = updatesOf us metric name x := by
    rw [updatesOf, List.filter_append, List.filter_cons_of_neg (by simpa using h),
      List.filter_nil, List.append_nil, updatesOf]
  rw [latest, hfilter, latest]

theorem latest_concat_self (us : List Update) (u : Update) :
    latest (us ++ [u]) u.metric u.name u.x =
      keepBy (fun a u => a.w ≤ u.w) (latest us u.metric u.name u.x) u := by
  have hfilter : updatesOf (us ++ [u]) u.metric u.name u.x =
      updatesOf us u.metric u.name u.x ++ [u] := by
    rw [updatesOf, List.filter_append, List.filter_cons_of_pos (by simp), List.filter_nil,
      updatesOf]
  rw [latest, hfilter, List.foldl_append, List.foldl_cons, List.foldl_nil, latest]

/-- A new update of non-negative `w` replaces the value exactly if no newer one is stored. -/
theorem valueOf_concat_self (us : List Update) {u : Update} (hw : 0 ≤ u.w) :
    (stampOf us u.metric u.name u.x ≤ u.w →
      valueOf (us ++ [u]) u.metric u.name u.x = u.y ∧
        stampOf (us ++ [u]) u.metric u.name u.x = u.w) ∧
    (u.w < stampOf us u.metric u.name u.x →
      valueOf (us ++ [u]) u.metric u.name u.x = valueOf us u.metric u.name u.x ∧
        stampOf (us ++ [u]) u.metric u.name u.x = stampOf us u.metric u.name u.x) := by
  simp only [valueOf, stampOf, latest_concat_self]
  cases latest us u.metric u.name u.x with
  | none =>
    refine ⟨fun _ => ⟨rfl, rfl⟩, fun hlt => ?_⟩
    exact absurd hlt (not_lt.mpr hw)
  | some a =>
    refine ⟨fun hle => ?_, fun hlt => ?_⟩
    · have hle : a.w ≤ u.w := hle
      simp [keepBy, hle]
    · have hlt : ¬a.w ≤ u.w := not_le.mpr hlt
      simp [keepBy, hlt]

/-- The latest update in the sense of the specification is the one the fold keeps. -/
theorem IsLatest.latest_eq {us : List Update} {u : Update} (h : IsLatest us u) :
    latest us u.metric u.name u.x = some u := by
  obtain ⟨pre, post, rfl, hpre, hpost⟩ := h
  -- up to `u` the fold holds `u`, since nothing before it is newer
  have hu : latest (pre ++ [u]) u.metric u.name u.x = some u := by
    rw [latest_concat_self]
    cases ha : latest pre u.metric u.name u.x with
    | none => rfl
    | some a =>
      have hyes : ∀ a u : Update, decide (a.w ≤ u.w) = true → a.w ≤ u.w :=
        fun _ _ h => of_decide_eq_true h
      have hno : ∀ a u : Update, decide (a.w ≤ u.w) = false → u.w ≤ a.w :=
        fun _ _ h => (not_le.mp (of_decide_eq_false h)).le
      obtain ⟨-, hnone⟩ | ⟨b, hb, hsome, -⟩ :=
        foldl_keepBy_spec hyes hno (updatesOf pre u.metric u.name u.x)
      · rw [latest, hnone] at ha
        cases ha
      · rw [latest, hsome] at ha
        obtain rfl := Option.some.inj ha
        rw [updatesOf, List.mem_filter, decide_eq_true_eq] at hb
        have hle : b.w ≤ u.w := hpre b hb.1 hb.2.1 hb.2.2.1 hb.2.2.2
        simp [keepBy, hle]
  -- and nothing after it replaces it
  induction post using List.reverseRecOn with
  | nil => exact hu
  | append_singleton post v ih =>
    rw [← List.cons_append, ← List.append_assoc]
    have ih := ih fun v' hv' => hpost v' (List.mem_append_left _ hv')
    by_cases hv : v.metric = u.metric ∧ v.name = u.name ∧ v.x = u.x
    · have hlt : v.w < u.w := hpost v (by simp) hv.1 hv.2.1 hv.2.2
      rw [← hv.1, ← hv.2.1, ← hv.2.2] at ih ⊢
      rw [latest_concat_self, ih]
      simp [keepBy, not_le.mpr hlt]
    · rw [latest_concat_of_ne hv, ih]

/-- Among the updates of a segment there is a latest one. -/
theorem exists_isLatest {us : List Update} {v : Update} (hv : v ∈ us) :
    ∃ u, IsLatest us u ∧ u.metric = v.metric ∧ u.name = v.name ∧ u.x = v.x := by
  induction us using List.reverseRecOn generalizing v with
  | nil => exact absurd hv List.not_mem_nil
  | append_singleton us b ih =>
    by_cases hearlier : ∃ a ∈ us, a.metric = v.metric ∧ a.name = v.name ∧ a.x = v.x
    · obtain ⟨a, ha, hmetric, hname, hx⟩ := hearlier
      obtain ⟨u, ⟨pre, post, rfl, hpre, hpost⟩, humetric, huname, hux⟩ := ih ha
      by_cases hb : b.metric = v.metric ∧ b.name = v.name ∧ b.x = v.x ∧ u.w ≤ b.w
      · -- `b` is at least as new as the latest one before it
        obtain ⟨hbmetric, hbname, hbx, hle⟩ := hb
        refine ⟨b, ⟨pre ++ u :: post, [], by simp, fun c hc hcm hcn hcx => ?_, by simp⟩,
          hbmetric, hbname, hbx⟩
        have hcm : c.metric = u.metric := by rw [hcm, hbmetric, humetric, hmetric]
        have hcn : c.name = u.name := by rw [hcn, hbname, huname, hname]
        have hcx : c.x = u.x := by rw [hcx, hbx, hux, hx]
        rcases List.mem_append.mp hc with hc | hc
        · exact (hpre c hc hcm hcn hcx).trans hle
        · rcases List.mem_cons.mp hc with rfl | hc
          · exact hle
          · exact (hpost c hc hcm hcn hcx).le.trans hle
      · refine ⟨u, ⟨pre, post ++ [b], by simp, hpre, fun c hc hcm hcn hcx => ?_⟩,
          humetric.trans hmetric, huname.trans hname, hux.trans hx⟩
        rcases List.mem_append.mp hc with hc | hc
        · exact hpost c hc hcm hcn hcx
        · rw [List.mem_singleton.mp hc] at hcm hcn hcx ⊢
          rw [humetric, hmetric] at hcm
          rw [huname, hname] at hcn
          rw [hux, hx] at hcx
          exact not_le.mp fun hle => hb ⟨hcm, hcn, hcx, hle⟩
    · -- `v` is the first update of its segment
      have hvb : v = b := by
        rcases List.mem_append.mp hv with hv | hv
        · exact absurd ⟨v, hv, rfl, rfl, rfl⟩ hearlier
        · exact List.mem_singleton.mp hv
      subst hvb
      refine ⟨v, ⟨us, [], rfl, fun c hc hcm hcn hcx => ?_, by simp⟩, rfl, rfl, rfl⟩
      exact absurd ⟨c, hc, hcm, hcn, hcx⟩ hearlier

/-! ## Datasets -/

/-- A dataset of `n` places that holds, one place before its number, the newest value of every
segment. -/
structure Slots (us : List Update) (metric name : String) (n : ℕ) (d : Dataset) : Prop where
  length_x : d.x.length = n
  length_w : d.w.length = n
  y : ∀ k < n, d.y[k]? = some (valueOf us metric name (k + 1))
  w : ∀ k < n, d.w[k]? = some (stampOf us metric name (k + 1))

theorem slots_create (metric name : String) (rangeSize : ℕ) :
    Slots [] metric name (rangeSize + 1) (Dataset.create rangeSize) where
  length_x := by simp [Dataset.create]
  length_w := by simp [Dataset.create]
  y k hk := by simpa [Dataset.create, List.getElem?_replicate, valueOf, latest, updatesOf] using hk
  w k hk := by simpa [Dataset.create, List.getElem?_replicate, stampOf, latest, updatesOf] using hk

/-- An update of a segment the dataset has a place for makes no room and raises nothing. -/
theorem Dataset.update_of_le {d : Dataset} {n : ℕ} (hx : d.x.length = n) (hw : d.w.length = n)
    {k : ℕ} (hk : k < n) (y w : ℚ) :
    d.update (k + 1) y w = (if d.w.getD k 0 ≤ w then d.store k (k + 1) y w else d, true) := by
  have hroom : ((k : ℤ) + 1 - 1).toNat - d.x.length = 0 := by omega
  have hplace : place d.w.length ((k : ℤ) + 1 - 1) = some k := by
    rw [add_sub_cancel_right, place, if_pos (Int.natCast_nonneg k), hw,
      if_pos (Int.ofNat_lt.mpr hk), Int.toNat_natCast]
  rw [Dataset.update, hroom, Function.iterate_zero, id_eq, hplace]
  dsimp only
  split <;> rfl

theorem slots_update_other {us : List Update} {metric name : String} {n : ℕ} {d : Dataset}
    (h : Slots us metric name n d) {u : Update} (hu : ¬(u.metric = metric ∧ u.name = name)) :
    Slots (us ++ [u]) metric name n d := by
  have hsame : ∀ x, latest (us ++ [u]) metric name x = latest us metric name x :=
    fun x => latest_concat_of_ne fun hux => hu ⟨hux.1, hux.2.1⟩
  refine ⟨h.length_x, h.length_w, fun k hk => ?_, fun k hk => ?_⟩
  · rw [valueOf, hsame, h.y k hk, valueOf]
  · rw [stampOf, hsame, h.w k hk, stampOf]

/-- One update keeps the newest value of every segment. -/
theorem slots_update {us : List Update} {n : ℕ} {d : Dataset} {u : Update}
    (h : Slots us u.metric u.name n d) (hx : 1 ≤ u.x) (hn : u.x ≤ n) (hw : 0 ≤ u.w) :
    Slots (us ++ [u]) u.metric u.name n (d.update u.x u.y u.w).1 := by
  obtain ⟨k, hk⟩ : ∃ k : ℕ, u.x = k + 1 := ⟨(u.x - 1).toNat, by omega⟩
  have hkn : k < n := by omega
  have hold : d.w.getD k 0 = stampOf us u.metric u.name u.x := by
    rw [List.getD_eq_getElem?_getD, h.w k hkn, Option.getD_some, hk]
  have hother : ∀ j : ℕ, j ≠ k → latest (us ++ [u]) u.metric u.name (j + 1) =
      latest us u.metric u.name (j + 1) := by
    intro j hj
    refine latest_concat_of_ne fun hux => hj ?_
    have hjx := hux.2.2
    omega
  obtain ⟨hreplace, hkeep⟩ := valueOf_concat_self us hw
  rw [hk] at hreplace hkeep hold
  rw [hk, Dataset.update_of_le h.length_x h.length_w hkn]
  by_cases hle : d.w.getD k 0 ≤ u.w
  · rw [if_pos hle]
    obtain ⟨hvalue, hstamp⟩ := hreplace (hold ▸ hle)
    have hylen : k < d.y.length := (List.getElem?_eq_some_iff.mp (h.y k hkn)).1
    have hwlen : k < d.w.length := h.length_w ▸ hkn
    refine ⟨?_, ?_, fun j hj => ?_, fun j hj => ?_⟩
    · rw [Dataset.store, List.length_set, h.length_x]
    · rw [Dataset.store, List.length_set, h.length_w]
    · by_cases hjk : j = k
      · rw [hjk, Dataset.store, List.getElem?_set_self hylen, hvalue]
      · rw [Dataset.store, List.getElem?_set_ne (Ne.symm hjk), h.y j hj, valueOf, valueOf,
          hother j hjk]
    · by_cases hjk : j = k
      · rw [hjk, Dataset.store, List.getElem?_set_self hwlen, hstamp]
      · rw [Dataset.store, List.getElem?_set_ne (Ne.symm hjk), h.w j hj, stampOf, stampOf,
          hother j hjk]
  · rw [if_neg hle]
    obtain ⟨hvalue, hstamp⟩ := hkeep (hold ▸ not_le.mp hle)
    refine ⟨h.length_x, h.length_w, fun j hj => ?_, fun j hj => ?_⟩
    · by_cases hjk : j = k
      · rw [hjk, hvalue, h.y k hkn]
      · rw [h.y j hj, valueOf, valueOf, hother j hjk]
    · by_cases hjk : j = k
      · rw [hjk, hstamp, h.w k hkn]
      · rw [h.w j hj, stampOf, stampOf, hother j hjk]

/-! ## Plots -/

/-- What the updates `us` have left in the plot `metric`. -/
structure PlotInv (chunks : ℕ) (us : List Update) (metric : String) (plot : LivePlot) : Prop where
  rangeSize : plot.rangeSize = chunks + 1
  keys : ∀ name ∈ plot.datasets.keys, plot.datasets.get name = some (plot.dataset name)
  created : ∀ u ∈ us, u.metric = metric → u.name ∈ plot.datasets.keys
  slots : ∀ name, Slots us metric name (chunks + 2) (plot.dataset name)

theorem plotInv_initial (chunks : ℕ) (metric : String) :
    PlotInv chunks [] metric { rangeSize := chunks + 1 } where
  rangeSize := rfl
  keys _ h := absurd h List.not_mem_nil
  created _ h := absurd h List.not_mem_nil
  slots name := slots_create metric name (chunks + 1)

theorem LivePlot.dataset_update_self (plot : LivePlot) (name : String) (x : ℤ) (y w : ℚ) :
    (plot.update name x y w).dataset name = ((plot.dataset name).update x y w).1 := by
  simp [LivePlot.update, LivePlot.dataset, Dict.set]

theorem LivePlot.get_update_of_ne (plot : LivePlot) {name other : String} (h : other ≠ name)
    (x : ℤ) (y w : ℚ) :
    (plot.update name x y w).datasets.get other = plot.datasets.get other := by
  simp [LivePlot.update, Dict.set, h]

theorem LivePlot.mem_keys_update (plot : LivePlot) (name other : String) (x : ℤ) (y w : ℚ) :
    other ∈ (plot.update name x y w).datasets.keys ↔
      other = name ∨ other ∈ plot.datasets.keys := by
  simp only [LivePlot.update, Dict.set]
  split
  · next h => exact ⟨Or.inr, fun ho => ho.elim (fun he => he ▸ h) id⟩
  · rw [List.mem_append, List.mem_singleton, or_comm]

theorem plotInv_update {chunks : ℕ} {us : List Update} {u : Update} {plot : LivePlot}
    (h : PlotInv chunks us u.metric plot) (hx : 1 ≤ u.x) (hn : u.x ≤ chunks) (hw : 0 ≤ u.w) :
    PlotInv chunks (us ++ [u]) u.metric (plot.update u.name u.x u.y u.w) where
  rangeSize := h.rangeSize
  keys name hname := by
    by_cases hu : name = u.name
    · rw [hu, LivePlot.dataset_update_self]
      simp [LivePlot.update, Dict.set]
    · rw [LivePlot.mem_keys_update] at hname
      have hget := LivePlot.get_update_of_ne plot hu u.x u.y u.w
      rw [LivePlot.dataset, hget, h.keys name (hname.resolve_left hu)]
      rfl
  created v hv hmetric := by
    rw [LivePlot.mem_keys_update]
    rcases List.mem_append.mp hv with hv | hv
    · exact Or.inr (h.created v hv hmetric)
    · exact Or.inl (congrArg Update.name (List.mem_singleton.mp hv))
  slots name := by
    by_cases hu : u.name = name
    · rw [← hu, LivePlot.dataset_update_self]
      exact slots_update (h.slots u.name) hx (by omega) hw
    · have hsame : (plot.update u.name u.x u.y u.w).dataset name = plot.dataset name := by
        rw [LivePlot.dataset, LivePlot.get_update_of_ne plot (Ne.symm hu)]
        rfl
      rw [hsame]
      exact slots_update_other (h.slots name) fun hsame => hu hsame.2

theorem plotInv_other {chunks : ℕ} {us : List Update} {u : Update} {metric : String}
    {plot : LivePlot} (h : PlotInv chunks us metric plot) (hu : u.metric ≠ metric) :
    PlotInv chunks (us ++ [u]) metric plot where
  rangeSize := h.rangeSize
  keys := h.keys
  created v hv hmetric := by
    rcases List.mem_append.mp hv with hv | hv
    · exact h.created v hv hmetric
    · exact absurd (List.mem_singleton.mp hv ▸ hmetric) hu
  slots name := slots_update_other (h.slots name) fun hsame => hu hsame.1

/-- What the updates have left in all plots. -/
theorem plotInv_run {chunks : ℕ} {us : List Update}
    (hus : ∀ u ∈ us, 1 ≤ u.x ∧ u.x ≤ chunks ∧ 0 ≤ u.w) :
    ∃ plotOf : String → LivePlot,
      plotsAfter chunks us = segmentMetrics.map (fun metric => (metric, plotOf metric)) ∧
        ∀ metric, PlotInv chunks us metric (plotOf metric) := by
  induction us using List.reverseRecOn with
  | nil => exact ⟨fun _ => { rangeSize := chunks + 1 }, rfl, plotInv_initial chunks⟩
  | append_singleton us u ih =>
    obtain ⟨hus, hu⟩ := List.forall_mem_append.mp hus
    obtain ⟨hx, hn, hw⟩ := hu u (List.mem_singleton_self u)
    obtain ⟨plotOf, hplots, hinv⟩ := ih hus
    refine ⟨fun metric => if metric = u.metric then
      (plotOf metric).update u.name u.x u.y u.w else plotOf metric, ?_, fun metric => ?_⟩
    · rw [plotsAfter, run_concat, ← plotsAfter, hplots, updatePlots, List.map_map]
      rfl
    · dsimp only
      by_cases hm : metric = u.metric
      · rw [if_pos hm, hm]
        exact plotInv_update (hinv u.metric) hx hn hw
      · rw [if_neg hm]
        exact plotInv_other (hinv metric) (Ne.symm hm)

/-! ## The log -/

/-- Position `x` of every dataset, which is the place of segment `x + 1`. -/
def shiftedRecord (us : List Update) (metric : String) (names : List String) (x : ℕ) :
    PlotRecord where
  x := x
  metric := metric
  values := names.map fun name => (name, valueOf us metric name (x + 1))

theorem PlotInv.plotRecord_eq {chunks : ℕ} {us : List Update} {metric : String}
    {plot : LivePlot} (h : PlotInv chunks us metric plot) {x : ℕ} (hx : x < chunks) :
    plotRecord metric plot x = some (shiftedRecord us metric plot.datasets.keys x) := by
  have hvalues : plot.datasets.keys.mapM (fun name => do
      let dataset ← plot.datasets.get name
      let y ← dataset.y[x]?
      return (name, y)) =
        some (plot.datasets.keys.map fun name => (name, valueOf us metric name (x + 1))) := by
    refine mapM_eq_map fun name hname => ?_
    rw [h.keys name hname, Option.bind_eq_bind, Option.bind_some,
      (h.slots name).y x (by omega)]
    rfl
  rw [plotRecord, hvalues]
  rfl

/-- The plots and segments that have a record, in the order of the log. -/
def exportedKeys (chunks : ℕ) : List (String × ℕ) :=
  segmentMetrics.product (List.range' 1 (chunks - 1))

theorem mem_exportedKeys {chunks : ℕ} {metric : String} {x : ℕ} :
    (metric, x) ∈ exportedKeys chunks ↔ metric ∈ segmentMetrics ∧ 0 < x ∧ x < chunks := by
  rw [exportedKeys, List.pair_mem_product, List.mem_range'_1]
  refine and_congr_right fun _ => ?_
  omega

/-- **The log.** Every record holds the values of the segment after its own. -/
theorem exportPlots_eq {chunks : ℕ} {us : List Update}
    (hus : ∀ u ∈ us, 1 ≤ u.x ∧ u.x ≤ chunks ∧ 0 ≤ u.w) :
    ∃ names : String → List String, (∀ u ∈ us, u.name ∈ names u.metric) ∧
      exportPlots chunks (plotsAfter chunks us) = some ((exportedKeys chunks).map fun p =>
        shiftedRecord us p.1 (names p.1) p.2) := by
  obtain ⟨plotOf, hplots, hinv⟩ := plotInv_run hus
  refine ⟨fun metric => (plotOf metric).datasets.keys,
    fun u hu => (hinv u.metric).created u hu rfl, ?_⟩
  have hplot : ∀ p ∈ segmentMetrics.map (fun metric => (metric, plotOf metric)),
      (List.range' 1 (chunks - 1)).mapM (plotRecord p.1 p.2) = some
        ((List.range' 1 (chunks - 1)).map (shiftedRecord us p.1 p.2.datasets.keys)) := by
    intro p hp
    obtain ⟨metric, -, rfl⟩ := List.mem_map.mp hp
    refine mapM_eq_map fun x hx => (hinv metric).plotRecord_eq ?_
    rw [List.mem_range'_1] at hx
    omega
  rw [hplots, exportPlots, mapM_eq_map hplot, Option.bind_eq_bind, Option.bind_some, List.map_map,
    ← List.flatMap_def]
  simp only [exportedKeys, List.product, List.map_flatMap, List.map_map]
  rfl

/-! ## The reader -/

theorem foldl_set_apply (f : String → ℚ) (x : ℕ) (names : List String) (table : MetricTable)
    (name : String) (x' : ℕ) :
    (names.map fun n => (n, f n)).foldl (fun table v => table.set v.1 x v.2) table name x' =
      if name ∈ names ∧ x' = x then some (f name) else table name x' := by
  induction names using List.reverseRecOn with
  | nil => simp
  | append_singleton names n ih =>
    rw [List.map_append, List.foldl_append, List.map_singleton, List.foldl_cons, List.foldl_nil,
      MetricTable.set]
    by_cases hn : name = n
    · subst hn
      by_cases hx : x' = x
      · simp [hx]
      · simp [hx, ih]
    · simp [hn, ih]

theorem procMetric_shiftedRecord (segments : ℕ) (metric : String) (table : MetricTable)
    (us : List Update) (m : String) (names : List String) (k : ℕ) (name : String) (x : ℕ) :
    procMetric segments metric table (shiftedRecord us m names k) name x =
      if (m = metric ∧ k = x) ∧ (0 < x ∧ x + 2 < segments) ∧ name ∈ names then
        some (valueOf us metric name (x + 1))
      else table name x := by
  rw [procMetric]
  by_cases hm : m = metric
  · subst hm
    have hself : (shiftedRecord us m names k).metric = m := rfl
    rw [if_pos hself]
    by_cases hk : 0 < k ∧ k + 2 < segments
    · have hguard : 0 < k ∧ (k : ℤ) < segments - 2 := by omega
      simp only [shiftedRecord, hguard, and_self, if_true, foldl_set_apply]
      by_cases hkx : k = x
      · subst hkx
        simp [hk.1, hk.2]
      · simp [hkx, Ne.symm hkx]
    · have hguard : ¬(0 < k ∧ (k : ℤ) < segments - 2) := by omega
      have hnot : ¬((m = m ∧ k = x) ∧ (0 < x ∧ x + 2 < segments) ∧ name ∈ names) := by
        rintro ⟨⟨-, rfl⟩, hx, -⟩
        exact hk hx
      rw [if_neg hnot]
      simp only [shiftedRecord, hguard, if_false, List.foldl_fixed]
  · have hnot : ¬(shiftedRecord us m names k).metric = metric := hm
    rw [if_neg hnot, if_neg fun h => hm h.1.1]

theorem procMetrics_apply (segments : ℕ) (tables : String → MetricTable) (obj : PlotRecord)
    (metric : String) :
    procMetrics segments tables obj metric =
      if metric ∈ readMetrics then procMetric segments metric (tables metric) obj
      else tables metric :=
  foldl_update_apply (g := fun metric table => procMetric segments metric table obj) (by decide)
    tables metric

/-- The reader takes the values of the records it has not dropped, of the plots it reads. -/
theorem readMetric_export (segments : ℕ) (metric : String) (us : List Update)
    (names : String → List String) (keys : List (String × ℕ)) (name : String) (x : ℕ) :
    readMetric segments metric (keys.map fun p => shiftedRecord us p.1 (names p.1) p.2) name x =
      if metric ∈ readMetrics ∧ (metric, x) ∈ keys ∧ (0 < x ∧ x + 2 < segments) ∧
          name ∈ names metric then
        some (valueOf us metric name (x + 1))
      else none := by
  induction keys using List.reverseRecOn with
  | nil => simp [readMetric]
  | append_singleton keys p ih =>
    rw [readMetric, List.map_append, List.foldl_append, List.map_singleton, List.foldl_cons,
      List.foldl_nil, procMetrics_apply, ← readMetric]
    by_cases hread : metric ∈ readMetrics
    · rw [if_pos hread, procMetric_shiftedRecord, ih]
      have hmem : (metric, x) ∈ keys ++ [p] ↔ (metric, x) ∈ keys ∨ (p.1 = metric ∧ p.2 = x) := by
        rw [List.mem_append, List.mem_singleton, Prod.ext_iff, eq_comm, eq_comm (a := x)]
      simp only [hmem, hread, true_and]
      by_cases hp : p.1 = metric ∧ p.2 = x
      · obtain ⟨rfl, rfl⟩ := hp
        simp only [and_self, true_and, or_true]
        split
        · rfl
        · next h => rw [if_neg fun hk => h hk.2]
      · simp only [hp, false_and, if_false, or_false]
    · rw [if_neg hread, ih, if_neg fun h => hread h.1, if_neg fun h => hread h.1]

/-! ## The result -/

theorem lookup_map_self (f : String → ℚ) {names : List String} {name : String}
    (h : name ∈ names) : (names.map fun n => (n, f n)).lookup name = some (f name) := by
  induction names with
  | nil => exact absurd h List.not_mem_nil
  | cons n names ih =>
    by_cases hn : name = n
    · simp [hn]
    · have hne : (name == n) = false := by simpa using hn
      rw [List.map_cons, List.lookup_cons, hne]
      exact ih ((List.mem_cons.mp h).resolve_left hn)

/-- **Under which segment a value is exported.** The record of segment `x` holds the segment's
own latest value exactly if that is also the latest value of segment `x + 1`, or 0 if segment
`x + 1` has none. The reader takes the records of three of the plots, unless `x` is the last
segment exported. -/
theorem exported_iff (chunks : ℕ) (us : List Update)
    (hus : ∀ u ∈ us, 1 ≤ u.x ∧ u.x ≤ chunks ∧ 0 ≤ u.w) (metric name : String)
    (hmetric : metric ∈ segmentMetrics) (x : ℕ) (hx : x < chunks)
    (hupdated : ∃ v ∈ us, v.metric = metric ∧ v.name = name ∧ v.x = x) :
    ∃ u, IsLatest us u ∧ (u.metric = metric ∧ u.name = name ∧ u.x = x) ∧
      (Exported chunks us metric name x u.y ↔ valueOf us metric name (x + 1) = u.y) ∧
      (Exported chunks us metric name x u.y ∧ ReadBack chunks us metric name x u.y ↔
        metric ∈ readMetrics ∧ x + 1 < chunks ∧ valueOf us metric name (x + 1) = u.y) := by
  obtain ⟨v, hv, rfl, rfl, hvx⟩ := hupdated
  obtain ⟨u, hu, hum, hun, hux⟩ := exists_isLatest hv
  have hpos : 0 < x := by
    have h1 := (hus v hv).1
    omega
  obtain ⟨names, hnames, hlog⟩ := exportPlots_eq hus
  have hkey : (v.metric, x) ∈ exportedKeys chunks := mem_exportedKeys.mpr ⟨hmetric, hpos, hx⟩
  have hlookup : ∀ value : ℚ, Exported chunks us v.metric v.name x value ↔
      valueOf us v.metric v.name (x + 1) = value := by
    intro value
    rw [Exported, hlog]
    have hrecord : (shiftedRecord us v.metric (names v.metric) x).values.lookup v.name =
        some (valueOf us v.metric v.name (x + 1)) :=
      lookup_map_self (fun n => valueOf us v.metric n (x + 1)) (hnames v hv)
    constructor
    · rintro ⟨log, hlog, -, hall⟩
      obtain rfl := Option.some.inj hlog
      have hr := hall _ (List.mem_map_of_mem hkey) rfl rfl
      exact Option.some.inj (hrecord.symm.trans hr)
    · rintro rfl
      refine ⟨_, rfl, ⟨_, List.mem_map_of_mem hkey, rfl, rfl⟩, fun r hr hrm hrx => ?_⟩
      obtain ⟨p, -, rfl⟩ := List.mem_map.mp hr
      have hpm : p.1 = v.metric := hrm
      have hpx : p.2 = x := hrx
      rw [hpm, hpx, hrecord]
  have hread : ∀ value : ℚ, ReadBack chunks us v.metric v.name x value ↔
      v.metric ∈ readMetrics ∧ x + 1 < chunks ∧ valueOf us v.metric v.name (x + 1) = value := by
    intro value
    rw [ReadBack, hlog]
    simp only [Option.some.injEq, exists_eq_left', readMetric_export, hkey, true_and, hpos,
      hnames v hv, and_true]
    have hguard : x + 2 < chunks + 1 ↔ x + 1 < chunks := by omega
    simp only [hguard]
    by_cases htaken : v.metric ∈ readMetrics ∧ x + 1 < chunks
    · simp [htaken]
    · simp [htaken, ← and_assoc]
  refine ⟨u, hu, ⟨hum, hun, hux.trans hvx⟩, hlookup u.y, ?_⟩
  rw [hlookup, hread]
  exact ⟨fun h => h.2, fun h => ⟨h.2.2, h⟩⟩

/-- Three segments of the same perceived quality. -/
def steadyVmaf : List Update :=
  [⟨"vmaf", "bbr", 1, 80, 10⟩, ⟨"vmaf", "bbr", 2, 80, 20⟩, ⟨"vmaf", "bbr", 3, 80, 30⟩]

theorem exported_steadyVmaf :
    valueOf steadyVmaf "vmaf" "bbr" 2 = 80 ∧
      ∃ u, IsLatest steadyVmaf u ∧ (u.metric = "vmaf" ∧ u.name = "bbr" ∧ u.x = (1 : ℕ)) ∧
        (Exported 3 steadyVmaf "vmaf" "bbr" 1 u.y ↔
          valueOf steadyVmaf "vmaf" "bbr" ((1 : ℕ) + 1) = u.y) ∧
        (Exported 3 steadyVmaf "vmaf" "bbr" 1 u.y ∧ ReadBack 3 steadyVmaf "vmaf" "bbr" 1 u.y ↔
          "vmaf" ∈ readMetrics ∧ 1 + 1 < 3 ∧
            valueOf steadyVmaf "vmaf" "bbr" ((1 : ℕ) + 1) = u.y) :=
  ⟨by decide +kernel, exported_iff 3 steadyVmaf (by decide +kernel) "vmaf" "bbr"
    (by decide) 1 (by decide) (by decide +kernel)⟩

/-- Two segments, the second one of a higher perceived quality. -/
def risingVmaf : List Update :=
  [⟨"vmaf", "bbr", 1, 60, 10⟩, ⟨"vmaf", "bbr", 2, 80, 20⟩]

/-- The record of segment 1 holds the value of segment 2, and so does the table read back. -/
theorem exported_under_previous :
    (∀ u ∈ risingVmaf, 1 ≤ u.x ∧ u.x ≤ (3 : ℕ) ∧ 0 ≤ u.w) ∧
      IsLatest risingVmaf ⟨"vmaf", "bbr", 1, 60, 10⟩ ∧
      Exported 3 risingVmaf "vmaf" "bbr" 1 80 ∧ ReadBack 3 risingVmaf "vmaf" "bbr" 1 80 ∧
      ¬Exported 3 risingVmaf "vmaf" "bbr" 1 60 := by
  have hlog : exportPlots 3 (plotsAfter 3 risingVmaf) = some
      [⟨1, "raw_qoe", []⟩, ⟨2, "raw_qoe", []⟩, ⟨1, "rebuffer", []⟩, ⟨2, "rebuffer", []⟩,
        ⟨1, "quality", []⟩, ⟨2, "quality", []⟩, ⟨1, "vmaf", [("bbr", 80)]⟩,
        ⟨2, "vmaf", [("bbr", 0)]⟩, ⟨1, "vmaf_qoe", []⟩, ⟨2, "vmaf_qoe", []⟩] := by decide +kernel
  refine ⟨by decide +kernel, ⟨[], _, rfl, by decide, by decide +kernel⟩, ?_, ?_, ?_⟩
  · exact ⟨_, hlog, by decide +kernel, by decide +kernel⟩
  · exact ⟨_, hlog, by decide +kernel⟩
  · rintro ⟨log, hlog', -, hall⟩
    obtain rfl := Option.some.inj (hlog.symm.trans hlog')
    exact absurd (hall ⟨1, "vmaf", [("bbr", 80)]⟩ (by decide +kernel) rfl rfl)
      (by decide +kernel)

end Exp
end LiveStream
