import LiveStream.Lib.Run
import LiveStream.Video.Config

/-!
# The live plots, their exported log and its reader

The monitor posts one value per segment to the live plots of `exp/components/plots.py`. When
a run completes, `OnComplete` of `exp/components/complete.py` writes one record per plot and
segment, and `Experiment.get_metrics` of `exp/exp_util/data.py` reads them back.

The three sides address one array: `Dataset.update` stores segment `x` at position `x - 1`,
`export_plots` writes position `x` under `'x': x`, and `get_metrics` takes the record for segment
`x`, of three of the plots. Records are the JSON objects here, not their text, and the plots are the
segment-based ones.
-/

namespace LiveStream
namespace Exp

open Lib
open Video (Dict)

/-! ## Datasets -/

/-- `w`-timestamped points; the axes are left out. -/
structure Dataset where
  x : List ℤ
  y : List ℚ
  w : List ℚ
deriving DecidableEq

/-- Where a list of length `n` has the entry with subscript `k`. -/
def place (n : ℕ) (k : ℤ) : Option ℕ :=
  if 0 ≤ k then if k < n then some k.toNat else none
  else if -n ≤ k then some (n + k).toNat else none

namespace Dataset

/-- `Dataset(axes, name, range_size)`. -/
def create (rangeSize : ℕ) : Dataset where
  x := (List.range (rangeSize + 1)).map Int.ofNat
  y := List.replicate (rangeSize + 1) 0
  w := List.replicate (rangeSize + 1) 0

/-- One turn of the loop that makes room. -/
def extend (y w : ℚ) (d : Dataset) : Dataset where
  x := d.x ++ [(d.x.length : ℤ)]
  y := d.y ++ [y]
  w := d.w ++ [w]

def store (d : Dataset) (k : ℕ) (x : ℤ) (y w : ℚ) : Dataset where
  x := d.x.set k x
  y := d.y.set k y
  w := d.w.set k w

/-- `Dataset.update`. The second component is whether the call returned; it does not if the
subscript raises an `IndexError`. -/
def update (d : Dataset) (x : ℤ) (y w : ℚ) : Dataset × Bool :=
  let d := (extend y w)^[(x - 1).toNat - d.x.length] d
  match place d.w.length (x - 1) with
  | none => (d, false)
  | some k => if d.w.getD k 0 ≤ w then (d.store k x y w, true) else (d, true)

end Dataset

/-! ## Plots -/

structure LivePlot where
  rangeSize : ℕ := 50
  datasets : Dict String Dataset := Dict.empty

namespace LivePlot

/-- `self.datasets[name]`, after creating it if there was none. -/
def dataset (plot : LivePlot) (name : String) : Dataset :=
  (plot.datasets.get name).getD (Dataset.create plot.rangeSize)

def update (plot : LivePlot) (name : String) (x : ℤ) (y w : ℚ) : LivePlot :=
  { plot with datasets := plot.datasets.set name ((plot.dataset name).update x y w).1 }

end LivePlot

/-- A call `update(name, x, y, w)` on the plot `metric`. -/
structure Update where
  metric : String
  name : String
  x : ℤ
  y : ℚ
  w : ℚ
deriving DecidableEq

/-- The plots with a point per segment. -/
def segmentMetrics : List String := ["raw_qoe", "rebuffer", "quality", "vmaf", "vmaf_qoe"]

/-- `attach_plot_components`. -/
def attachPlotComponents (chunks : ℕ) : List (String × LivePlot) :=
  segmentMetrics.map fun metric => (metric, { rangeSize := chunks + 1 })

def updatePlots (plots : List (String × LivePlot)) (u : Update) : List (String × LivePlot) :=
  plots.map fun p => (p.1, if p.1 = u.metric then p.2.update u.name u.x u.y u.w else p.2)

/-- The plots after the updates `us`. -/
def plotsAfter (chunks : ℕ) (us : List Update) : List (String × LivePlot) :=
  run updatePlots (attachPlotComponents chunks) us

/-! ## Export -/

/-- `{'x': x, metric: values}`. -/
structure PlotRecord where
  x : ℕ
  metric : String
  values : List (String × ℚ)
deriving DecidableEq

/-- The object written for one plot and one `x`; `none` if a subscript raises. -/
def plotRecord (metric : String) (plot : LivePlot) (x : ℕ) : Option PlotRecord := do
  let values ← plot.datasets.keys.mapM fun name => do
    let dataset ← plot.datasets.get name
    let y ← dataset.y[x]?
    return (name, y)
  return { x := x, metric := metric, values := values }

/-- `OnComplete.export_plots`. -/
def exportPlots (chunks : ℕ) (plots : List (String × LivePlot)) : Option (List PlotRecord) := do
  let logs ← plots.mapM fun p => (List.range' 1 (chunks - 1)).mapM (plotRecord p.1 p.2)
  return logs.flatten

/-! ## Reading back -/

/-- The tables `curr_dict[name][x]` of `get_metrics`. -/
abbrev MetricTable := String → ℕ → Option ℚ

def MetricTable.set (table : MetricTable) (name : String) (x : ℕ) (value : ℚ) : MetricTable :=
  Function.update table name (Function.update (table name) x (some value))

def procMetric (segments : ℕ) (metric : String) (table : MetricTable) (obj : PlotRecord) :
    MetricTable :=
  if obj.metric = metric then
    obj.values.foldl (fun table v =>
      if 0 < obj.x ∧ (obj.x : ℤ) < segments - 2 then table.set v.1 obj.x v.2 else table) table
  else table

/-- The plots `get_metrics` reads. -/
def readMetrics : List String := ["vmaf", "rebuffer", "raw_qoe"]

/-- The calls of `proc_metric` for one object of the log. -/
def procMetrics (segments : ℕ) (tables : String → MetricTable) (obj : PlotRecord) :
    String → MetricTable :=
  readMetrics.foldl (fun tables metric =>
    Function.update tables metric (procMetric segments metric (tables metric) obj)) tables

/-- The table `get_metrics` has for `metric` when it has read the log. -/
def readMetric (segments : ℕ) (metric : String) (log : List PlotRecord) : MetricTable :=
  log.foldl (procMetrics segments) (fun _ _ _ => none) metric

/-! ## What the log should say -/

/-- `u` has the largest `w` of the updates of its segment, and is the last of these. -/
def IsLatest (us : List Update) (u : Update) : Prop :=
  ∃ pre post, us = pre ++ u :: post ∧
    (∀ v ∈ pre, v.metric = u.metric → v.name = u.name → v.x = u.x → v.w ≤ u.w) ∧
    ∀ v ∈ post, v.metric = u.metric → v.name = u.name → v.x = u.x → v.w < u.w

/-- The record for segment `x` holds `y` under `name`. -/
def Exported (chunks : ℕ) (us : List Update) (metric name : String) (x : ℕ) (y : ℚ) : Prop :=
  ∃ log, exportPlots chunks (plotsAfter chunks us) = some log ∧
    (∃ r ∈ log, r.metric = metric ∧ r.x = x) ∧
    ∀ r ∈ log, r.metric = metric → r.x = x → r.values.lookup name = some y

/-- `get_metrics` reads `y` for segment `x` of `name`. -/
def ReadBack (chunks : ℕ) (us : List Update) (metric name : String) (x : ℕ) (y : ℚ) : Prop :=
  ∃ log, exportPlots chunks (plotsAfter chunks us) = some log ∧
    readMetric (chunks + 1) metric log name x = some y

end Exp
end LiveStream
