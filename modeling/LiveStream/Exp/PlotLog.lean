import LiveStream.Exp.Plots
import LiveStream.Lib.Checked
import LiveStream.Lib.Json
import LiveStream.Lib.Text

/-!
# The text of the exported log

`OnComplete.export_plots` appends the JSON texts of a plot's records to the log, without anything
between them, and a line break after the last. `Experiment.get_metrics` takes the text apart again
with `process`: it splits every line at `}{` and puts the braces back.

A run that meets an `IndexError` leaves what it has written until then, without a line break; the
next run goes on behind it.

* `splitGo_tailText`, the pieces of a line, and `addBraces_pieces`, the records made from them;
* `recordsOf_exportWrites`, a run without an error writes the records of `exportPlots`.
-/

namespace LiveStream
namespace Exp

open Lib

/-! ## Writing -/

/-- A call of `f.write`. -/
inductive Written where
  | record (r : PlotRecord)
  | newline

/-- The calls for one plot, and whether the loop came to its end. -/
def writePlot (metric : String) (plot : LivePlot) : List ℕ → List Written × Bool
  | [] => ([.newline], true)
  | x :: xs =>
    match plotRecord metric plot x with
    | none => ([], false)
    | some r => (.record r :: (writePlot metric plot xs).1, (writePlot metric plot xs).2)

/-- The calls of a run of `export_plots`. -/
def exportWrites (chunks : ℕ) : List (String × LivePlot) → List Written
  | [] => []
  | p :: plots =>
    let written := writePlot p.1 p.2 (List.range' 1 (chunks - 1))
    if written.2 then written.1 ++ exportWrites chunks plots else written.1

def recordsOf (ws : List Written) : List PlotRecord :=
  ws.filterMap fun
    | .record r => some r
    | .newline => none

section Text

-- how `json.dumps` writes a value
variable (number : ℚ → List Char)

/-- The fields of the object: the name of the plot is a key beside `x`, or replaces it. -/
def fieldsOf (r : PlotRecord) : List (List Char × List Char) :=
  let values := showObject (r.values.map fun v => (v.1.toList, number v.2))
  if r.metric = "x" then [(['x'], values)]
  else [(['x'], showInt r.x), (r.metric.toList, values)]

/-- `json.dumps(out)`. -/
def dumps (r : PlotRecord) : List Char := showObject (fieldsOf number r)

def Written.text : Written → List Char
  | .record r => dumps number r
  | .newline => ['\n']

def logText (ws : List Written) : List Char := ws.flatMap (Written.text number)

end Text

/-! ## Reading -/

/-- The braces for the piece with this index, of `n`. -/
def addBraces (n : ℕ) (piece : List Char × ℕ) : List Char :=
  let val := if 0 < piece.2 then '{' :: piece.1 else piece.1
  if piece.2 < n - 1 then val ++ ['}'] else val

def processLine (line : List Char) : List (List Char) :=
  let vals := splitText ['}', '{'] line
  vals.zipIdx.map (addBraces vals.length)

/-- `process` of `get_metrics`. -/
def process (input : List Char) : List (List Char) :=
  (splitText ['\n'] input).flatMap processLine

/-! ## One line -/

/-- A body in its braces. -/
def wrap (body : List Char) : List Char := '{' :: (body ++ ['}'])

/-- What follows the first body in a line. -/
def tailText : List (List Char) → List Char
  | [] => ['}']
  | body :: bodies => ['}', '{'] ++ (body ++ tailText bodies)

/-- The pieces, from the first one on. -/
def pieces (piece : List Char) : List (List Char) → List (List Char)
  | [] => [piece ++ ['}']]
  | body :: bodies => piece :: pieces body bodies

theorem flatten_wrap (body : List Char) (bodies : List (List Char)) :
    ((body :: bodies).map wrap).flatten = '{' :: (body ++ tailText bodies) := by
  induction bodies generalizing body with
  | nil => simp [wrap, tailText]
  | cons next bodies ih =>
    rw [List.map_cons, List.flatten_cons, ih next, tailText, wrap]
    simp

theorem tailText_eq_cons (bodies : List (List Char)) : ∃ rest, tailText bodies = '}' :: rest := by
  cases bodies with
  | nil => exact ⟨[], rfl⟩
  | cons body bodies => exact ⟨_, rfl⟩

theorem splitGo_tailText {bodies : List (List Char)} (h : ∀ b ∈ bodies, Apart '}' '{' b)
    (piece : List Char) : splitGo ['}', '{'] 0 piece (tailText bodies) = pieces piece bodies := by
  induction bodies generalizing piece with
  | nil => rfl
  | cons body bodies ih =>
    obtain ⟨rest, hrest⟩ := tailText_eq_cons bodies
    have hbody : splitGo ['}', '{'] 0 [] (body ++ tailText bodies) =
        splitGo ['}', '{'] 0 body (tailText bodies) := by
      rw [hrest, splitGo_append_of_apart (h body (List.mem_cons_self ..)) (by decide),
        List.nil_append]
    rw [tailText, splitGo_sep (List.cons_ne_nil _ _), hbody,
      ih (fun b hb => h b (List.mem_cons_of_mem _ hb)), pieces]

theorem length_pieces (piece : List Char) (bodies : List (List Char)) :
    (pieces piece bodies).length = bodies.length + 1 := by
  induction bodies generalizing piece with
  | nil => rfl
  | cons body bodies ih => rw [pieces, List.length_cons, ih, List.length_cons]

/-- All pieces but the first get an opening brace, and all but the last, which has kept its own,
a closing one. -/
theorem addBraces_pieces (piece : List Char) (bodies : List (List Char)) (i : ℕ) :
    ((pieces piece bodies).zipIdx i).map (addBraces (i + bodies.length + 1)) =
      ((if 0 < i then '{' :: piece else piece) ++ ['}']) :: bodies.map wrap := by
  induction bodies generalizing piece i with
  | nil =>
    simp only [pieces, List.zipIdx_singleton, List.map_cons, List.map_nil, addBraces,
      List.length_nil]
    rw [if_neg (by omega)]
    split <;> rfl
  | cons body bodies ih =>
    have hshift : i + (body :: bodies).length + 1 = i + 1 + bodies.length + 1 := by
      rw [List.length_cons]
      omega
    rw [pieces, List.zipIdx_cons, List.map_cons, hshift, ih body (i + 1), if_pos (Nat.succ_pos i),
      List.map_cons]
    congr 1
    unfold addBraces
    dsimp only
    rw [if_pos (by omega)]

/-- The records of a line. -/
theorem processLine_flatten (bodies : List (List Char)) (h : ∀ b ∈ bodies, Apart '}' '{' b) :
    (processLine (bodies.map wrap).flatten).filter (· ≠ []) = bodies.map wrap := by
  cases bodies with
  | nil => rfl
  | cons body bodies =>
    rw [List.forall_mem_cons] at h
    obtain ⟨rest, hrest⟩ := tailText_eq_cons bodies
    have hsplit : splitText ['}', '{'] ((body :: bodies).map wrap).flatten =
        pieces ('{' :: body) bodies := by
      have hfirst : Apart '}' '{' ('{' :: body) := h.1.cons (by decide)
      rw [flatten_wrap, splitText, ← List.cons_append, hrest,
        splitGo_append_of_apart hfirst (by decide), List.nil_append, ← hrest, splitGo_tailText h.2]
    have hall : processLine ((body :: bodies).map wrap).flatten = (body :: bodies).map wrap := by
      have hbraces := addBraces_pieces ('{' :: body) bodies 0
      rw [if_neg (Nat.lt_irrefl 0), Nat.zero_add] at hbraces
      rw [processLine, hsplit]
      rw [length_pieces, hbraces]
      rfl
    rw [hall, List.filter_eq_self]
    intro text htext
    obtain ⟨b, -, rfl⟩ := List.mem_map.mp htext
    exact decide_eq_true (List.cons_ne_nil _ _)

/-! ## The whole log -/

section Log

variable {number : ℚ → List Char}

/-- The names of a record have no closing brace before an opening one. -/
def NamesApart (r : PlotRecord) : Prop :=
  Apart '}' '{' r.metric.toList ∧ ∀ v ∈ r.values, Apart '}' '{' v.1.toList

theorem apart_of_plain {text : List Char} (h : ∀ c ∈ text, Plain c) : Apart '}' '{' text :=
  apart_of_not_mem fun hc => (h _ hc).2.1 rfl

theorem plain_showInt {n : ℤ} {c : Char} (h : c ∈ showInt n) : Plain c := by
  rcases mem_showInt h with hdigit | rfl
  · refine ⟨?_, ?_, ?_⟩
    all_goals
      rintro rfl
      exact absurd hdigit (by decide)
  · decide

/-- The value of every field. -/
theorem fieldsOf_forall {P : List Char → List Char → Prop} {r : PlotRecord}
    (hx : P ['x'] (showInt r.x))
    (hvalues : ∀ key, key = ['x'] ∨ key = r.metric.toList →
      P key (showObject (r.values.map fun v => (v.1.toList, number v.2)))) :
    ∀ f ∈ fieldsOf number r, P f.1 f.2 := by
  unfold fieldsOf
  dsimp only
  split
  · intro f hf
    rw [List.mem_singleton.mp hf]
    exact hvalues _ (Or.inl rfl)
  · rw [List.forall_mem_cons]
    refine ⟨hx, fun f hf => ?_⟩
    rw [List.mem_singleton.mp hf]
    exact hvalues _ (Or.inr rfl)

theorem apart_fields (hnumber : ∀ q, ∀ c ∈ number q, Plain c) {r : PlotRecord}
    (hr : NamesApart r) : Apart '}' '{' (showFields (fieldsOf number r)) := by
  have hkey : Apart '}' '{' ['x'] := by
    exact .singleton 'x'
  have hvalues : Apart '}' '{' (showObject (r.values.map fun v => (v.1.toList, number v.2))) := by
    apply apart_showObject
    intro f hf
    obtain ⟨v, hv, rfl⟩ := List.mem_map.mp hf
    exact ⟨hr.2 v hv, apart_of_plain (hnumber v.2)⟩
  apply apart_showFields
  apply fieldsOf_forall (P := fun key value => Apart '}' '{' key ∧ Apart '}' '{' value)
  · exact ⟨hkey, apart_of_plain fun c hc => plain_showInt hc⟩
  · rintro key (rfl | rfl)
    · exact ⟨hkey, hvalues⟩
    · exact ⟨hr.1, hvalues⟩

theorem newline_not_mem_dumps (hnumber : ∀ q, ∀ c ∈ number q, Plain c) (r : PlotRecord) :
    '\n' ∉ dumps number r := by
  have hvalues : '\n' ∉ showObject (r.values.map fun v => (v.1.toList, number v.2)) := by
    apply newline_not_mem_showObject
    intro f hf
    obtain ⟨v, -, rfl⟩ := List.mem_map.mp hf
    exact fun h => (hnumber v.2 _ h).2.2 rfl
  apply newline_not_mem_showObject
  apply fieldsOf_forall (P := fun _ value => '\n' ∉ value)
  · exact fun h => (plain_showInt h).2.2 rfl
  · exact fun _ _ => hvalues

/-- Reading on from the records `cur` of the current line. -/
theorem process_go (hnumber : ∀ q, ∀ c ∈ number q, Plain c) (ws : List Written)
    (hws : ∀ r ∈ recordsOf ws, NamesApart r) (cur : List PlotRecord)
    (hcur : ∀ r ∈ cur, NamesApart r) :
    ((splitGo ['\n'] 0 (cur.map (dumps number)).flatten (logText number ws)).flatMap
        processLine).filter (· ≠ []) =
      (cur ++ recordsOf ws).map (dumps number) := by
  have hline : ∀ cur : List PlotRecord, (∀ r ∈ cur, NamesApart r) →
      (processLine (cur.map (dumps number)).flatten).filter (· ≠ []) = cur.map (dumps number) := by
    intro cur hcur
    have hwrap : cur.map (dumps number) =
        (cur.map fun r => showFields (fieldsOf number r)).map wrap := by
      rw [List.map_map]
      rfl
    rw [hwrap]
    apply processLine_flatten
    intro body hbody
    obtain ⟨r, hr, rfl⟩ := List.mem_map.mp hbody
    exact apart_fields hnumber (hcur r hr)
  induction ws generalizing cur with
  | nil =>
    show ((splitGo ['\n'] 0 _ []).flatMap processLine).filter (· ≠ []) = _
    rw [splitGo, List.flatMap_singleton, hline cur hcur]
    simp [recordsOf]
  | cons written ws ih =>
    cases written with
    | newline =>
      have hrest := ih hws [] (by simp)
      show ((splitGo ['\n'] 0 _ (['\n'] ++ logText number ws)).flatMap processLine).filter _ = _
      rw [splitGo_sep (List.cons_ne_nil _ _), List.flatMap_cons, List.filter_append,
        hline cur hcur, List.map_append]
      exact congrArg _ hrest
    | record r =>
      have hrecords : recordsOf (.record r :: ws) = r :: recordsOf ws := rfl
      rw [hrecords, List.forall_mem_cons] at hws
      have hnext : ∀ r' ∈ cur ++ [r], NamesApart r' := by
        rw [List.forall_mem_append]
        refine ⟨hcur, fun r' hr' => ?_⟩
        rw [List.mem_singleton.mp hr']
        exact hws.1
      have hrest := ih hws.2 (cur ++ [r]) hnext
      show ((splitGo ['\n'] 0 _ (dumps number r ++ logText number ws)).flatMap
        processLine).filter _ = _
      rw [splitGo_append_of_not_mem (newline_not_mem_dumps hnumber r), hrecords]
      simpa using hrest

end Log

/-! ## What a run writes -/

theorem recordsOf_append (ws ws' : List Written) :
    recordsOf (ws ++ ws') = recordsOf ws ++ recordsOf ws' := List.filterMap_append

theorem mem_recordsOf_writePlot {metric : String} {plot : LivePlot} {xs : List ℕ} {r : PlotRecord}
    (h : r ∈ recordsOf (writePlot metric plot xs).1) :
    ∃ x ∈ xs, plotRecord metric plot x = some r := by
  induction xs with
  | nil => cases h
  | cons x xs ih =>
    unfold writePlot at h
    split at h
    · cases h
    · next r' hr' =>
      rcases List.mem_cons.mp h with rfl | h
      · exact ⟨x, List.mem_cons_self .., hr'⟩
      · obtain ⟨x', hx', hr⟩ := ih h
        exact ⟨x', List.mem_cons_of_mem _ hx', hr⟩

theorem mem_recordsOf_exportWrites {chunks : ℕ} {plots : List (String × LivePlot)} {r : PlotRecord}
    (h : r ∈ recordsOf (exportWrites chunks plots)) :
    ∃ p ∈ plots, ∃ x, plotRecord p.1 p.2 x = some r := by
  induction plots with
  | nil => cases h
  | cons p plots ih =>
    have hcases : r ∈ recordsOf (writePlot p.1 p.2 (List.range' 1 (chunks - 1))).1 ∨
        r ∈ recordsOf (exportWrites chunks plots) := by
      unfold exportWrites at h
      dsimp only at h
      split at h
      · rw [recordsOf_append, List.mem_append] at h
        exact h
      · exact Or.inl h
    rcases hcases with hplot | hrest
    · obtain ⟨x, -, hr⟩ := mem_recordsOf_writePlot hplot
      exact ⟨p, List.mem_cons_self .., x, hr⟩
    · obtain ⟨q, hq, x, hr⟩ := ih hrest
      exact ⟨q, List.mem_cons_of_mem _ hq, x, hr⟩

/-- The names in a record are those of its plot and of the plot's datasets. -/
theorem names_of_plotRecord {metric : String} {plot : LivePlot} {x : ℕ} {r : PlotRecord}
    (h : plotRecord metric plot x = some r) :
    r.metric = metric ∧ ∀ v ∈ r.values, v.1 ∈ plot.datasets.keys := by
  unfold plotRecord at h
  simp only [Option.bind_eq_bind, Option.bind_eq_some_iff, Option.pure_def, Option.some.injEq] at h
  obtain ⟨values, hvalues, rfl⟩ := h
  refine ⟨rfl, fun v hv => ?_⟩
  obtain ⟨name, hname, hread⟩ := mem_of_mapM hvalues hv
  simp only [Option.bind_eq_some_iff, Option.some.injEq] at hread
  obtain ⟨dataset, -, y, -, rfl⟩ := hread
  exact hname

/-- A plot whose records can all be read. -/
theorem writePlot_of_mapM {metric : String} {plot : LivePlot} {xs : List ℕ} {log : List PlotRecord}
    (h : xs.mapM (plotRecord metric plot) = some log) :
    writePlot metric plot xs = (log.map Written.record ++ [.newline], true) := by
  induction xs generalizing log with
  | nil =>
    simp only [List.mapM_nil, Option.pure_def, Option.some.injEq] at h
    subst h
    rfl
  | cons x xs ih =>
    rw [List.mapM_cons] at h
    simp only [Option.bind_eq_bind, Option.bind_eq_some_iff, Option.pure_def,
      Option.some.injEq] at h
    obtain ⟨r, hr, rs, hrs, rfl⟩ := h
    rw [writePlot, hr, ih hrs]
    rfl

/-- A run without an error writes the records of `exportPlots`. -/
theorem recordsOf_exportWrites {chunks : ℕ} {plots : List (String × LivePlot)}
    {log : List PlotRecord} (h : exportPlots chunks plots = some log) :
    recordsOf (exportWrites chunks plots) = log := by
  unfold exportPlots at h
  simp only [Option.bind_eq_bind, Option.bind_eq_some_iff, Option.pure_def, Option.some.injEq] at h
  obtain ⟨logs, hlogs, rfl⟩ := h
  induction plots generalizing logs with
  | nil =>
    simp only [List.mapM_nil, Option.pure_def, Option.some.injEq] at hlogs
    subst hlogs
    rfl
  | cons p plots ih =>
    rw [List.mapM_cons] at hlogs
    simp only [Option.bind_eq_bind, Option.bind_eq_some_iff, Option.pure_def,
      Option.some.injEq] at hlogs
    obtain ⟨log, hlog, rest, hrest, rfl⟩ := hlogs
    have hrecords : recordsOf (log.map Written.record ++ [.newline]) = log := by
      rw [recordsOf_append, recordsOf, List.filterMap_map]
      exact (List.append_nil _).trans List.filterMap_some
    unfold exportWrites
    rw [writePlot_of_mapM hlog]
    dsimp only
    rw [if_pos rfl, recordsOf_append, hrecords, ih rest hrest, List.flatten_cons]

/-- Whatever was exported in any number of runs, `process` finds the texts written, in order, if
no name of a plot or a dataset has an opening brace right after a closing one. -/
theorem process_logText (number : ℚ → List Char) (hnumber : ∀ q, ∀ c ∈ number q, Plain c)
    (runs : List (ℕ × List (String × LivePlot)))
    (hnames : ∀ exported ∈ runs, ∀ p ∈ exported.2, ¬ ['}', '{'] <:+: p.1.toList ∧
      ∀ name ∈ p.2.datasets.keys, ¬ ['}', '{'] <:+: name.toList) :
    let ws := runs.flatMap fun exported => exportWrites exported.1 exported.2
    (process (logText number ws)).filter (· ≠ []) = (recordsOf ws).map (dumps number) := by
  intro ws
  have hws : ∀ r ∈ recordsOf ws, NamesApart r := by
    intro r hr
    obtain ⟨written, hwritten, hr⟩ := List.mem_filterMap.mp hr
    obtain ⟨exported, hexported, hwritten⟩ := List.mem_flatMap.mp hwritten
    have hmem : r ∈ recordsOf (exportWrites exported.1 exported.2) :=
      List.mem_filterMap.mpr ⟨written, hwritten, hr⟩
    obtain ⟨p, hp, x, hread⟩ := mem_recordsOf_exportWrites hmem
    obtain ⟨hmetric, hvalues⟩ := names_of_plotRecord hread
    obtain ⟨hplot, hdatasets⟩ := hnames exported hexported p hp
    refine ⟨?_, fun v hv => ?_⟩
    · rw [hmetric]
      exact apart_iff_not_infix.mpr hplot
    · exact apart_iff_not_infix.mpr (hdatasets v.1 (hvalues v hv))
  exact process_go hnumber ws hws [] (by simp)

/-- One plot with two datasets, exported twice. -/
def exportedTwice : List (ℕ × List (String × LivePlot)) :=
  let plot : LivePlot := (({ rangeSize := 4 } : LivePlot).update "a" 2 3 1).update "b\x7d" 2 5 1
  [(3, [("quality", plot)]), (3, [("quality", plot)])]

theorem process_logText_exportedTwice :
    let number := fun q : ℚ => showInt ⌊q⌋
    let ws := exportedTwice.flatMap fun exported => exportWrites exported.1 exported.2
    (process (logText number ws)).filter (· ≠ []) = (recordsOf ws).map (dumps number) :=
  process_logText (fun q => showInt ⌊q⌋) (fun _ _ hc => plain_showInt hc) exportedTwice
    (by decide +kernel)

end Exp
end LiveStream
