import LiveStream.Abr.Schema
import LiveStream.Lib.Run
import LiveStream.Video.ConfigTheorems

/-!
# The monitor's metrics processor

`MetricsProcessor` of `exp/components/monitor.py`. The front-end's metrics arrive in batches.
The processor cuts the stream at the reports of segments being loaded: a report of a segment
past its own counter yields one QoE record (`advance`), any other one is compared with the
last recorded segment (`checkQuality`). Floating-point numbers are rationals here.

`compute_qoe` is a generator. An exception in the middle of a batch keeps what was changed
and yielded before it and drops the rest of the batch, so a `QoeStream` carries, beside the
processor, what the consumer has received and whether the current call has raised. `events`
flattens a sequence of calls into the steps of their loops.
-/

namespace LiveStream
namespace Exp

open Lib
open AbrSchema (State)
open Video (DashBackendConfig VideoInfo getJson getField getVmaf subscript)

/-! ## The front-end's data -/

structure Value where
  value : ℚ
  timestamp : ℤ
deriving DecidableEq

structure Segment where
  index : ℤ
  state : State
  quality : ℤ
  timestamp : ℤ
deriving DecidableEq

def Segment.loading (s : Segment) : Bool := s.state = State.loading

structure Metrics where
  playerTime : List Value := []
  bufferLevel : List Value := []
  segments : List Segment := []

/-! ## The video's metadata

The functions of `abr/video.py` at the qualities of a report, which need not be the number of
a track: a negative one counts from the end. -/

def getVideoBitRate (config : DashBackendConfig) (quality : ℤ) : Option ℤ :=
  subscript (sortOn id (getJson config).keys) quality

def getChunkSize (config : DashBackendConfig) (quality index : ℤ) : Option ℕ :=
  getField VideoInfo.size config (getVideoBitRate config quality) index

/-! ## Stall time -/

/-- The samples with `last < timestamp ≤ now`, in order of time. -/
def getValues (samples : List Value) (last now : ℤ) : List Value :=
  sortOn Value.timestamp (samples.filter fun v => last < v.timestamp ∧ v.timestamp ≤ now)

/-- By how much the wall clock gains on the player between two samples. -/
def playerDifference (time1 time2 : Value) : ℚ :=
  (time2.timestamp - time1.timestamp) - (time2.value - time1.value)

/-- The loop over neighbouring samples. -/
def addDifference (rebuffer : ℚ) (times : Value × Value) : ℚ :=
  let rebuffer := rebuffer + playerDifference times.1 times.2 / 1000
  if rebuffer < 0 then 0 else rebuffer

/-- The correction that treats all samples as a single difference. -/
def adjustVariance (playerTimes : List Value) (rebuffer : ℚ) : ℚ :=
  match playerTimes.head?, playerTimes.getLast? with
  | some first, some last =>
    if 1 < playerTimes.length then
      rebuffer + |playerDifference first last / 1000 - rebuffer|
    else rebuffer
  | _, _ => rebuffer

def delaySnapshot : ℚ := 100

/-- `rebuffer` of a record: the stall time seen by the samples of its interval, unless the
buffer never ran low. -/
def rebufferTime (playerTimes bufferLevels : List Value) : ℚ :=
  let rebuffer := (playerTimes.dropLast.zip playerTimes.tail).foldl addDifference 0
  let rebuffer := adjustVariance playerTimes rebuffer
  if bufferLevels ≠ [] ∧ ∀ l ∈ bufferLevels, rebuffer * delaySnapshot * 2 ≤ l.value then 0
  else rebuffer

/-! ## The processor -/

/-- What `advance` returns. -/
structure Record where
  index : ℤ
  quality : ℤ
  rebuffer : ℚ
  rawQoe : ℚ
  vmaf : ℚ
  vmafQoe : ℚ
  bw : ℚ
  timestamp : ℤ
deriving DecidableEq

/-- What `check_quality` returns when it corrects the last segment. -/
structure Correction where
  index : ℤ
  quality : ℤ
  vmaf : ℚ
  timestamp : ℤ
deriving DecidableEq

structure MetricsProcessor where
  metrics : List Metrics := []
  timestamps : List ℤ := [0]
  segments : List Segment := []
  index : ℤ := 1
  vmafPrevious : ℚ := 0

namespace MetricsProcessor

/-- The player-time samples received so far. -/
def playerTimes (p : MetricsProcessor) : List Value := p.metrics.flatMap Metrics.playerTime

def bufferLevels (p : MetricsProcessor) : List Value := p.metrics.flatMap Metrics.bufferLevel

/-- `self.timestamps[-1]`; the list starts with an entry. -/
def lastTimestamp (p : MetricsProcessor) : ℤ := p.timestamps.getLastD 0

/-- The bitrate step between the last two recorded segments. -/
def switch (config : DashBackendConfig) (p : MetricsProcessor) : Option ℤ :=
  if 1 < p.segments.length then do
    let last ← subscript p.segments (-1)
    let before ← subscript p.segments (-2)
    let lastRate ← getVideoBitRate config last.quality
    let beforeRate ← getVideoBitRate config before.quality
    return |lastRate - beforeRate|
  else some 0

/-- The counter and the interval of the next record. -/
def openRecord (p : MetricsProcessor) (segment : Segment) : MetricsProcessor :=
  { p with index := p.index + 1, timestamps := p.timestamps ++ [segment.timestamp] }

/-- `advance`. The second component is the record, or `none` for an exception. -/
def advance (config : DashBackendConfig) (p : MetricsProcessor) (segment : Segment) :
    MetricsProcessor × Option Record :=
  let lastTimestamp := p.lastTimestamp
  let timestamp := segment.timestamp
  let p := p.openRecord segment
  let rebuffer := rebufferTime (getValues p.playerTimes lastTimestamp timestamp)
    (getValues p.bufferLevels lastTimestamp timestamp)
  match getVideoBitRate config segment.quality, p.switch config with
  | some quality, some switch =>
    let rawQoe : ℚ := quality / 1000 - 43 / 10 * rebuffer - switch / 1000
    match getVmaf config p.index quality with
    | some vmaf =>
      let vmafQoe := vmaf - 100 * rebuffer - 5 / 2 * |vmaf - p.vmafPrevious|
      let p := { p with vmafPrevious := vmaf }
      match getChunkSize config segment.quality (p.index - 1) with
      | some size =>
        let time := if timestamp - lastTimestamp ≤ 0 then 1 else timestamp - lastTimestamp
        let bw : ℚ := 8 * size / time / 1000
        ({ p with segments := p.segments ++ [segment] },
          some { index := p.index, quality, rebuffer, rawQoe, vmaf, vmafQoe, bw
                 timestamp := timestamp - p.timestamps.getD 1 0 })
      | none => (p, none)
    | none => (p, none)
  | _, _ => (p, none)

/-- `check_quality`. The second component is what it returns, `none` for an exception. -/
def checkQuality (config : DashBackendConfig) (p : MetricsProcessor) (segment : Segment) :
    MetricsProcessor × Option (Option Correction) :=
  match p.segments.getLast? with
  | none => (p, none)
  | some last =>
    if segment.quality = last.quality then (p, some none)
    else if segment.index = last.index ∧ last.timestamp < segment.timestamp then
      let p :=
        { p with segments := p.segments.dropLast ++ [{ last with quality := segment.quality }] }
      match getVideoBitRate config segment.quality with
      | some quality =>
        match getVmaf config p.index quality with
        | some vmaf =>
          ({ p with vmafPrevious := vmaf },
            some (some { index := p.index, quality, vmaf
                         timestamp := segment.timestamp - p.timestamps.getD 1 0 }))
        | none => (p, none)
      | none => (p, none)
    else (p, some none)

end MetricsProcessor

/-! ## The stream of records -/

/-- The processor with what its consumer sees of it. -/
structure QoeStream where
  processor : MetricsProcessor := {}
  /-- The yielded records, each with the report it was yielded for. -/
  emitted : List (Segment × Record) := []
  /-- The reports of segments being loaded that were handled without an exception. -/
  processed : List Segment := []
  /-- The current call has raised. -/
  halted : Bool := false
  /-- Some call has raised. -/
  raised : Bool := false

namespace QoeStream

/-- The call has raised with the processor left as `p`. -/
def throw (s : QoeStream) (p : MetricsProcessor) : QoeStream :=
  { s with processor := p, halted := true, raised := true }

/-- The start of a call: the batch is kept for the intervals of later records. -/
def call (s : QoeStream) (metrics : Metrics) : QoeStream :=
  { s with
    processor := { s.processor with metrics := s.processor.metrics ++ [metrics] }
    halted := false }

/-- The body of the loop of `compute_qoe`. What `check_quality` returns is logged only. -/
def report (config : DashBackendConfig) (s : QoeStream) (segment : Segment) : QoeStream :=
  if s.halted then s
  else if s.processor.index + 1 ≤ segment.index ∧ segment.loading then
    match s.processor.advance config segment with
    | (p, some record) =>
      { s with
        processor := p
        emitted := s.emitted ++ [(segment, record)]
        processed := s.processed ++ [segment] }
    | (p, none) => s.throw p
  else if segment.loading then
    match s.processor.checkQuality config segment with
    | (p, some _) => { s with processor := p, processed := s.processed ++ [segment] }
    | (p, none) => s.throw p
  else s

def computeQoe (config : DashBackendConfig) (s : QoeStream) (metrics : Metrics) : QoeStream :=
  metrics.segments.foldl (report config) (s.call metrics)

/-- The stream after a sequence of calls. -/
def after (config : DashBackendConfig) (ms : List Metrics) : QoeStream :=
  run (computeQoe config) {} ms

end QoeStream

/-! ## The steps of the loops -/

inductive Event where
  | call (metrics : Metrics)
  | report (segment : Segment)

def Event.step (config : DashBackendConfig) (s : QoeStream) : Event → QoeStream
  | .call metrics => s.call metrics
  | .report segment => s.report config segment

/-- The steps of a sequence of calls. -/
def events (ms : List Metrics) : List Event :=
  ms.flatMap fun m => Event.call m :: m.segments.map Event.report

/-- The reports of segments being loaded, in order of arrival. -/
def loadingReports (ms : List Metrics) : List Segment :=
  ms.flatMap fun m => m.segments.filter Segment.loading

theorem run_reports (config : DashBackendConfig) (s : QoeStream) (segments : List Segment) :
    run (Event.step config) s (segments.map Event.report) =
      segments.foldl (QoeStream.report config) s := by
  rw [run, List.foldl_map]
  rfl

/-- A sequence of calls is the run of its steps. -/
theorem run_computeQoe (config : DashBackendConfig) (s : QoeStream) (ms : List Metrics) :
    run (QoeStream.computeQoe config) s ms = run (Event.step config) s (events ms) := by
  induction ms generalizing s with
  | nil => rfl
  | cons m ms ih =>
    have hevents : events (m :: ms) =
        Event.call m :: (m.segments.map Event.report ++ events ms) := rfl
    rw [run_cons, ih, hevents, run_cons, run_append, run_reports]
    rfl

theorem after_eq_run (config : DashBackendConfig) (ms : List Metrics) :
    QoeStream.after config ms = run (Event.step config) {} (events ms) :=
  run_computeQoe config {} ms

end Exp
end LiveStream
