import LiveStream.Abr.SegmentProgress
import LiveStream.Server.DashBackend

/-!
# `AbrLoop`: the thread that decides and sends

`Loop` runs on a thread of its own. Each iteration collects metrics and aborts, asks the ABR
for a decision, and then blocks until the decision has been announced on `/request/i` and
the decided segment has been sent on `/piece/i`. Both sends are tasks posted to the main
thread, which also serves the client's requests, so every interleaving of the two threads is
a sequence of the `Event`s below: the main thread takes a request, closes a stream or runs
the posted task; the loop's thread moves on to its next program point.

`bool sent`, the local flag of the two retry loops, lives in the program point.
-/

namespace LiveStream
namespace Server

open AbrSchema Lib Abr

/-- Where `Loop` stands. -/
inductive Pc where
  | getMetrics
  | getAborts
  | decide
  /-- Before the block that announces the decision. -/
  | checkPath (decision : Decision)
  /-- At the head of its `while (!sent)`. -/
  | respondLoop (decision : Decision)
  /-- `Respond` is posted; waiting in `while (!done)`. -/
  | respondPosted (decision : Decision)
  /-- `Respond` has run and left `sent`. -/
  | respondDone (decision : Decision) (sent : Bool)
  /-- Before the block that sends the segment. -/
  | checkResource (decision : Decision)
  | pieceLoop (decision : Decision)
  /-- `SendPiece` is posted. -/
  | piecePosted (decision : Decision)
  | pieceDone (decision : Decision) (sent : Bool)

structure AbrLoop where
  backend : DashBackend
  abr : SegmentProgressAbr
  sent : Finset String
  pc : Pc

namespace AbrLoop

def init : AbrLoop where
  backend := DashBackend.init
  abr := SegmentProgressAbr.init
  sent := ∅
  pc := .getMetrics

/-! ## The posted tasks -/

def respond (s : AbrLoop) (decision : Decision) : AbrLoop :=
  let r := s.backend.sendResponse decision.path decision.serialize
  { s with
    backend := r.1
    sent := if r.2 then insert decision.path s.sent else s.sent
    pc := .respondDone decision r.2 }

def sendPiece (s : AbrLoop) (decision : Decision) : AbrLoop :=
  let r := s.backend.sendPiece decision.resourcePath decision.videoPath
  { s with
    backend := r.1
    sent := if r.2 then insert decision.resourcePath s.sent else s.sent
    pc := .pieceDone decision r.2 }

/-- The main thread runs the task the loop has posted, if there is one. -/
def runTask (s : AbrLoop) : AbrLoop :=
  match s.pc with
  | .respondPosted decision => s.respond decision
  | .piecePosted decision => s.sendPiece decision
  | _ => s

/-! ## The loop -/

/-- One move of the loop's thread. -/
def loop (s : AbrLoop) (decideQuality : ℤ → ℤ) : AbrLoop :=
  match s.pc with
  | .getMetrics =>
    { s with
      abr := s.backend.metrics.foldl SegmentProgressAbr.registerMetrics s.abr
      backend := { s.backend with metrics := [] }
      pc := .getAborts }
  | .getAborts =>
    { s with
      abr := s.backend.aborts.foldl SegmentProgressAbr.registerAbort s.abr
      backend := { s.backend with aborts := [] }
      pc := .decide }
  | .decide =>
    let r := s.abr.decide decideQuality
    { s with abr := r.1, pc := if r.2.noop then .getMetrics else .checkPath r.2 }
  | .checkPath d => { s with pc := if d.path ∈ s.sent then .checkResource d else .respondLoop d }
  -- with the path already in the set the flag can no longer be raised: the loop spins
  | .respondLoop d => { s with pc := if d.path ∈ s.sent then .respondLoop d else .respondPosted d }
  | .respondPosted _ => s
  | .respondDone d sent => { s with pc := if sent then .checkResource d else .respondLoop d }
  | .checkResource d =>
    { s with pc := if d.resourcePath ∈ s.sent then .getMetrics else .pieceLoop d }
  | .pieceLoop d =>
    { s with pc := if d.resourcePath ∈ s.sent then .pieceLoop d else .piecePosted d }
  | .piecePosted _ => s
  | .pieceDone d sent => { s with pc := if sent then .getMetrics else .pieceLoop d }

/-! ## Interleavings -/

inductive Event where
  /-- A request of a client arrives. -/
  | fetch (requestHeaders : HeaderBlock) (requestBody : String) (handler : Handler)
  /-- The QUIC server closes a stream. -/
  | close (handler : Handler)
  /-- The main thread runs the posted task. -/
  | runTask
  /-- The loop's thread moves; `decideQuality` is what the subclass would answer now. -/
  | loop (decideQuality : ℤ → ℤ)

variable (parseMetrics : String → Metrics)

def step (s : AbrLoop) : Event → AbrLoop
  | .fetch hs body handler =>
    { s with backend := s.backend.step parseMetrics (.fetch hs body handler) }
  | .close handler => { s with backend := s.backend.step parseMetrics (.close handler) }
  | .runTask => s.runTask
  | .loop decideQuality => s.loop decideQuality

/-- The state after an interleaving from the start on. -/
def after (es : List Event) : AbrLoop := run (step parseMetrics) init es

/-! ## The loop drives the back-end through its own operations -/

/-- A step of the system is at most one operation of the back-end. -/
theorem backend_step (s : AbrLoop) (e : Event) :
    ∃ fs : List DashBackend.Event,
      (s.step parseMetrics e).backend = run (DashBackend.step parseMetrics) s.backend fs := by
  cases e with
  | fetch hs body handler => exact ⟨[.fetch hs body handler], rfl⟩
  | close handler => exact ⟨[.close handler], rfl⟩
  | runTask =>
    simp only [step, runTask]
    cases s.pc with
    | respondPosted d => exact ⟨[.sendResponse d.path d.serialize], rfl⟩
    | piecePosted d => exact ⟨[.sendPiece d.resourcePath d.videoPath], rfl⟩
    | _ => exact ⟨[], rfl⟩
  | loop q =>
    simp only [step, loop]
    cases s.pc with
    | getMetrics => exact ⟨[.getMetrics], rfl⟩
    | getAborts => exact ⟨[.getAborts], rfl⟩
    | _ => exact ⟨[], rfl⟩

/-- **Refinement.** Whatever the two threads do, the back-end goes through a sequence of its
own operations, so what `DashBackend` guarantees over every sequence holds here. -/
theorem backend_run (es : List Event) :
    ∃ fs : List DashBackend.Event,
      (after parseMetrics es).backend = DashBackend.after parseMetrics fs := by
  induction es using List.reverseRecOn with
  | nil => exact ⟨[], rfl⟩
  | append_singleton es e ih =>
    obtain ⟨fs, hfs⟩ := ih
    obtain ⟨gs, hgs⟩ := backend_step parseMetrics (after parseMetrics es) e
    refine ⟨fs ++ gs, ?_⟩
    rw [after, run_concat, ← after, hgs, hfs, DashBackend.after, DashBackend.after, run_append]

end AbrLoop
end Server
end LiveStream
