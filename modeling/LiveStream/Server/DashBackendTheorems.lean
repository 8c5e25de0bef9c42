import LiveStream.Server.DashBackend

/-!
# Responses on closed streams

`CloseBackendResponseStream` is empty, so a stream that is closed while it is parked stays
in the cache and is answered later all the same. This file says exactly when that happens:
an interleaving can be continued by answers without ever touching a closed stream if and
only if none of its close calls hits a parked stream.

The QUIC server is assumed to hand over only streams that are still open (`FetchesOpen`).
-/

namespace LiveStream
namespace Server
namespace DashBackend

open AbrSchema Lib

variable (parseMetrics : String → Metrics)

/-- Some cache entry holds the stream. -/
def Parked (s : DashBackend) (handler : Handler) : Prop :=
  ∃ path entry, s.streamCache path = some entry ∧ entry.handler = handler

/-- The server's side of the contract: a request arrives on an open stream. -/
def FetchesOpen (s : DashBackend) : Event → Prop
  | .fetch _ _ handler => handler ∉ s.closed
  | _ => True

/-- The close calls that are harmless: those of streams that are not parked. -/
def ClosesUnparked (s : DashBackend) : Event → Prop
  | .close handler => ¬s.Parked handler
  | _ => True

/-- The calls by which the ABR loop answers a parked stream. -/
def Event.IsAnswer : Event → Prop
  | .sendResponse _ _ => True
  | .sendPiece _ _ => True
  | _ => False

/-- No response was delivered on a stream that had been closed before. -/
def DeliversOpen (s : DashBackend) : Prop := ∀ d ∈ s.delivered, d.closed = false

/-! ## The condition is enough -/

/-- While no parked stream is closed, every parked stream is open. -/
structure OpenInv (s : DashBackend) : Prop where
  parked_open : ∀ path entry, s.streamCache path = some entry → entry.handler ∉ s.closed
  delivers : s.DeliversOpen

theorem openInv_init : OpenInv init where
  parked_open := by intro path entry h; cases h
  delivers := by intro d hd; cases hd

/-- Answering a parked stream keeps the invariant. -/
theorem OpenInv.answer {s : DashBackend} (h : OpenInv s) {path : String} {entry : CacheEntry}
    (hc : s.streamCache path = some entry) (payload : Payload) :
    OpenInv (s.answered path entry payload) where
  parked_open := fun path' entry' hc' => h.parked_open path' entry' (parked_of_answered hc')
  delivers := by
    intro d hd
    rcases List.mem_append.mp hd with hd | hd
    · exact h.delivers d hd
    · rw [List.mem_singleton.mp hd]
      exact decide_eq_false (h.parked_open path entry hc)

theorem OpenInv.step {s : DashBackend} (h : OpenInv s) {e : Event} (hf : s.FetchesOpen e)
    (hc : s.ClosesUnparked e) : OpenInv (s.step parseMetrics e) := by
  cases e with
  | fetch hs b handler =>
    obtain ⟨hcl, hcase⟩ := fetch_cases parseMetrics s hs b handler
    rcases hcase with ⟨path, -, -, -, hcache, hdel⟩ | ⟨payload, -, hcache, hdel⟩ | ⟨hcache, hdel⟩
    · constructor
      · intro path' entry' hc'
        simp only [DashBackend.step] at hc' ⊢
        rw [hcache] at hc'
        rw [hcl]
        by_cases hp : path' = path
        · subst hp
          rw [Function.update_self] at hc'
          cases hc'
          exact hf
        · rw [Function.update_of_ne hp] at hc'
          exact h.parked_open path' entry' hc'
      · simp only [DeliversOpen, DashBackend.step, hdel]
        exact h.delivers
    · constructor
      · simp only [DashBackend.step, hcache, hcl]
        exact h.parked_open
      · simp only [DeliversOpen, DashBackend.step, hdel]
        intro d hd
        rcases List.mem_append.mp hd with hd | hd
        · exact h.delivers d hd
        · rw [List.mem_singleton.mp hd]
          exact decide_eq_false hf
    · constructor
      · simp only [DashBackend.step, hcache, hcl]
        exact h.parked_open
      · simp only [DeliversOpen, DashBackend.step, hdel]
        exact h.delivers
  | close handler =>
    refine ⟨?_, h.delivers⟩
    intro path entry hcache hmem
    rcases Finset.mem_insert.mp hmem with heq | hmem
    · exact hc ⟨path, entry, hcache, heq⟩
    · exact h.parked_open path entry hcache hmem
  | sendResponse path body =>
    exact (answers_invariant h (fun _ _ payload hcache => h.answer hcache payload) path).1 body
  | sendPiece path video =>
    exact (answers_invariant h (fun _ _ payload hcache => h.answer hcache payload) path).2 video
  | getMetrics => exact ⟨h.parked_open, h.delivers⟩
  | getAborts => exact ⟨h.parked_open, h.delivers⟩

/-- In every run whose steps all meet the contract and close no parked stream, every
response goes to an open stream. -/
theorem openInv_run {s : DashBackend} (h : OpenInv s) {es : List Event}
    (hf : EveryStep (step parseMetrics) FetchesOpen s es)
    (hc : EveryStep (step parseMetrics) ClosesUnparked s es) :
    OpenInv (run (step parseMetrics) s es) :=
  (hf.and hc).invariant h fun _ _ ht he => ht.step parseMetrics he.1 he.2

/-! ## The condition is needed -/

/-- The stream parked under `path` has been closed, or a closed stream was answered. -/
def Doomed (path : String) (s : DashBackend) : Prop :=
  (∃ entry, s.streamCache path = some entry ∧ entry.handler ∈ s.closed) ∨
    ∃ d ∈ s.delivered, d.closed = true

/-- An answer either leaves the closed stream parked or is delivered on it. -/
theorem Doomed.answer {path : String} {s : DashBackend} (h : Doomed path s) {path' : String}
    {entry' : CacheEntry} (hc : s.streamCache path' = some entry') (payload : Payload) :
    Doomed path (s.answered path' entry' payload) := by
  rcases h with ⟨entry, hcache, hcl⟩ | ⟨d, hd, hdc⟩
  · by_cases hp : path = path'
    · subst hp
      right
      rw [hcache, Option.some.injEq] at hc
      subst hc
      exact ⟨_, List.mem_append_right _ (List.mem_singleton_self _), decide_eq_true hcl⟩
    · left
      refine ⟨entry, ?_, hcl⟩
      exact (Function.update_of_ne hp _ _).trans hcache
  · exact Or.inr ⟨d, List.mem_append_left _ hd, hdc⟩

theorem Doomed.step {path : String} {s : DashBackend} (h : Doomed path s) (e : Event) :
    Doomed path (s.step parseMetrics e) := by
  cases e with
  | fetch hs b handler =>
    obtain ⟨hcl, hcase⟩ := fetch_cases parseMetrics s hs b handler
    simp only [Doomed, DashBackend.step, hcl]
    rcases hcase with ⟨p, -, -, hfree, hcache, hdel⟩ | ⟨payload, -, hcache, hdel⟩ | ⟨hcache, hdel⟩
    · rw [hcache, hdel]
      rcases h with ⟨entry, hentry, hcl⟩ | h
      · -- a taken path is never parked again
        have hp : path ≠ p := by
          rintro rfl
          rw [hfree] at hentry
          cases hentry
        rw [Function.update_of_ne hp]
        exact Or.inl ⟨entry, hentry, hcl⟩
      · exact Or.inr h
    · rw [hcache, hdel]
      exact h.imp_right fun ⟨d, hd, hdc⟩ => ⟨d, List.mem_append_left _ hd, hdc⟩
    · rw [hcache, hdel]
      exact h
  | close handler =>
    exact h.imp_left fun ⟨entry, hentry, hcl⟩ => ⟨entry, hentry, Finset.mem_insert_of_mem hcl⟩
  | sendResponse path' body =>
    exact (answers_invariant h (fun _ _ payload hcache => h.answer hcache payload) path').1 body
  | sendPiece path' video =>
    exact (answers_invariant h (fun _ _ payload hcache => h.answer hcache payload) path').2 video
  | getMetrics => exact h
  | getAborts => exact h

/-- One more answer on the doomed path reaches a closed stream. -/
theorem Doomed.delivers {path : String} {s : DashBackend} (h : Doomed path s) :
    ¬DeliversOpen (s.step parseMetrics (.sendResponse path "")) := by
  intro hopen
  rcases h with ⟨entry, hcache, hcl⟩ | ⟨d, hd, hdc⟩
  · simp only [DeliversOpen, DashBackend.step, sendResponse_of_some hcache] at hopen
    have hlast := hopen _ (List.mem_append_right _ (List.mem_singleton_self _))
    simp only [decide_eq_false_iff_not] at hlast
    exact hlast hcl
  · have hmem : d ∈ (s.step parseMetrics (.sendResponse path "")).delivered :=
      (answers_invariant (P := fun t => d ∈ t.delivered) hd
        (fun _ _ _ _ => List.mem_append_left _ hd) path).1 ""
    rw [hopen d hmem] at hdc
    cases hdc

/-- Closing a parked stream dooms its path, whatever follows. -/
theorem doomed_of_close {s : DashBackend} {handler : Handler} (h : s.Parked handler)
    (post : List Event) :
    ∃ path, Doomed path (run (step parseMetrics) s (.close handler :: post)) := by
  obtain ⟨path, entry, hcache, hentry⟩ := h
  refine ⟨path, ?_⟩
  rw [run_cons]
  refine run_invariant ?_ fun t ht f _ => ht.step parseMetrics f
  exact Or.inl ⟨entry, hcache, hentry ▸ Finset.mem_insert_self ..⟩

/-! ## The exact condition -/

/-- **When no response reaches a closed stream.** For every interleaving in which requests
arrive on open streams: however the ABR loop goes on answering, no response is delivered on
a closed stream, if and only if no close call of the interleaving hits a parked stream. -/
theorem delivers_open_iff (es : List Event)
    (hfetch : EveryStep (step parseMetrics) FetchesOpen init es) :
    (∀ answers : List Event, (∀ e ∈ answers, e.IsAnswer) →
        DeliversOpen (after parseMetrics (es ++ answers))) ↔
      EveryStep (step parseMetrics) ClosesUnparked init es := by
  constructor
  · intro hopen
    by_contra hc
    obtain ⟨pre, e, post, rfl, he⟩ := exists_split_of_not_everyStep hc
    -- only a close call can break the condition; one more answer then shows it
    cases e with
    | close handler =>
      simp only [ClosesUnparked, not_not] at he
      obtain ⟨path, hdoomed⟩ := doomed_of_close parseMetrics he post
      rw [← run_append] at hdoomed
      have hlast := hopen [.sendResponse path ""] (by
        intro f hf
        rw [List.mem_singleton.mp hf]
        trivial)
      rw [after, run_concat, ← after] at hlast
      exact hdoomed.delivers parseMetrics hlast
    | fetch => exact he trivial
    | sendResponse => exact he trivial
    | sendPiece => exact he trivial
    | getMetrics => exact he trivial
    | getAborts => exact he trivial
  · intro hc answers ha
    have hf' : EveryStep (step parseMetrics) FetchesOpen init (es ++ answers) := by
      refine everyStep_append.mpr ⟨hfetch, everyStep_of_forall fun e he s => ?_⟩
      have hanswer := ha e he
      cases e <;> trivial
    have hc' : EveryStep (step parseMetrics) ClosesUnparked init (es ++ answers) := by
      refine everyStep_append.mpr ⟨hc, everyStep_of_forall fun e he s => ?_⟩
      have hanswer := ha e he
      cases e with
      | close => exact absurd hanswer id
      | _ => trivial
    exact (openInv_run parseMetrics openInv_init hf' hc').delivers

/-- Headers of a request for the piece of segment 6. -/
def pieceHeaders : HeaderBlock :=
  Function.update (fun _ => none) ":path" (some "/piece/6")

/-- The request is parked, answered, and only then its stream goes away. -/
def answeredThenClosed : List Event :=
  [.fetch pieceHeaders "" 1, .sendPiece "/piece/6" "/video0/6.m4s", .close 1]

theorem delivers_open_answered :
    EveryStep (step fun _ => {}) ClosesUnparked init answeredThenClosed ∧
      ∀ answers : List Event, (∀ e ∈ answers, e.IsAnswer) →
        DeliversOpen (after (fun _ => {}) (answeredThenClosed ++ answers)) := by
  have hf : EveryStep (step fun _ => {}) FetchesOpen init answeredThenClosed :=
    ⟨by simp [FetchesOpen, init], trivial, trivial, trivial⟩
  have hc : EveryStep (step fun _ => {}) ClosesUnparked init answeredThenClosed := by
    refine ⟨trivial, trivial, ?_, trivial⟩
    rintro ⟨path, entry, hcache, -⟩
    by_cases hp : path = "/piece/6"
    · subst hp
      cases hcache
    · change Function.update (Function.update (fun _ => none) "/piece/6" _) "/piece/6" none path
        = some entry at hcache
      rw [Function.update_of_ne hp, Function.update_of_ne hp] at hcache
      cases hcache
  exact ⟨hc, (delivers_open_iff (fun _ => {}) answeredThenClosed hf).mpr hc⟩

/-- The player aborts its long poll for piece 6 before the decision is ready; the segment is
sent all the same. -/
def closedThenAnswered : List Event :=
  [.fetch pieceHeaders "" 1, .close 1, .sendPiece "/piece/6" "/video0/6.m4s"]

theorem delivers_closed :
    EveryStep (step fun _ => {}) FetchesOpen init closedThenAnswered ∧
      (after (fun _ => {}) closedThenAnswered).delivered
        = [⟨some "/piece/6", 1, .stored (some "/video0/6.m4s"), true⟩] ∧
      ¬DeliversOpen (after (fun _ => {}) closedThenAnswered) := by
  have hdel : (after (fun _ => {}) closedThenAnswered).delivered
      = [⟨some "/piece/6", 1, .stored (some "/video0/6.m4s"), true⟩] := by decide
  refine ⟨⟨by simp [FetchesOpen, init], trivial, trivial, trivial⟩, hdel, ?_⟩
  intro hopen
  rw [DeliversOpen, hdel] at hopen
  exact absurd (hopen _ (List.mem_singleton_self _)) (by decide)

end DashBackend
end Server
end LiveStream
