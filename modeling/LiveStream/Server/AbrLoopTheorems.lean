import LiveStream.Abr.SegmentProgressTheorems
import LiveStream.Server.AbrLoop

/-!
# What is announced is what is served

The long polls are answered in one fixed order, whatever the interleaving of requests,
metrics, aborts and the two threads: the `n`-th answer ever sent is the decision of segment
`n / 2 + 1` when `n` is even and the piece of that segment when `n` is odd (`IsSend`). The
invariant `Inv` carries this together with the set `sent` and the program point, and the
three promises of the loop (at most once, same decision, in order) are read off it.
-/

namespace LiveStream
namespace Server

open AbrSchema Lib Abr

/-! ## Paths -/

/-- Path of the long poll for the decision of segment `i`. -/
def requestPath (i : ℤ) : String := "/request/" ++ toString i

/-- Path of the long poll for segment `i` itself. -/
def piecePath (i : ℤ) : String := "/piece/" ++ toString i

theorem find_isSome_of_isPrefix {pattern cs : List Char} (h : pattern <+: cs) :
    (find pattern cs).isSome = true := by
  cases cs with
  | nil =>
    rw [List.prefix_nil.mp h]
    rfl
  | cons c cs =>
    rw [find, if_pos h]
    rfl

theorem isLongPoll_requestPath (i : ℤ) : isLongPoll (requestPath i) = true := by
  have hne : requestPath i ≠ API_PATH := by
    intro h
    have hl := congrArg String.toList h
    simp [requestPath, API_PATH] at hl
  have hc : containsPath (requestPath i) API_PATH = true := by
    apply find_isSome_of_isPrefix
    simp [requestPath, API_PATH]
  simp [isLongPoll, hne, hc]

theorem isLongPoll_piecePath (i : ℤ) : isLongPoll (piecePath i) = true := by
  have hne : piecePath i ≠ API_PATH := by
    intro h
    have hl := congrArg String.toList h
    simp [piecePath, API_PATH] at hl
  have hc : containsPath (piecePath i) PIECE_PATH = true := by
    apply find_isSome_of_isPrefix
    simp [piecePath, PIECE_PATH]
  simp [isLongPoll, hne, hc]

theorem requestPath_injective {i j : ℤ} (h : requestPath i = requestPath j) : i = j := by
  have hl := congrArg String.toList h
  simp only [requestPath, String.toList_append, List.append_cancel_left_eq] at hl
  exact Int.repr_injective (String.toList_injective hl)

theorem piecePath_injective {i j : ℤ} (h : piecePath i = piecePath j) : i = j := by
  have hl := congrArg String.toList h
  simp only [piecePath, String.toList_append, List.append_cancel_left_eq] at hl
  exact Int.repr_injective (String.toList_injective hl)

theorem requestPath_ne_piecePath (i j : ℤ) : requestPath i ≠ piecePath j := by
  intro h
  have hl := congrArg String.toList h
  simp [requestPath, piecePath] at hl

/-- The path the `n`-th answer goes to. -/
def sendPath (n : ℕ) : String :=
  if n % 2 = 0 then requestPath (n / 2 + 1 : ℕ) else piecePath (n / 2 + 1 : ℕ)

theorem sendPath_even (n : ℕ) : sendPath (2 * n) = requestPath (n + 1 : ℕ) := by
  rw [sendPath, if_pos (by omega), Nat.mul_div_cancel_left n (by omega)]

theorem sendPath_odd (n : ℕ) : sendPath (2 * n + 1) = piecePath (n + 1 : ℕ) := by
  rw [sendPath, if_neg (by omega), show (2 * n + 1) / 2 = n by omega]

theorem sendPath_injective {m n : ℕ} (h : sendPath m = sendPath n) : m = n := by
  unfold sendPath at h
  split at h <;> split at h
  · have := requestPath_injective h
    omega
  · exact absurd h (requestPath_ne_piecePath _ _)
  · exact absurd h.symm (requestPath_ne_piecePath _ _)
  · have := piecePath_injective h
    omega

theorem sendPath_eq_requestPath {n : ℕ} {i : ℤ} (h : sendPath n = requestPath i) :
    n % 2 = 0 ∧ (n / 2 + 1 : ℕ) = i := by
  unfold sendPath at h
  split at h
  · next he => exact ⟨he, requestPath_injective h⟩
  · exact absurd h.symm (requestPath_ne_piecePath _ _)

theorem sendPath_eq_piecePath {n : ℕ} {i : ℤ} (h : sendPath n = piecePath i) :
    n % 2 = 1 ∧ (n / 2 + 1 : ℕ) = i := by
  unfold sendPath at h
  split at h
  · exact absurd h (requestPath_ne_piecePath _ _)
  · next he => exact ⟨by omega, piecePath_injective h⟩

theorem isLongPoll_sendPath (n : ℕ) : isLongPoll (sendPath n) = true := by
  unfold sendPath
  split
  · exact isLongPoll_requestPath _
  · exact isLongPoll_piecePath _

/-! ## The answers to long polls -/

namespace DashBackend

variable (parseMetrics : String → Metrics)

/-- The response answers a long poll. -/
def isAnswer (d : Delivery) : Bool := d.on.any isLongPoll

/-- The responses that answered a long poll, oldest first. -/
def polled (s : DashBackend) : List Delivery := s.delivered.filter isAnswer

/-- A parked stream is stored under the path it asked for, which is a long poll's. -/
def CacheInv (s : DashBackend) : Prop :=
  ∀ path entry, s.streamCache path = some entry →
    entry.baseRequestHeaders ":path" = some path ∧ isLongPoll path = true

theorem polled_fetch (s : DashBackend) (hs : HeaderBlock) (b : String) (h : Handler) :
    (s.fetchResponseFromBackend parseMetrics hs b h).polled = s.polled := by
  obtain ⟨-, hcase⟩ := fetch_cases parseMetrics s hs b h
  rcases hcase with ⟨_, -, -, -, -, hdel⟩ | ⟨payload, hno, -, hdel⟩ | ⟨-, hdel⟩
  · rw [polled, hdel, polled]
  · rw [polled, hdel, List.filter_append, polled]
    cases hp : hs ":path" with
    | none => simp [isAnswer]
    | some path => simp [isAnswer, hno path hp]
  · rw [polled, hdel, polled]

theorem CacheInv.answered {s : DashBackend} (h : CacheInv s) (path : String) (entry : CacheEntry)
    (payload : Payload) : CacheInv (s.answered path entry payload) :=
  fun path' entry' hc => h path' entry' (parked_of_answered hc)

theorem CacheInv.step {s : DashBackend} (h : CacheInv s) (e : Event) :
    CacheInv (s.step parseMetrics e) := by
  cases e with
  | fetch hs b handler =>
    obtain ⟨-, hcase⟩ := fetch_cases parseMetrics s hs b handler
    rcases hcase with ⟨path, hpath, hl, -, hcache, -⟩ | ⟨_, -, hcache, -⟩ | ⟨hcache, -⟩
    · intro path' entry hc
      rw [DashBackend.step, hcache] at hc
      by_cases hp : path' = path
      · subst hp
        rw [Function.update_self] at hc
        cases hc
        exact ⟨hpath, hl⟩
      · rw [Function.update_of_ne hp] at hc
        exact h path' entry hc
    · simp only [CacheInv, DashBackend.step, hcache]
      exact h
    · simp only [CacheInv, DashBackend.step, hcache]
      exact h
  | close handler => exact h
  | sendResponse path body =>
    exact (answers_invariant h (fun _ _ payload _ => h.answered _ _ payload) path).1 body
  | sendPiece path video =>
    exact (answers_invariant h (fun _ _ payload _ => h.answered _ _ payload) path).2 video
  | getMetrics => exact h
  | getAborts => exact h

/-- Answering a parked stream adds one answer, on the path the stream is parked under. -/
theorem polled_answered {s : DashBackend} (h : CacheInv s) {path : String} {entry : CacheEntry}
    (hc : s.streamCache path = some entry) (payload : Payload) :
    ∃ x : Delivery, (s.answered path entry payload).polled = s.polled ++ [x] ∧
      x.on = some path ∧ x.payload = payload := by
  obtain ⟨hpath, hl⟩ := h path entry hc
  refine ⟨⟨some path, entry.handler, payload, decide (entry.handler ∈ s.closed)⟩, ?_, rfl, rfl⟩
  simp [polled, answered, isAnswer, List.filter_append, hpath, hl]

end DashBackend

/-! ## The invariant of the loop -/

namespace AbrLoop

variable (parseMetrics : String → Metrics)

/-- `x` is the `n`-th answer, for the decisions recorded in `abr`. -/
def IsSend (abr : SegmentProgressAbr) (n : ℕ) (x : Delivery) : Prop :=
  ∃ d, abr.decisions (n / 2 + 1 : ℕ) = some d ∧
    if n % 2 = 0 then x.on = some d.path ∧ x.payload = .body d.serialize
    else x.on = some d.resourcePath ∧ x.payload = .stored (some d.videoPath)

/-- The number of answers sent so far. -/
def sends (s : AbrLoop) : ℤ := s.backend.polled.length

/-- `d` is the latest recorded decision. -/
def Latest (abr : SegmentProgressAbr) (d : Decision) : Prop :=
  abr.decisions (abr.decisionIndex - 1) = some d

/-- How many answers have been sent when the loop stands at its program point, in terms of
the number of decisions taken. -/
def Stage (abr : SegmentProgressAbr) (sends : ℤ) : Pc → Prop
  | .getMetrics | .getAborts | .decide => sends = 2 * (abr.decisionIndex - 1)
  | .checkPath d => Latest abr d ∧
      (sends = 2 * (abr.decisionIndex - 2) ∨ sends = 2 * (abr.decisionIndex - 1))
  | .respondLoop d | .respondPosted d | .respondDone d false =>
    Latest abr d ∧ sends = 2 * (abr.decisionIndex - 2)
  | .respondDone d true => Latest abr d ∧ sends = 2 * (abr.decisionIndex - 2) + 1
  | .checkResource d => Latest abr d ∧
      (sends = 2 * (abr.decisionIndex - 2) + 1 ∨ sends = 2 * (abr.decisionIndex - 1))
  | .pieceLoop d | .piecePosted d | .pieceDone d false =>
    Latest abr d ∧ sends = 2 * (abr.decisionIndex - 2) + 1
  | .pieceDone d true => Latest abr d ∧ sends = 2 * (abr.decisionIndex - 1)

structure Inv (s : AbrLoop) : Prop where
  abr : s.abr.Inv
  cache : s.backend.CacheInv
  /-- The answers come in their fixed order. -/
  ordered : ∀ n x, s.backend.polled[n]? = some x → IsSend s.abr n x
  /-- `sent` holds the paths answered so far. -/
  sent_iff : ∀ path, path ∈ s.sent ↔ ∃ n : ℕ, (n : ℤ) < s.sends ∧ path = sendPath n
  stage : Stage s.abr s.sends s.pc

theorem inv_init : Inv init where
  abr := SegmentProgressAbr.inv_init
  cache := by intro path entry h; cases h
  ordered := by intro n x h; simp [init, DashBackend.init, DashBackend.polled] at h
  sent_iff := by
    intro path
    simp only [init, sends, DashBackend.init, DashBackend.polled, Finset.notMem_empty, false_iff]
    rintro ⟨n, hn, -⟩
    simp at hn
    omega
  stage := rfl

/-- The latest decision is that of the segment before `decisionIndex`. -/
theorem latest_index {abr : SegmentProgressAbr} (h : abr.Inv) {d : Decision} (hd : Latest abr d) :
    d.index = abr.decisionIndex - 1 ∧ 1 ≤ d.index := by
  have hidx := h.recorded_index _ _ hd
  have hrec := (h.recorded_iff _).mp (Option.isSome_iff_exists.mpr ⟨d, hd⟩)
  omega

theorem path_eq_sendPath {d : Decision} {n : ℕ} (h : d.index = n + 1) :
    d.path = sendPath (2 * n) := by
  rw [sendPath_even, Decision.path, h, requestPath, Nat.cast_succ]

theorem resourcePath_eq_sendPath {d : Decision} {n : ℕ} (h : d.index = n + 1) :
    d.resourcePath = sendPath (2 * n + 1) := by
  rw [sendPath_odd, Decision.resourcePath, h, piecePath, Nat.cast_succ]

/-- Whether a decision was announced can be told from the number of answers. -/
theorem Inv.path_mem_sent {s : AbrLoop} (h : Inv s) {d : Decision} (hd : Latest s.abr d) :
    d.path ∈ s.sent ↔ 2 * (s.abr.decisionIndex - 2) < s.sends := by
  obtain ⟨hidx, hpos⟩ := latest_index h.abr hd
  obtain ⟨n, hn⟩ : ∃ n : ℕ, d.index = n + 1 := ⟨(d.index - 1).toNat, by omega⟩
  rw [h.sent_iff, path_eq_sendPath hn]
  constructor
  · rintro ⟨m, hm, heq⟩
    have := sendPath_injective heq
    omega
  · intro hlt
    exact ⟨2 * n, by omega, rfl⟩

theorem Inv.resourcePath_mem_sent {s : AbrLoop} (h : Inv s) {d : Decision}
    (hd : Latest s.abr d) :
    d.resourcePath ∈ s.sent ↔ 2 * (s.abr.decisionIndex - 2) + 1 < s.sends := by
  obtain ⟨hidx, hpos⟩ := latest_index h.abr hd
  obtain ⟨n, hn⟩ : ∃ n : ℕ, d.index = n + 1 := ⟨(d.index - 1).toNat, by omega⟩
  rw [h.sent_iff, resourcePath_eq_sendPath hn]
  constructor
  · rintro ⟨m, hm, heq⟩
    have := sendPath_injective heq
    omega
  · intro hlt
    exact ⟨2 * n + 1, by omega, rfl⟩

/-! ## The steps of the main thread -/

/-- A back-end step that answers no long poll keeps the invariant. -/
theorem Inv.of_polled_eq {s : AbrLoop} (h : Inv s) {b : DashBackend} (hc : b.CacheInv)
    (hp : b.polled = s.backend.polled) : Inv { s with backend := b } where
  abr := h.abr
  cache := hc
  ordered := by
    simp only [hp]
    exact h.ordered
  sent_iff := by
    simp only [sends, hp]
    exact h.sent_iff
  stage := by
    simp only [sends, hp]
    exact h.stage

/-- Sending answer number `n` extends the fixed order. -/
theorem Inv.answer {s : AbrLoop} (h : Inv s) {path : String} {entry : CacheEntry}
    {payload : Payload} {pc : Pc} (hc : s.backend.streamCache path = some entry)
    (hsend : ∀ x : Delivery, x.on = some path → x.payload = payload →
      IsSend s.abr s.backend.polled.length x)
    (hpath : path = sendPath s.backend.polled.length)
    (hstage : Stage s.abr (s.sends + 1) pc) :
    Inv { s with
      backend := s.backend.answered path entry payload, sent := insert path s.sent, pc := pc } := by
  obtain ⟨x, hp, hon, hpayload⟩ := DashBackend.polled_answered h.cache hc payload
  refine ⟨h.abr, h.cache.answered path entry payload, ?_, ?_, ?_⟩
  · intro n y hy
    simp only [hp] at hy ⊢
    rcases lt_trichotomy n s.backend.polled.length with hlt | heq | hgt
    · rw [List.getElem?_append_left hlt] at hy
      exact h.ordered n y hy
    · subst heq
      rw [List.getElem?_concat_length, Option.some.injEq] at hy
      rw [← hy]
      exact hsend x hon hpayload
    · rw [List.getElem?_eq_none (by simp; omega)] at hy
      cases hy
  · intro path'
    simp only [Finset.mem_insert, h.sent_iff, sends, hp, List.length_append, List.length_singleton]
    constructor
    · rintro (rfl | ⟨n, hn, hn'⟩)
      · exact ⟨s.backend.polled.length, by omega, hpath⟩
      · exact ⟨n, by omega, hn'⟩
    · rintro ⟨n, hn, hn'⟩
      by_cases hlt : n < s.backend.polled.length
      · exact Or.inr ⟨n, by omega, hn'⟩
      · left
        rw [hn', hpath]
        congr 1
        omega
  · simp only [sends, hp, List.length_append, List.length_singleton]
    exact hstage

theorem Inv.respond {s : AbrLoop} (h : Inv s) {d : Decision} (hpc : s.pc = .respondPosted d) :
    Inv (s.respond d) := by
  have hst := h.stage
  rw [hpc] at hst
  obtain ⟨hd, hm⟩ := hst
  obtain ⟨hidx, hpos⟩ := latest_index h.abr hd
  unfold AbrLoop.respond
  cases hc : s.backend.streamCache d.path with
  | none =>
    simp only [DashBackend.sendResponse_of_none hc]
    exact ⟨h.abr, h.cache, h.ordered, h.sent_iff, hd, hm⟩
  | some entry =>
    have hlen : s.backend.polled.length = 2 * (d.index - 1).toNat := by
      simp only [sends] at hm
      omega
    simp only [DashBackend.sendResponse_of_some hc, if_true]
    refine h.answer hc (fun x hon hpay => ⟨d, ?_, ?_⟩) ?_ ⟨hd, ?_⟩
    · have hnum : ((s.backend.polled.length / 2 + 1 : ℕ) : ℤ) = s.abr.decisionIndex - 1 := by
        omega
      rw [hnum]
      exact hd
    · rw [if_pos (by omega)]
      exact ⟨hon, hpay⟩
    · rw [hlen]
      exact path_eq_sendPath (by omega)
    · rw [hm]

theorem Inv.sendPiece {s : AbrLoop} (h : Inv s) {d : Decision} (hpc : s.pc = .piecePosted d) :
    Inv (s.sendPiece d) := by
  have hst := h.stage
  rw [hpc] at hst
  obtain ⟨hd, hm⟩ := hst
  obtain ⟨hidx, hpos⟩ := latest_index h.abr hd
  unfold AbrLoop.sendPiece
  cases hc : s.backend.streamCache d.resourcePath with
  | none =>
    simp only [DashBackend.sendPiece_of_none hc]
    exact ⟨h.abr, h.cache, h.ordered, h.sent_iff, hd, hm⟩
  | some entry =>
    have hlen : s.backend.polled.length = 2 * (d.index - 1).toNat + 1 := by
      simp only [sends] at hm
      omega
    simp only [DashBackend.sendPiece_of_some hc, if_true]
    refine h.answer hc (fun x hon hpay => ⟨d, ?_, ?_⟩) ?_ ⟨hd, ?_⟩
    · have hnum : ((s.backend.polled.length / 2 + 1 : ℕ) : ℤ) = s.abr.decisionIndex - 1 := by
        omega
      rw [hnum]
      exact hd
    · rw [if_neg (by omega)]
      exact ⟨hon, hpay⟩
    · rw [hlen]
      exact resourcePath_eq_sendPath (by omega)
    · rw [hm]
      omega

theorem Inv.runTask {s : AbrLoop} (h : Inv s) : Inv s.runTask := by
  unfold AbrLoop.runTask
  cases hpc : s.pc with
  | respondPosted d => exact h.respond hpc
  | piecePosted d => exact h.sendPiece hpc
  | _ => exact h

/-! ## The steps of the loop's thread -/

/-- Registering metrics or aborts changes nothing the loop's promises depend on. -/
theorem Inv.of_decisions_eq {s : AbrLoop} (h : Inv s) {abr : SegmentProgressAbr}
    {b : DashBackend} {pc : Pc} (habr : abr.Inv) (hdec : abr.decisions = s.abr.decisions)
    (hcache : b.CacheInv) (hp : b.polled = s.backend.polled) (hstage : Stage abr s.sends pc) :
    Inv { s with abr := abr, backend := b, pc := pc } where
  abr := habr
  cache := hcache
  ordered := by
    intro n x hx
    simp only [hp] at hx
    simp only [IsSend, hdec]
    exact h.ordered n x hx
  sent_iff := by
    simp only [sends, hp]
    exact h.sent_iff
  stage := by
    simp only [sends, hp]
    exact hstage

theorem foldl_registerMetrics_frame (abr : SegmentProgressAbr) (ms : List Metrics) :
    (ms.foldl SegmentProgressAbr.registerMetrics abr).decisions = abr.decisions ∧
      (ms.foldl SegmentProgressAbr.registerMetrics abr).decisionIndex = abr.decisionIndex := by
  constructor
  · exact run_frame (g := SegmentProgressAbr.decisions)
      (fun t m => (SegmentProgressAbr.registerMetrics_frame t m).1) abr ms
  · exact run_frame (g := SegmentProgressAbr.decisionIndex)
      (fun t m => (SegmentProgressAbr.registerMetrics_frame t m).2.2) abr ms

theorem foldl_registerAbort_frame (abr : SegmentProgressAbr) (is : List ℤ) :
    (is.foldl SegmentProgressAbr.registerAbort abr).decisions = abr.decisions ∧
      (is.foldl SegmentProgressAbr.registerAbort abr).decisionIndex = abr.decisionIndex := by
  constructor
  · exact run_frame (g := SegmentProgressAbr.decisions)
      (fun t i => show (t.registerAbort i).decisions = t.decisions from rfl) abr is
  · exact run_frame (g := SegmentProgressAbr.decisionIndex)
      (fun t i => show (t.registerAbort i).decisionIndex = t.decisionIndex from rfl) abr is

/-- A move that only changes the program point. -/
theorem Inv.goto {s : AbrLoop} (h : Inv s) {pc : Pc} (hstage : Stage s.abr s.sends pc) :
    Inv { s with pc := pc } := ⟨h.abr, h.cache, h.ordered, h.sent_iff, hstage⟩

theorem IsSend.mono {abr abr' : SegmentProgressAbr} (h : abr.Extends abr') {n : ℕ} {x : Delivery}
    (hx : IsSend abr n x) : IsSend abr' n x := by
  obtain ⟨d, hd, hcase⟩ := hx
  exact ⟨d, h _ d hd, hcase⟩

/-- A decision of the ABR is no `noop`: its index is positive. -/
theorem not_noop {d : Decision} (h : 1 ≤ d.index) : d.noop = false := by
  have hne : d.index ≠ -1 := by omega
  simp [Decision.noop, hne]

theorem Inv.loop_decide {s : AbrLoop} (h : Inv s) (hpc : s.pc = .decide) (q : ℤ → ℤ) :
    Inv (s.loop q) := by
  have hst := h.stage
  rw [hpc] at hst
  simp only [Stage] at hst
  have habr := h.abr.decide q
  have hext := SegmentProgressAbr.extends_step h.abr (.decide q)
  -- in either case the decision returned is the latest of the new state
  have hlatest : Latest (s.abr.decide q).1 (s.abr.decide q).2 ∧
      ((s.abr.decide q).1.decisionIndex = s.abr.decisionIndex + 1 ∨
        (s.abr.decide q).1.decisionIndex = s.abr.decisionIndex) := by
    rcases SegmentProgressAbr.decide_cases h.abr q with ⟨-, he⟩ | ⟨-, -, d, hd, he⟩
    · rw [he]
      refine ⟨?_, Or.inl rfl⟩
      simp only [Latest, add_sub_cancel_right]
      exact Function.update_self ..
    · rw [he]
      exact ⟨hd, Or.inr rfl⟩
  obtain ⟨hd, hidx⟩ := hlatest
  have hnoop := not_noop (latest_index habr hd).2
  simp only [AbrLoop.loop, hpc, hnoop, Bool.false_eq_true, if_false]
  refine ⟨habr, h.cache, fun n x hx => (h.ordered n x hx).mono hext, h.sent_iff, hd, ?_⟩
  show s.sends = 2 * ((s.abr.decide q).1.decisionIndex - 2) ∨
    s.sends = 2 * ((s.abr.decide q).1.decisionIndex - 1)
  omega

theorem Inv.loop {s : AbrLoop} (h : Inv s) (q : ℤ → ℤ) : Inv (s.loop q) := by
  have hst := h.stage
  cases hpc : s.pc with
  | getMetrics =>
    rw [hpc] at hst
    simp only [AbrLoop.loop, hpc]
    obtain ⟨hdec, hidx⟩ := foldl_registerMetrics_frame s.abr s.backend.metrics
    refine h.of_decisions_eq ?_ hdec h.cache rfl ?_
    · exact run_invariant (P := SegmentProgressAbr.Inv) h.abr fun t ht m _ => ht.registerMetrics m
    · simp only [Stage, hidx]
      exact hst
  | getAborts =>
    rw [hpc] at hst
    simp only [AbrLoop.loop, hpc]
    obtain ⟨hdec, hidx⟩ := foldl_registerAbort_frame s.abr s.backend.aborts
    refine h.of_decisions_eq ?_ hdec h.cache rfl ?_
    · exact run_invariant (P := SegmentProgressAbr.Inv) h.abr fun t ht i _ => ht.registerAbort i
    · simp only [Stage, hidx]
      exact hst
  | decide => exact h.loop_decide hpc q
  | checkPath d =>
    rw [hpc] at hst
    obtain ⟨hd, hm⟩ := hst
    simp only [AbrLoop.loop, hpc, h.path_mem_sent hd]
    apply h.goto
    split
    · exact ⟨hd, by omega⟩
    · exact ⟨hd, by omega⟩
  | respondLoop d =>
    rw [hpc] at hst
    obtain ⟨hd, hm⟩ := hst
    simp only [AbrLoop.loop, hpc, h.path_mem_sent hd]
    apply h.goto
    split
    · exact ⟨hd, hm⟩
    · exact ⟨hd, hm⟩
  | respondPosted d =>
    simp only [AbrLoop.loop, hpc]
    exact h
  | respondDone d sent =>
    rw [hpc] at hst
    simp only [AbrLoop.loop, hpc]
    apply h.goto
    cases sent with
    | false => exact hst
    | true => exact ⟨hst.1, Or.inl hst.2⟩
  | checkResource d =>
    rw [hpc] at hst
    obtain ⟨hd, hm⟩ := hst
    simp only [AbrLoop.loop, hpc, h.resourcePath_mem_sent hd]
    apply h.goto
    split
    · show s.sends = _
      omega
    · exact ⟨hd, by omega⟩
  | pieceLoop d =>
    rw [hpc] at hst
    obtain ⟨hd, hm⟩ := hst
    simp only [AbrLoop.loop, hpc, h.resourcePath_mem_sent hd]
    apply h.goto
    split
    · exact ⟨hd, hm⟩
    · exact ⟨hd, hm⟩
  | piecePosted d =>
    simp only [AbrLoop.loop, hpc]
    exact h
  | pieceDone d sent =>
    rw [hpc] at hst
    simp only [AbrLoop.loop, hpc]
    apply h.goto
    cases sent with
    | false => exact hst
    | true => exact hst.2

theorem Inv.step {s : AbrLoop} (h : Inv s) (e : Event) : Inv (s.step parseMetrics e) := by
  cases e with
  | fetch hs b handler =>
    exact h.of_polled_eq (h.cache.step parseMetrics (.fetch hs b handler))
      (DashBackend.polled_fetch parseMetrics s.backend hs b handler)
  | close handler => exact h.of_polled_eq (h.cache.step parseMetrics (.close handler)) rfl
  | runTask => exact h.runTask
  | loop q => exact h.loop q

/-- Every interleaving keeps the invariant. -/
theorem inv_after (es : List Event) : Inv (after parseMetrics es) :=
  run_invariant inv_init fun _ ht e _ => ht.step parseMetrics e

/-! ## The promises of the loop -/

/-- The `n`-th answer goes to its path. -/
theorem Inv.on_eq {s : AbrLoop} (h : Inv s) {n : ℕ} {x : Delivery}
    (hx : s.backend.polled[n]? = some x) : x.on = some (sendPath n) := by
  obtain ⟨d, hd, hcase⟩ := h.ordered n x hx
  have hidx := h.abr.recorded_index _ _ hd
  unfold sendPath
  split at hcase
  · next he => rw [if_pos he, hcase.1, Decision.path, hidx, requestPath]
  · next he => rw [if_neg he, hcase.1, Decision.resourcePath, hidx, piecePath]

/-- A response on a long poll's path is one of the answers. -/
theorem Inv.exists_sendPath {s : AbrLoop} (h : Inv s) {x : Delivery}
    (hx : x ∈ s.backend.delivered) {path : String} (hon : x.on = some path)
    (hl : isLongPoll path = true) : ∃ n, sendPath n = path ∧ IsSend s.abr n x := by
  have hmem : x ∈ s.backend.polled := by
    rw [DashBackend.polled, List.mem_filter]
    exact ⟨hx, by simp [DashBackend.isAnswer, hon, hl]⟩
  obtain ⟨n, hn⟩ := List.mem_iff_getElem?.mp hmem
  have heq := h.on_eq hn
  rw [hon, Option.some.injEq] at heq
  exact ⟨n, heq.symm, h.ordered n x hn⟩

/-- No path is answered twice. -/
theorem Inv.count_le_one {s : AbrLoop} (h : Inv s) {path : String} (hl : isLongPoll path = true) :
    (s.backend.delivered.map Delivery.on).count (some path) ≤ 1 := by
  have hnodup : (s.backend.polled.map Delivery.on).Nodup := by
    rw [List.nodup_iff_injective_getElem]
    rintro ⟨m, hm⟩ ⟨n, hn⟩ heq
    simp only [List.length_map] at hm hn
    simp only [List.getElem_map] at heq
    rw [h.on_eq (List.getElem?_eq_getElem hm), h.on_eq (List.getElem?_eq_getElem hn),
      Option.some.injEq] at heq
    exact Fin.ext (sendPath_injective heq)
  -- the other responses are on no long poll's path
  have hcount : (s.backend.delivered.map Delivery.on).count (some path)
      = (s.backend.polled.map Delivery.on).count (some path) := by
    rw [List.count_eq_countP, List.count_eq_countP, List.countP_map, List.countP_map,
      DashBackend.polled, List.countP_filter]
    apply List.countP_congr
    intro x _
    simp only [Function.comp_apply, beq_iff_eq, Bool.and_eq_true]
    constructor
    · intro hon
      exact ⟨hon, by simp [DashBackend.isAnswer, hon, hl]⟩
    · exact fun hon => hon.1
  rw [hcount]
  exact List.nodup_iff_count_le_one.mp hnodup _

/-- What was answered on `/request/i` is the recorded decision `i`. -/
theorem Inv.announced {s : AbrLoop} (h : Inv s) {x : Delivery} (hx : x ∈ s.backend.delivered)
    {i : ℤ} (hon : x.on = some (requestPath i)) :
    ∃ d, s.abr.decisions i = some d ∧ x.payload = .body d.serialize := by
  obtain ⟨n, hn, d, hd, hcase⟩ := h.exists_sendPath hx hon (isLongPoll_requestPath i)
  obtain ⟨heven, hi⟩ := sendPath_eq_requestPath hn
  rw [if_pos heven] at hcase
  exact ⟨d, hi ▸ hd, hcase.2⟩

/-- What was answered on `/piece/i` is the segment of the recorded decision `i`. -/
theorem Inv.served {s : AbrLoop} (h : Inv s) {x : Delivery} (hx : x ∈ s.backend.delivered)
    {i : ℤ} (hon : x.on = some (piecePath i)) :
    ∃ d, s.abr.decisions i = some d ∧ x.payload = .stored (some d.videoPath) := by
  obtain ⟨n, hn, d, hd, hcase⟩ := h.exists_sendPath hx hon (isLongPoll_piecePath i)
  obtain ⟨hodd, hi⟩ := sendPath_eq_piecePath hn
  rw [if_neg (by omega)] at hcase
  exact ⟨d, hi ▸ hd, hcase.2⟩

/-- All answers before the `n`-th have been sent when the `n`-th is. -/
theorem Inv.earlier_sent {s : AbrLoop} (h : Inv s) {before rest : List Delivery} {x : Delivery}
    (hsplit : s.backend.delivered = before ++ x :: rest) {n : ℕ}
    (hon : x.on = some (sendPath n)) {m : ℕ} (hm : m < n) :
    ∃ y ∈ before, y.on = some (sendPath m) := by
  have hx : DashBackend.isAnswer x = true := by
    simp [DashBackend.isAnswer, hon, isLongPoll_sendPath]
  have hpolled : s.backend.polled
      = before.filter DashBackend.isAnswer ++ x :: rest.filter DashBackend.isAnswer := by
    rw [DashBackend.polled, hsplit, List.filter_append, List.filter_cons_of_pos hx]
  -- `x` stands at position `n` of the answers, so the first part holds the earlier ones
  have hpos : (before.filter DashBackend.isAnswer).length = n := by
    have hat : s.backend.polled[(before.filter DashBackend.isAnswer).length]? = some x := by
      rw [hpolled]
      simp
    have heq := h.on_eq hat
    rw [hon, Option.some.injEq] at heq
    exact (sendPath_injective heq).symm
  have hlt : m < (before.filter DashBackend.isAnswer).length := by omega
  have hget : s.backend.polled[m]? = some (before.filter DashBackend.isAnswer)[m] := by
    rw [hpolled, List.getElem?_append_left hlt, List.getElem?_eq_getElem]
  exact ⟨_, (List.mem_filter.mp (List.getElem_mem hlt)).1, h.on_eq hget⟩

/-- **Announced quality equals served quality, at most once and in order.** For every
interleaving of requests, metrics, aborts, closings and moves of the two threads:
at most one response goes to `/request/i` and at most one to `/piece/i`; when both were
sent, they carry the text and the segment of one and the same recorded decision of index
`i`; and when anything has been sent for a larger index `j`, both were sent before it. -/
theorem announced_is_served (es : List Event) :
    let s := after parseMetrics es
    (∀ i, (s.backend.delivered.map Delivery.on).count (some (requestPath i)) ≤ 1 ∧
      (s.backend.delivered.map Delivery.on).count (some (piecePath i)) ≤ 1) ∧
    (∀ i, ∀ x ∈ s.backend.delivered, ∀ y ∈ s.backend.delivered,
      x.on = some (requestPath i) → y.on = some (piecePath i) →
      ∃ d : Decision, s.abr.decisions i = some d ∧ d.index = i ∧
        x.payload = .body d.serialize ∧ y.payload = .stored (some d.videoPath)) ∧
    (∀ i j before x rest, 1 ≤ i → i < j → s.backend.delivered = before ++ x :: rest →
      (x.on = some (requestPath j) ∨ x.on = some (piecePath j)) →
      (∃ y ∈ before, y.on = some (requestPath i)) ∧ ∃ y ∈ before, y.on = some (piecePath i)) := by
  intro s
  have h : Inv s := inv_after parseMetrics es
  refine ⟨?_, ?_, ?_⟩
  · intro i
    exact ⟨h.count_le_one (isLongPoll_requestPath i), h.count_le_one (isLongPoll_piecePath i)⟩
  · intro i x hx y hy hxon hyon
    obtain ⟨d, hd, hann⟩ := h.announced hx hxon
    obtain ⟨d', hd', hserv⟩ := h.served hy hyon
    rw [hd, Option.some.injEq] at hd'
    exact ⟨d, hd, h.abr.recorded_index i d hd, hann, hd' ▸ hserv⟩
  · intro i j before x rest hi hij hsplit hon
    -- both paths of `i` come earlier in the fixed order than either path of `j`
    obtain ⟨k, rfl⟩ : ∃ k : ℕ, i = (k + 1 : ℕ) := ⟨(i - 1).toNat, by omega⟩
    obtain ⟨l, rfl⟩ : ∃ l : ℕ, j = (l + 1 : ℕ) := ⟨(j - 1).toNat, by omega⟩
    rw [← sendPath_even, ← sendPath_odd] at hon
    rw [← sendPath_even, ← sendPath_odd]
    rcases hon with hon | hon
    · exact ⟨h.earlier_sent hsplit hon (by omega), h.earlier_sent hsplit hon (by omega)⟩
    · exact ⟨h.earlier_sent hsplit hon (by omega), h.earlier_sent hsplit hon (by omega)⟩

end AbrLoop
end Server
end LiveStream
