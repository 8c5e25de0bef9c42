import LiveStream.Abr.Schema

/-!
# `DashBackend`: routing, long polls and the stores behind them

The HTTP side of the server. `fetchResponseFromBackend` sorts a request by its path: metrics
are queued for the ABR thread and answered with `OK`, requests for a decision or for a piece
are parked in the `PollingService`, aborts are queued, and the rest goes to the store.

A QUIC stream is known by the `Handler` a response is handed to. What the QUIC side sees is
kept beside the back-end's own state: the streams it has closed, and every call of
`OnResponseBackendComplete` in order.

The JSON reader is a library of its own; `parseMetrics` stands for it.
-/

namespace LiveStream
namespace Server

open AbrSchema Lib

/-- A `RequestHandler*`: the identity of a stream. -/
abbrev Handler := ℕ

/-- A `SpdyHeaderBlock`. -/
abbrev HeaderBlock := String → Option String

/-! ## Paths -/

def API_PATH : String := "/request"
def ABORT_PATH : String := "/abort"
def PIECE_PATH : String := "/piece"

/-- `std::string::find`: the first position of `pattern`. -/
def find (pattern : List Char) : List Char → Option ℕ
  | [] => if pattern = [] then some 0 else none
  | c :: cs => if pattern <+: c :: cs then some 0 else (find pattern cs).map (· + 1)

/-- `path.find(pattern) != npos`. -/
def containsPath (path pattern : String) : Bool := (find pattern.toList path.toList).isSome

/-- `std::isspace` of the C locale. -/
def isSpace (c : Char) : Bool := c = ' ' || (9 ≤ c.toNat && c.toNat ≤ 13)

/-- `std::stoi`: leading blanks, a sign, digits, and whatever follows; `none` where it
throws. -/
def stoi (text : List Char) : Option ℤ :=
  let text := text.dropWhile isSpace
  let negative := text.head? = some '-'
  let text := if text.head? = some '-' ∨ text.head? = some '+' then text.tail else text
  let digits := text.takeWhile Char.isDigit
  if digits = [] then none
  else
    let magnitude : ℤ := digits.foldl (fun n c => 10 * n + (c.toNat - '0'.toNat : ℕ)) 0
    let value := if negative then -magnitude else magnitude
    if -2 ^ 31 ≤ value ∧ value < 2 ^ 31 then some value else none

/-- The index of an abort request: what follows `/abort` and one more character; `none`
where `substr` or `stoi` throws. -/
def abortIndex (path : String) : Option ℤ := do
  let position ← find ABORT_PATH.toList path.toList
  let start := position + ABORT_PATH.length + 1
  if path.length < start then none else stoi (path.toList.drop start)

/-- The paths whose requests are parked. -/
def isLongPoll (path : String) : Bool :=
  path ≠ API_PATH && (containsPath path API_PATH || containsPath path PIECE_PATH)

/-! ## State -/

/-- `PollingService::CacheEntry`. -/
structure CacheEntry where
  baseRequestHeaders : HeaderBlock
  requestBody : String
  handler : Handler

/-- What a response carries. -/
inductive Payload where
  /-- The `OK` that acknowledges metrics. -/
  | ok
  /-- The body `SendResponse` was given. -/
  | body (text : String)
  /-- The store's entry for a path (or its 404). -/
  | stored (path : Option String)
deriving DecidableEq, Repr

/-- One call of `OnResponseBackendComplete`. -/
structure Delivery where
  /-- The path the stream's client had asked for. -/
  on : Option String
  handler : Handler
  payload : Payload
  /-- The stream had been closed before the call. -/
  closed : Bool
deriving DecidableEq, Repr

structure DashBackend where
  /-- `PollingService::stream_cache`. -/
  streamCache : String → Option CacheEntry
  /-- The batches `MetricsService` holds. -/
  metrics : List Metrics
  /-- The aborts `MetricsService` holds. -/
  aborts : List ℤ
  /-- QUIC side: the streams closed so far. -/
  closed : Finset Handler
  /-- QUIC side: the responses received so far, oldest first. -/
  delivered : List Delivery

namespace DashBackend

def init : DashBackend where
  streamCache := fun _ => none
  metrics := []
  aborts := []
  closed := ∅
  delivered := []

/-- `handler->OnResponseBackendComplete(..)` on the stream whose client asked for `on`. -/
def onResponseBackendComplete (s : DashBackend) (on : Option String) (handler : Handler)
    (payload : Payload) : DashBackend :=
  { s with delivered := s.delivered ++ [⟨on, handler, payload, decide (handler ∈ s.closed)⟩] }

/-! ## `PollingService` -/

def addRequest (s : DashBackend) (requestHeaders : HeaderBlock) (requestBody : String)
    (handler : Handler) : DashBackend :=
  match requestHeaders ":path" with
  | none => s
  | some path =>
    -- add path to cache if not present
    if s.streamCache path = none then
      { s with
        streamCache := Function.update s.streamCache path
          (some ⟨requestHeaders, requestBody, handler⟩) }
    else s

def sendResponse (s : DashBackend) (requestPath responseBody : String) : DashBackend × Bool :=
  match s.streamCache requestPath with
  | none => (s, false)
  | some entry =>
    let s' := s.onResponseBackendComplete (entry.baseRequestHeaders ":path") entry.handler
      (.body responseBody)
    ({ s' with streamCache := Function.update s'.streamCache requestPath none }, true)

def getEntry (s : DashBackend) (requestPath : String) : DashBackend × Option CacheEntry :=
  match s.streamCache requestPath with
  | none => (s, none)
  | some entry =>
    ({ s with streamCache := Function.update s.streamCache requestPath none }, some entry)

/-! ## The store, and the piece task of the ABR loop -/

/-- `StoreService::FetchResponseFromBackend`: the in-memory cache answers at once. -/
def storeFetch (s : DashBackend) (on : Option String) (requestHeaders : HeaderBlock)
    (handler : Handler) : DashBackend :=
  s.onResponseBackendComplete on handler (.stored (requestHeaders ":path"))

/-- `GetEntry` of a parked piece request followed by the store's reply to it, with the path
replaced by that of the segment. -/
def sendPiece (s : DashBackend) (resourcePath videoPath : String) : DashBackend × Bool :=
  match s.getEntry resourcePath with
  | (s, none) => (s, false)
  | (s, some entry) =>
    -- modify request headers to match with the store
    let requestHeaders := Function.update entry.baseRequestHeaders ":path" (some videoPath)
    (s.storeFetch (entry.baseRequestHeaders ":path") requestHeaders entry.handler, true)

/-! ## The two calls of the QUIC server -/

variable (parseMetrics : String → Metrics)

def fetchResponseFromBackend (s : DashBackend) (requestHeaders : HeaderBlock)
    (requestBody : String) (handler : Handler) : DashBackend :=
  match requestHeaders ":path" with
  | none => s.storeFetch none requestHeaders handler
  | some path =>
    if path = API_PATH then
      -- new metrics received
      let s := { s with metrics := s.metrics ++ [parseMetrics requestBody] }
      s.onResponseBackendComplete (some path) handler .ok
    else if containsPath path API_PATH then s.addRequest requestHeaders requestBody handler
    else if containsPath path PIECE_PATH then s.addRequest requestHeaders requestBody handler
    else if containsPath path ABORT_PATH then
      match abortIndex path with
      -- the exception leaves the back-end as it was
      | none => s
      | some index => { s with aborts := s.aborts ++ [index] }
    else s.storeFetch (some path) requestHeaders handler

/-- The override is empty: nothing of the back-end changes. -/
def closeBackendResponseStream (s : DashBackend) (_handler : Handler) : DashBackend := s

/-! ## Interleavings -/

/-- What the client, the QUIC server and the ABR loop can do to the back-end. -/
inductive Event where
  | fetch (requestHeaders : HeaderBlock) (requestBody : String) (handler : Handler)
  | close (handler : Handler)
  | sendResponse (requestPath responseBody : String)
  | sendPiece (resourcePath videoPath : String)
  | getMetrics
  | getAborts

def step (s : DashBackend) : Event → DashBackend
  | .fetch requestHeaders requestBody handler =>
    s.fetchResponseFromBackend parseMetrics requestHeaders requestBody handler
  | .close handler =>
    let s := s.closeBackendResponseStream handler
    { s with closed := insert handler s.closed }
  | .sendResponse requestPath responseBody => (s.sendResponse requestPath responseBody).1
  | .sendPiece resourcePath videoPath => (s.sendPiece resourcePath videoPath).1
  | .getMetrics => { s with metrics := [] }
  | .getAborts => { s with aborts := [] }

/-- The state after an interleaving from the start on. -/
def after (es : List Event) : DashBackend := run (step parseMetrics) init es

/-! ## What the operations do -/

/-- The stream parked under `path` gets its response and leaves the cache. -/
def answered (s : DashBackend) (path : String) (entry : CacheEntry) (payload : Payload) :
    DashBackend :=
  { s with
    streamCache := Function.update s.streamCache path none
    delivered := s.delivered ++
      [⟨entry.baseRequestHeaders ":path", entry.handler, payload,
        decide (entry.handler ∈ s.closed)⟩] }

/-- What is parked after an answer was parked before. -/
theorem parked_of_answered {s : DashBackend} {path : String} {entry : CacheEntry}
    {payload : Payload} {path' : String} {entry' : CacheEntry}
    (h : (s.answered path entry payload).streamCache path' = some entry') :
    s.streamCache path' = some entry' := by
  change Function.update s.streamCache path none path' = some entry' at h
  by_cases hp : path' = path
  · subst hp
    rw [Function.update_self] at h
    cases h
  · rwa [Function.update_of_ne hp] at h

theorem sendResponse_of_none {s : DashBackend} {p : String} (h : s.streamCache p = none)
    (b : String) : s.sendResponse p b = (s, false) := by
  rw [sendResponse, h]

theorem sendResponse_of_some {s : DashBackend} {p : String} {e : CacheEntry}
    (h : s.streamCache p = some e) (b : String) :
    s.sendResponse p b = (s.answered p e (.body b), true) := by
  rw [sendResponse, h]
  rfl

theorem sendPiece_of_none {s : DashBackend} {p : String} (h : s.streamCache p = none)
    (v : String) : s.sendPiece p v = (s, false) := by
  simp only [sendPiece, getEntry, h]

theorem sendPiece_of_some {s : DashBackend} {p : String} {e : CacheEntry}
    (h : s.streamCache p = some e) (v : String) :
    s.sendPiece p v = (s.answered p e (.stored (some v)), true) := by
  simp only [sendPiece, getEntry, h, storeFetch, onResponseBackendComplete, Function.update_self,
    answered]

/-- **What the ABR loop's answers can do.** Whatever answering a parked stream keeps, both
ways of answering keep, on any path. -/
theorem answers_invariant {P : DashBackend → Prop} {s : DashBackend} (h : P s)
    (hanswer : ∀ path entry payload, s.streamCache path = some entry →
      P (s.answered path entry payload)) (path : String) :
    (∀ body, P (s.sendResponse path body).1) ∧ ∀ video, P (s.sendPiece path video).1 := by
  cases hcache : s.streamCache path with
  | none =>
    constructor
    · intro body
      rwa [sendResponse_of_none hcache]
    · intro video
      rwa [sendPiece_of_none hcache]
  | some entry =>
    constructor
    · intro body
      rw [sendResponse_of_some hcache]
      exact hanswer path entry _ hcache
    · intro video
      rw [sendPiece_of_some hcache]
      exact hanswer path entry _ hcache

/-- **What `fetchResponseFromBackend` can do.** It parks the stream under a free long-poll
path, it answers a request that is no long poll on the spot, or it touches neither the
parked streams nor the responses. -/
theorem fetch_cases (s : DashBackend) (hs : HeaderBlock) (b : String) (h : Handler) :
    let s' := s.fetchResponseFromBackend parseMetrics hs b h
    s'.closed = s.closed ∧
    ((∃ path, hs ":path" = some path ∧ isLongPoll path = true ∧ s.streamCache path = none ∧
        s'.streamCache = Function.update s.streamCache path (some ⟨hs, b, h⟩) ∧
        s'.delivered = s.delivered) ∨
      (∃ payload, (∀ path, hs ":path" = some path → isLongPoll path = false) ∧
        s'.streamCache = s.streamCache ∧
        s'.delivered = s.delivered ++ [⟨hs ":path", h, payload, decide (h ∈ s.closed)⟩]) ∨
      (s'.streamCache = s.streamCache ∧ s'.delivered = s.delivered)) := by
  dsimp only
  unfold fetchResponseFromBackend
  cases hp : hs ":path" with
  | none =>
    refine ⟨rfl, Or.inr (Or.inl ⟨_, ?_, rfl, rfl⟩)⟩
    intro path hpath
    cases hpath
  | some path =>
    dsimp only
    -- both long-poll branches park the stream, unless its path is taken
    have hpark (hl : isLongPoll path = true) :
        (s.addRequest hs b h).closed = s.closed ∧
        ((∃ path', some path = some path' ∧ isLongPoll path' = true ∧ s.streamCache path' = none ∧
            (s.addRequest hs b h).streamCache
              = Function.update s.streamCache path' (some ⟨hs, b, h⟩) ∧
            (s.addRequest hs b h).delivered = s.delivered) ∨
          ((s.addRequest hs b h).streamCache = s.streamCache ∧
            (s.addRequest hs b h).delivered = s.delivered)) := by
      unfold addRequest
      rw [hp]
      dsimp only
      split
      · next hfree => exact ⟨rfl, Or.inl ⟨path, rfl, hl, hfree, rfl, rfl⟩⟩
      · exact ⟨rfl, Or.inr ⟨rfl, rfl⟩⟩
    split
    · next hapi =>
      refine ⟨rfl, Or.inr (Or.inl ⟨.ok, ?_, rfl, rfl⟩)⟩
      intro path' hpath'
      cases hpath'
      simp [isLongPoll, hapi]
    · next hapi =>
      split
      · next hc =>
        obtain ⟨h₁, h₂⟩ := hpark (by simp [isLongPoll, hapi, hc])
        exact ⟨h₁, h₂.imp_right Or.inr⟩
      · next hc =>
        split
        · next hc' =>
          obtain ⟨h₁, h₂⟩ := hpark (by simp [isLongPoll, hapi, hc'])
          exact ⟨h₁, h₂.imp_right Or.inr⟩
        · next hc' =>
          split
          · split
            · exact ⟨rfl, Or.inr (Or.inr ⟨rfl, rfl⟩)⟩
            · exact ⟨rfl, Or.inr (Or.inr ⟨rfl, rfl⟩)⟩
          · refine ⟨rfl, Or.inr (Or.inl ⟨_, ?_, rfl, rfl⟩)⟩
            intro path' hpath'
            cases hpath'
            simp [isLongPoll, hc, hc']

end DashBackend
end Server
end LiveStream
