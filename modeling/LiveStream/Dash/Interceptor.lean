import LiveStream.Lib.Run

/-!
# The request interceptor

`Interceptor` of `component/intercept.ts`. The player's request for a segment meets the
response of the long poll in two maps: `_toIntercept`, whose entries are undefined, null or
the context of the player's `send`, and `_onIntercept`, the callbacks of finished polls.
Whichever comes second makes the delivery. Both places store before they call, and do
nothing afterwards, so that what a callback does is the next events of a run.

* `newXHROpen` and `sendThrough`, the two overrides of the request object;
* `sendThrough_cases`, where a call of `send` can end.
-/

namespace LiveStream
namespace Dash

open Lib

/-! ## Urls -/

/-- `text.split(pattern)[1]`: what is between the first two places where the pattern stands. -/
def splitSecond (pattern : List Char) (text : List Char) : Option (List Char) :=
  (cut text).map fun rest => (firstPart rest).getD rest
where
  /-- What follows the first place. -/
  cut : List Char → Option (List Char)
    | [] => none
    | c :: cs => if pattern <+: c :: cs then some ((c :: cs).drop pattern.length) else cut cs
  /-- What precedes the first place. -/
  firstPart : List Char → Option (List Char)
    | [] => none
    | c :: cs => if pattern <+: c :: cs then some [] else (firstPart cs).map (c :: ·)

/-- The value of a digit of `parseInt`. -/
def digitValue (base : ℕ) (c : Char) : Option ℕ :=
  let value :=
    if c.isDigit then c.toNat - '0'.toNat
    else if c.isLower then c.toNat - 'a'.toNat + 10
    else if c.isUpper then c.toNat - 'A'.toNat + 10
    else base
  if value < base then some value else none

/-- `parseInt` without a radix, `none` for `NaN`. -/
def parseInt (text : List Char) : Option ℤ :=
  let text := text.dropWhile Char.isWhitespace
  let negative := text.head? = some '-'
  let text := if text.head? = some '-' ∨ text.head? = some '+' then text.tail else text
  let hex := "0x".toList <+: text ∨ "0X".toList <+: text
  let base := if hex then 16 else 10
  let digits := ((if hex then text.drop 2 else text).map (digitValue base)).takeWhile Option.isSome
  if digits = [] then none
  else
    let magnitude : ℤ := digits.reduceOption.foldl (fun n d => base * n + d) 0
    some (if negative then -magnitude else magnitude)

/-- The keys of the interceptor's dictionaries: a number, `NaN`, or `makeHeader(quality)`. -/
inductive Key where
  | number (value : ℤ)
  | nan
  | header (quality : ℤ)
deriving DecidableEq

/-- The constructor of `UrlProcessor`: the schemes are cut off. -/
def UrlProcessor.url (url : List Char) : List Char :=
  ["http://".toList, "https://".toList].foldl
    (fun url scheme => if scheme <:+: url then (splitSecond scheme url).getD url else url) url

/-- `UrlProcessor.index`. It is undefined where there is no third part. -/
def UrlProcessor.index (url : String) : Option Key :=
  ((UrlProcessor.url url.toList).splitOn '/')[2]?.map fun part =>
    match parseInt ((part.splitOn '.').headD []) with
    | some value => .number value
    | none => .nan

/-- The test of `send`. -/
def isSegment (url : String) : Prop := "video".toList <:+: url.toList ∧ ".m4s".toList <:+ url.toList

instance (url : String) : Decidable (isSegment url) := inferInstanceAs (Decidable (_ ∧ _))

/-- The further test of `open`. -/
def isHeader (url : String) : Prop := "Header".toList <:+: url.toList

instance (url : String) : Decidable (isHeader url) := inferInstanceAs (Decidable (_ <:+: _))

/-- The key the `send` of a url looks up. -/
def segmentKey (url : String) : Option Key := if isSegment url then UrlProcessor.index url else none

/-! ## The interceptor -/

/-- The context a callback gets: the request object and the url, the utilities apart. -/
structure Context (X : Type*) where
  ctx : X
  url : String
deriving DecidableEq

/-- An entry of `_toIntercept` that is not undefined. -/
inductive Entry (X : Type*) where
  | null
  | object (context : Context X)
deriving DecidableEq

variable {X C : Type*}

/-- The interceptor, for request objects of type `X` and callbacks of type `C`. -/
structure Interceptor (X C : Type*) where
  toIntercept : Key → Option (Entry X)
  onIntercept : Key → Option C
  done : Key → Option String
  bypass : Key → Bool
  /-- The overrides of `send` on a request object, newest first; below them is the native one. -/
  sends : X → List String
  /-- The calls of `_onRequest`. -/
  requested : List (X × Key)
  /-- The calls of callbacks. -/
  invoked : List (Key × C × Context X)
  /-- The calls of the native `send`. -/
  native : List X

namespace Interceptor

def init : Interceptor X C where
  toIntercept := fun _ => none
  onIntercept := fun _ => none
  done := fun _ => none
  bypass := fun _ => false
  sends := fun _ => []
  requested := []
  invoked := []
  native := []

inductive Event (X C : Type*) where
  | intercept (key : Key)
  | onIntercept (key : Key) (callback : C)
  | setBypass (key : Key)
  /-- `open` on a request object. -/
  | openRequest (ctx : X) (url : String)
  /-- `send` on a request object. -/
  | send (ctx : X)

def intercept (s : Interceptor X C) (key : Key) : Interceptor X C :=
  { s with toIntercept := Function.update s.toIntercept key (some .null) }

def setBypass (s : Interceptor X C) (key : Key) : Interceptor X C :=
  { s with bypass := Function.update s.bypass key true }

/-- The call of a callback. -/
def invoke (s : Interceptor X C) (key : Key) (callback : C) (context : Context X) :
    Interceptor X C :=
  { s with invoked := s.invoked ++ [(key, callback, context)] }

def registerCallback (s : Interceptor X C) (key : Key) (callback : C) : Interceptor X C :=
  let s := { s with onIntercept := Function.update s.onIntercept key (some callback) }
  match s.toIntercept key with
  | some (.object context) => s.invoke key callback context
  | some .null | none => s

/-- `_onRequest` and the entry of `_done`. -/
def request (s : Interceptor X C) (ctx : X) (key : Key) (url : String) : Interceptor X C :=
  { s with
    requested := s.requested ++ [(ctx, key)]
    done := Function.update s.done key (some url) }

/-- `ctx.send = function () ..` in `newXHROpen`. -/
def override [DecidableEq X] (s : Interceptor X C) (ctx : X) (url : String) : Interceptor X C :=
  { s with sends := Function.update s.sends ctx (url :: s.sends ctx) }

def newXHROpen [DecidableEq X] (s : Interceptor X C) (ctx : X) (url : String) : Interceptor X C :=
  match if isHeader url then none else segmentKey url with
  | none => s.override ctx url
  | some key =>
    match s.done key with
    | none => (s.request ctx key url).override ctx url
    | some _ =>
      -- a bypassed request keeps the send it has
      if s.bypass key then s.request ctx key url else s.override ctx url

/-- The player's `send` is kept as the context of its key. -/
def capture (s : Interceptor X C) (key : Key) (context : Context X) : Interceptor X C :=
  let s := { s with toIntercept := Function.update s.toIntercept key (some (.object context)) }
  match s.onIntercept key with
  | some callback => s.invoke key callback context
  | none => s

/-- The chain of overrides, each of which ends the call or hands it to the one below. -/
def sendThrough (s : Interceptor X C) (ctx : X) : List String → Interceptor X C
  | [] => { s with native := s.native ++ [ctx] }
  | url :: below =>
    if isSegment url then
      match UrlProcessor.index url with
      | none => s
      | some key =>
        if s.toIntercept key ≠ none then s.capture key ⟨ctx, url⟩ else s.sendThrough ctx below
    else s.sendThrough ctx below

def step [DecidableEq X] (s : Interceptor X C) : Event X C → Interceptor X C
  | .intercept key => s.intercept key
  | .onIntercept key callback => s.registerCallback key callback
  | .setBypass key => s.setBypass key
  | .openRequest ctx url => s.newXHROpen ctx url
  | .send ctx => s.sendThrough ctx (s.sends ctx)

/-- The state after a run. -/
def after [DecidableEq X] (events : List (Event X C)) : Interceptor X C := run step init events

/-- **Inversion.** A call of `send` ends in an override without an index, gets through to the native
one, or is captured for a key that is to be intercepted. -/
theorem sendThrough_cases (s : Interceptor X C) (ctx : X) (urls : List String) :
    s.sendThrough ctx urls = s ∨ s.sendThrough ctx urls = { s with native := s.native ++ [ctx] } ∨
      ∃ key url, s.toIntercept key ≠ none ∧ s.sendThrough ctx urls = s.capture key ⟨ctx, url⟩ := by
  induction urls with
  | nil => exact .inr (.inl rfl)
  | cons url below ih =>
    rw [sendThrough]
    split_ifs
    · cases UrlProcessor.index url with
      | none => exact .inl rfl
      | some key =>
        dsimp only
        split_ifs with hentry
        · exact .inr (.inr ⟨key, url, hentry, rfl⟩)
        · exact ih
    · exact ih

end Interceptor
end Dash
end LiveStream
