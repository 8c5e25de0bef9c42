import LiveStream.Dash.Bypass

/-!
# Every intercepted request is delivered once

The player's request for a segment meets the response of the long poll in the two maps of the
interceptor. What a call of `send` is for is read off the calls made before it: the urls its object
was opened with, the bypasses set and the segments announced. The interceptor keeps these in its
dictionaries and in the chain of overrides on the object.

* `sends_past` and `announced_iff`, the interceptor's state is what the calls so far say;
* `Meeting`, what happens on one key: two sides meet, whichever order they come in;
* `meeting_step` and `meeting_run`, the interceptor seen from any one key is such a meeting,
  whatever happens on the others;
* `delivered_once`, each paired key is delivered exactly once, to its own request.
-/

namespace LiveStream
namespace Dash
namespace Interceptor

open Lib

variable {X C : Type*}

/-! ## What a `send` is for

The calls made so far are listed newest first. -/

/-- The event announces the key. -/
def announces (key : Key) : Event X C → Bool
  | .intercept k => k = key
  | _ => false

/-- An `open` of the url takes a bypass: its segment was opened before, and a bypass was set. -/
def bypassed (past : List (Event X C)) (url : String) : Bool :=
  match if isHeader url then none else segmentKey url with
  | none => false
  | some key => past.any (opens key) && past.any (setsBypass key)

/-- The urls the object was opened with other than through a bypass. -/
def openedWith [DecidableEq X] (ctx : X) : List (Event X C) → List String
  | [] => []
  | .openRequest c url :: past =>
    -- a bypassed `open` leaves the object with the `send` it has
    if c = ctx ∧ ¬bypassed past url then url :: openedWith ctx past else openedWith ctx past
  | _ :: past => openedWith ctx past

/-- The segment that a call passed on from url to url is stopped at: the first that was
announced. -/
def stop (past : List (Event X C)) (ctx : X) : List String → Option (Key × Context X)
  | [] => none
  | url :: earlier =>
    if isSegment url then
      match UrlProcessor.index url with
      -- without an index the override neither delivers nor passes the call on
      | none => none
      | some key =>
        if past.any (announces key) then some (key, ⟨ctx, url⟩) else stop past ctx earlier
    else stop past ctx earlier

/-- The call of `send` is one for `key`: the object was last opened for it. If the object was last
opened for something that is not intercepted, the call counts for what it was used for before. -/
def playerSend [DecidableEq X] (past : List (Event X C)) (key : Key) (ctx : X) :
    Option (Context X) :=
  match openedWith ctx past with
  | [] => none
  | url :: earlier =>
    -- announced or not: a send before the announcement is one for the key as well
    if segmentKey url = some key then some ⟨ctx, url⟩
    else (stop past ctx (url :: earlier)).bind fun r => if r.1 = key then some r.2 else none

/-- What an event can mean for a key. -/
inductive Move (X C : Type*) where
  | intercept
  | send (context : Context X)
  | register (callback : C)
deriving DecidableEq

/-- What the event means for the key after the calls `past`. -/
def moveOf [DecidableEq X] (key : Key) (past : List (Event X C)) : Event X C → Option (Move X C)
  | .intercept k => if k = key then some .intercept else none
  | .onIntercept k callback => if k = key then some (.register callback) else none
  | .setBypass _ => none
  | .openRequest _ _ => none
  | .send ctx => (playerSend past key ctx).map .send

/-- The moves on a key along a run. -/
def moves [DecidableEq X] (key : Key) : List (Event X C) → List (Event X C) → List (Move X C)
  | _, [] => []
  | past, e :: events => (moveOf key past e).toList ++ moves key (e :: past) events

/-! ## One key -/

/-- What the interceptor knows of one key, with the calls of the key's callbacks. -/
structure Meeting (X C : Type*) where
  entry : Option (Entry X)
  callback : Option C
  calls : List (C × Context X)

/-- The meeting of a request with a response. Whichever comes second makes the call. -/
def Meeting.step (m : Meeting X C) : Move X C → Meeting X C
  | .intercept => { m with entry := some .null }
  | .send context =>
    if m.entry = none then m
    else ⟨some (.object context), m.callback, m.calls ++ m.callback.toList.map (·, context)⟩
  | .register callback =>
    ⟨m.entry, some callback, match m.entry with
      | some (.object context) => m.calls ++ [(callback, context)]
      | some .null | none => m.calls⟩

/-- The calls of the callbacks of a key. -/
def calls (s : Interceptor X C) (key : Key) : List (C × Context X) :=
  (s.invoked.filter (·.1 = key)).map (·.2)

def meeting (s : Interceptor X C) (key : Key) : Meeting X C :=
  ⟨s.toIntercept key, s.onIntercept key, s.calls key⟩

variable {s : Interceptor X C} {key : Key}

theorem meeting_intercept (s : Interceptor X C) (k : Key) :
    (s.intercept k).meeting key
      = if k = key then (s.meeting key).step .intercept else s.meeting key := by
  split
  · next h =>
    subst h
    simp [meeting, intercept, Meeting.step, calls]
  · next h => simp [meeting, intercept, calls, Function.update_of_ne (Ne.symm h)]

theorem meeting_registerCallback (s : Interceptor X C) (k : Key) (callback : C) :
    (s.registerCallback k callback).meeting key
      = if k = key then (s.meeting key).step (.register callback) else s.meeting key := by
  unfold registerCallback
  split
  · next h =>
    subst h
    dsimp only
    split <;> next hentry =>
      simp [meeting, Meeting.step, hentry, invoke, calls]
  · next h =>
    have hne : key ≠ k := Ne.symm h
    dsimp only
    split <;> simp [meeting, invoke, h, Function.update_of_ne hne, calls]

theorem meeting_capture {k : Key} (context : Context X) (hentry : s.toIntercept k ≠ none) :
    (s.capture k context).meeting key
      = if k = key then (s.meeting key).step (.send context) else s.meeting key := by
  unfold capture
  split
  · next h =>
    subst h
    dsimp only
    split <;> next hcallback =>
      simp [meeting, Meeting.step, hentry, hcallback, invoke, calls]
  · next h =>
    have hne : key ≠ k := Ne.symm h
    dsimp only
    split <;> simp [meeting, invoke, h, Function.update_of_ne hne, calls]

theorem meeting_newXHROpen [DecidableEq X] (s : Interceptor X C) (ctx : X) (url : String) :
    (s.newXHROpen ctx url).meeting key = s.meeting key := by
  unfold newXHROpen
  split
  · rfl
  · split
    · rfl
    · split <;> rfl

/-- The key was announced first, and then had at most one send and one callback, in either
order. -/
inductive Paired : List (Move X C) → Prop where
  | announced : Paired [.intercept]
  | sent (context : Context X) : Paired [.intercept, .send context]
  | registered (callback : C) : Paired [.intercept, .register callback]
  | sentFirst (context : Context X) (callback : C) :
    Paired [.intercept, .send context, .register callback]
  | registeredFirst (context : Context X) (callback : C) :
    Paired [.intercept, .register callback, .send context]

theorem Paired.exists_cons {ms : List (Move X C)} (h : Paired ms) :
    ∃ rest, ms = .intercept :: rest := by
  cases h <;> exact ⟨_, rfl⟩

/-- An announced key stays one that is to be intercepted. -/
theorem entry_ne_none (m : Meeting X C) (ms : List (Move X C)) :
    (run Meeting.step m (.intercept :: ms)).entry ≠ none := by
  rw [run_cons]
  refine run_invariant (P := fun m : Meeting X C => m.entry ≠ none) ?_ ?_
  · simp [Meeting.step]
  · intro m hm move _
    cases move with
    | intercept => simp [Meeting.step]
    | send context => simp [Meeting.step, hm]
    | register callback => exact hm

/-- The calls of a paired key: one if both sides have come, and else none. -/
theorem calls_of_paired {ms : List (Move X C)} (h : Paired ms) :
    (∀ callback context, .register callback ∈ ms → .send context ∈ ms →
        (run Meeting.step ⟨none, none, []⟩ ms).calls = [(callback, context)])
      ∧ ((∀ callback, .register callback ∉ ms) ∨ (∀ context, .send context ∉ ms) →
        (run Meeting.step ⟨none, none, []⟩ ms).calls = []) := by
  cases h <;> simp [Meeting.step]

/-! ## The interceptor's own account of the calls -/

variable {past : List (Event X C)} [DecidableEq X]

theorem after_reverse_cons (e : Event X C) (past : List (Event X C)) :
    after (e :: past).reverse = (after past.reverse).step e := by
  rw [List.reverse_cons, after, run_concat]
  rfl

omit [DecidableEq X] in
/-- A call is captured only for a key that has an entry, so that it gives no other key one. -/
theorem toIntercept_sendThrough (ctx : X) (urls : List String) :
    (s.sendThrough ctx urls).toIntercept key ≠ none ↔ s.toIntercept key ≠ none := by
  rcases s.sendThrough_cases ctx urls with h | h | ⟨k, url, hentry, h⟩
  · rw [h]
  · rw [h]
  · have hcapture : (s.capture k ⟨ctx, url⟩).toIntercept
        = Function.update s.toIntercept k (some (.object ⟨ctx, url⟩)) := by
      unfold capture
      dsimp only
      split <;> rfl
    rw [h, hcapture]
    by_cases hk : key = k
    · subst hk
      simp [hentry]
    · rw [Function.update_of_ne hk]

/-- `_toIntercept` has an entry for the keys that were announced. -/
theorem announced_iff (past : List (Event X C)) :
    (after past.reverse).toIntercept key ≠ none ↔ past.any (announces key) = true := by
  have hrun : (after past.reverse).toIntercept key ≠ none ↔
      ∃ e ∈ past.reverse, announces key e = true := by
    -- an entry may change from null to an object, but no event takes it away
    apply run_iff_exists_mem (P := fun s : Interceptor X C => s.toIntercept key ≠ none)
    · simp [init]
    · intro s e
      cases e with
      | intercept k =>
        by_cases hk : k = key
        · simp [step, intercept, announces, hk]
        · simp [step, intercept, announces, hk, Function.update_of_ne (Ne.symm hk)]
      | onIntercept k callback =>
        have hframe : (s.registerCallback k callback).toIntercept = s.toIntercept := by
          rw [registerCallback]
          dsimp only
          split <;> rfl
        simp [step, hframe, announces]
      | setBypass k => simp [step, setBypass, announces]
      | openRequest ctx url =>
        have hframe : (s.newXHROpen ctx url).toIntercept key = s.toIntercept key :=
          congrArg Meeting.entry (s.meeting_newXHROpen ctx url)
        simp [step, hframe, announces]
      | send ctx =>
        rw [step, toIntercept_sendThrough]
        simp [announces]
  rw [hrun, List.any_eq_true]
  simp only [List.mem_reverse]

theorem sends_newXHROpen (c ctx : X) (url : String) :
    (s.newXHROpen c url).sends ctx
      = if c = ctx ∧ ¬∃ k, (if isHeader url then none else segmentKey url) = some k ∧
          s.done k ≠ none ∧ s.bypass k = true
        then url :: s.sends ctx else s.sends ctx := by
  have hoverride : ∀ t : Interceptor X C, (t.override c url).sends ctx
      = if c = ctx then url :: t.sends ctx else t.sends ctx := by
    intro t
    by_cases hc : c = ctx
    · subst hc
      simp [override]
    · simp [override, hc, Function.update_of_ne (Ne.symm hc)]
  rw [newXHROpen]
  cases hkey : (if isHeader url then none else segmentKey url) with
  | none => simp [hoverride]
  | some k =>
    cases hdone : s.done k with
    | none => simp [hoverride, request, hdone]
    | some url' =>
      by_cases hbypass : s.bypass k = true
      · simp [request, hdone, hbypass]
      · simp [hoverride, hdone, hbypass]

theorem bypassed_iff (past : List (Event X C)) (url : String) :
    bypassed past url = true ↔
      ∃ k, (if isHeader url then none else segmentKey url) = some k ∧
        (after past.reverse).done k ≠ none ∧ (after past.reverse).bypass k = true := by
  rw [bypassed]
  cases (if isHeader url then none else segmentKey url) with
  | none => simp
  | some k =>
    rw [Bool.and_eq_true, List.any_eq_true, List.any_eq_true]
    simp only [Option.some.injEq, exists_eq_left', done_run, bypass_run, List.mem_reverse]

/-- The overrides on an object are for the urls it was opened with. -/
theorem sends_past (past : List (Event X C)) (ctx : X) :
    (after past.reverse).sends ctx = openedWith ctx past := by
  induction past with
  | nil => rfl
  | cons e past ih =>
    rw [after_reverse_cons]
    cases e with
    | openRequest c url =>
      rw [step, sends_newXHROpen, openedWith, ih]
      simp only [bypassed_iff]
    | intercept k => exact ih
    | onIntercept k callback =>
      exact (congrFun (frame_registerCallback k callback).2.2 ctx).trans ih
    | setBypass k => exact ih
    | send c => exact (congrFun (frame_sendThrough c _).2.2 ctx).trans ih

/-! ## The sends of a key -/

omit [DecidableEq X] in
/-- A call is captured where `stop` says, and else nothing is delivered. -/
theorem sendThrough_of_stop (key : Key)
    (hannounced : ∀ k, s.toIntercept k ≠ none ↔ past.any (announces k) = true) (ctx : X)
    (urls : List String) :
    match stop past ctx urls with
    | some (k, context) => s.sendThrough ctx urls = s.capture k context ∧ s.toIntercept k ≠ none
    | none => (s.sendThrough ctx urls).meeting key = s.meeting key := by
  induction urls with
  | nil => rfl
  | cons url earlier ih =>
    unfold stop sendThrough
    split_ifs
    · cases UrlProcessor.index url with
      | none => rfl
      | some k =>
        by_cases hentry : s.toIntercept k ≠ none
        · have hany := (hannounced k).mp hentry
          simp only [hany, if_true]
          exact ⟨if_pos hentry, hentry⟩
        · have hany : ¬past.any (announces k) = true := fun h => hentry ((hannounced k).mpr h)
          simp only [hany, hentry, if_false]
          exact ih
    · exact ih

omit [DecidableEq X] in
/-- A call of `send` concerns the key it is captured for. -/
theorem meeting_sendThrough
    (hannounced : ∀ k, s.toIntercept k ≠ none ↔ past.any (announces k) = true) (ctx : X)
    (urls : List String) :
    (s.sendThrough ctx urls).meeting key
      = match stop past ctx urls with
        | some (k, context) =>
          if k = key then (s.meeting key).step (.send context) else s.meeting key
        | none => s.meeting key := by
  have hstop := sendThrough_of_stop key hannounced ctx urls
  cases hs : stop past ctx urls with
  | none =>
    rw [hs] at hstop
    exact hstop
  | some r =>
    rw [hs] at hstop
    rw [hstop.1]
    exact meeting_capture r.2 hstop.2

/-- While the key is to be intercepted, its sends are exactly the calls that stop at it. -/
theorem playerSend_eq {ctx : X} (hkey : past.any (announces key) = true) :
    playerSend past key ctx
      = (stop past ctx (openedWith ctx past)).bind fun r =>
          if r.1 = key then some r.2 else none := by
  unfold playerSend
  cases openedWith ctx past with
  | nil => rfl
  | cons url earlier =>
    by_cases htop : segmentKey url = some key
    · -- the call stops at its first url, since the key was announced
      have hsegment : isSegment url := by
        unfold segmentKey at htop
        by_contra h
        simp [h] at htop
      rw [segmentKey, if_pos hsegment] at htop
      simp [segmentKey, stop, hsegment, htop, hkey]
    · simp only [htop, if_false]

theorem meeting_send (past : List (Event X C)) (ctx : X) :
    (after (.send ctx :: past).reverse).meeting key
      = (((playerSend past key ctx).map Move.send).map ((after past.reverse).meeting key).step).getD
          ((after past.reverse).meeting key) := by
  rw [after_reverse_cons, step, sends_past, meeting_sendThrough fun k => announced_iff past]
  by_cases hkey : past.any (announces key) = true
  · rw [playerSend_eq hkey]
    cases stop past ctx (openedWith ctx past) with
    | none => rfl
    | some r =>
      rw [Option.bind_some]
      by_cases hk : r.1 = key
      · rw [if_pos hk]
        exact if_pos hk
      · rw [if_neg hk]
        exact if_neg hk
  · -- a send for a key that is not to be intercepted leaves the key alone
    have hentry : (after past.reverse).toIntercept key = none := by
      by_contra hne
      exact hkey ((announced_iff past).mp hne)
    have hkeep : ∀ context, ((after past.reverse).meeting key).step (.send context)
        = (after past.reverse).meeting key := by
      intro context
      simp [Meeting.step, meeting, hentry]
    simp only [hkeep, ite_self]
    cases playerSend past key ctx with
    | none => split <;> rfl
    | some context =>
      rw [Option.map_some, Option.map_some, Option.getD_some, hkeep]
      split <;> rfl

/-- **Step lemma.** What an event does to a key is its move on the key. -/
theorem meeting_step (past : List (Event X C)) (e : Event X C) :
    (after (e :: past).reverse).meeting key
      = ((moveOf key past e).map ((after past.reverse).meeting key).step).getD
          ((after past.reverse).meeting key) := by
  cases e with
  | intercept k =>
    rw [after_reverse_cons, moveOf, step, meeting_intercept]
    split <;> rfl
  | onIntercept k callback =>
    rw [after_reverse_cons, moveOf, step, meeting_registerCallback]
    split <;> rfl
  | setBypass k => rw [after_reverse_cons]; rfl
  | openRequest ctx url =>
    rw [after_reverse_cons]
    exact meeting_newXHROpen _ ctx url
  | send ctx => exact meeting_send past ctx

/-- **Run lemma.** The interceptor, seen from one key, is the meeting of the key's moves. -/
theorem meeting_run (key : Key) (past events : List (Event X C)) :
    (run step (after past.reverse) events).meeting key
      = run Meeting.step ((after past.reverse).meeting key) (moves key past events) := by
  -- each event joins the past of those after it
  induction events generalizing past with
  | nil => rfl
  | cons e events ih =>
    rw [run_cons, ← after_reverse_cons, ih, moves, run_append, meeting_step]
    cases moveOf key past e <;> rfl

theorem moves_append (past events fs : List (Event X C)) :
    moves key past (events ++ fs) =
      moves key past events ++ moves key (events.reverse ++ past) fs := by
  induction events generalizing past with
  | nil => rfl
  | cons e events ih =>
    simp only [List.cons_append, moves, ih, List.append_assoc, List.reverse_cons, List.nil_append]

theorem mem_openedWith {ctx : X} {url : String} (h : url ∈ openedWith ctx past) :
    .openRequest ctx url ∈ past := by
  induction past with
  | nil => exact absurd h List.not_mem_nil
  | cons e past ih =>
    unfold openedWith at h
    split at h
    · cases ‹_ = _›
    · next c u _ heq =>
      obtain ⟨rfl, rfl⟩ := List.cons.inj heq
      split_ifs at h with hopen
      · rcases List.mem_cons.mp h with rfl | h
        · rw [hopen.1]
          exact List.mem_cons_self ..
        · exact List.mem_cons_of_mem _ (ih h)
      · exact List.mem_cons_of_mem _ (ih h)
    · next heq =>
      obtain ⟨rfl, rfl⟩ := List.cons.inj heq
      exact List.mem_cons_of_mem _ (ih h)

/-! ## Exactly one delivery -/

omit [DecidableEq X] in
/-- A call stops at one of the urls it is passed on to, which is one of the key's segment. -/
theorem stop_context {ctx : X} {context : Context X} {urls : List String}
    (h : stop past ctx urls = some (key, context)) :
    context.ctx = ctx ∧ context.url ∈ urls ∧ segmentKey context.url = some key := by
  induction urls with
  | nil => simp [stop] at h
  | cons url earlier ih =>
    -- where the call does not stop at the first url, it is one for the others
    have hearlier (h : stop past ctx earlier = some (key, context)) :
        context.ctx = ctx ∧ context.url ∈ url :: earlier ∧ segmentKey context.url = some key := by
      obtain ⟨hctx, hurl, hkey⟩ := ih h
      exact ⟨hctx, List.mem_cons_of_mem _ hurl, hkey⟩
    unfold stop at h
    split_ifs at h with hsegment
    · split at h
      · simp at h
      · next k hk =>
        split_ifs at h with hannounced
        · obtain ⟨rfl, rfl⟩ := Prod.mk.inj (Option.some.inj h)
          exact ⟨rfl, List.mem_cons_self .., by rw [segmentKey, if_pos hsegment, hk]⟩
        · exact hearlier h
    · exact hearlier h

/-- The context of a send is the request object with a url it was opened with for the key. -/
theorem playerSend_context {ctx : X} {context : Context X}
    (h : playerSend past key ctx = some context) :
    context.ctx = ctx ∧ .openRequest ctx context.url ∈ past ∧
      segmentKey context.url = some key := by
  suffices hopened : context.ctx = ctx ∧ context.url ∈ openedWith ctx past ∧
      segmentKey context.url = some key from
    ⟨hopened.1, mem_openedWith hopened.2.1, hopened.2.2⟩
  unfold playerSend at h
  split at h
  · simp at h
  · next url earlier hurls =>
    rw [hurls]
    split_ifs at h with htop
    · obtain rfl := Option.some.inj h
      exact ⟨rfl, List.mem_cons_self .., htop⟩
    · obtain ⟨⟨k, c⟩, hr, hk⟩ := Option.bind_eq_some_iff.mp h
      dsimp only at hk
      split_ifs at hk with hkey
      obtain rfl := Option.some.inj hk
      subst hkey
      exact stop_context hr

/-- A send for a key that is to be intercepted does not get through to the native one. -/
theorem native_send {ctx : X} {context : Context X} (hkey : past.any (announces key) = true)
    (hsend : playerSend past key ctx = some context) :
    (after (.send ctx :: past).reverse).native = (after past.reverse).native := by
  have hstop := sendThrough_of_stop key (fun k => announced_iff past) ctx (openedWith ctx past)
  rw [playerSend_eq hkey] at hsend
  obtain ⟨r, hr, -⟩ := Option.bind_eq_some_iff.mp hsend
  rw [hr] at hstop
  rw [after_reverse_cons, step, sends_past, hstop.1]
  unfold capture
  dsimp only
  split <;> rfl

theorem openedWith_append {ctx : X} {mid : List (Event X C)}
    (h : ∀ url, .openRequest ctx url ∉ mid) :
    openedWith ctx (mid ++ past) = openedWith ctx past := by
  induction mid with
  | nil => rfl
  | cons e mid ih =>
    have hmid := ih fun url hurl => h url (List.mem_cons_of_mem _ hurl)
    cases e with
    | openRequest c url =>
      have hc : c ≠ ctx := fun hc => h url (hc ▸ List.mem_cons_self ..)
      rw [List.cons_append, openedWith, if_neg fun hopen => hc hopen.1]
      exact hmid
    | _ => exact hmid

/-- The send of an object that was last opened for the key, and not through a bypass, is one for
the key. -/
theorem playerSend_of_opened {ctx : X} {url : String} {mid : List (Event X C)}
    (hkey : segmentKey url = some key) (hlast : ∀ u, .openRequest ctx u ∉ mid)
    (hbypass : bypassed past url = false) :
    playerSend (mid ++ .openRequest ctx url :: past) key ctx = some ⟨ctx, url⟩ := by
  have hopened : openedWith ctx (mid ++ .openRequest ctx url :: past)
      = url :: openedWith ctx past := by
    rw [openedWith_append hlast, openedWith, if_pos ⟨rfl, by simp [hbypass]⟩]
  rw [playerSend, hopened]
  exact if_pos hkey

/-- Where a call of `send` is one for the key, it is a move on the key. -/
theorem moves_send {ctx : X} {context : Context X} (pre post : List (Event X C))
    (hsend : playerSend pre.reverse key ctx = some context) :
    moves key [] (pre ++ .send ctx :: post)
      = moves key [] pre ++ .send context :: moves key (.send ctx :: pre.reverse) post := by
  rw [moves_append, List.append_nil, moves, moveOf, hsend]
  rfl

/-- A send for a key whose first move is the announcement comes after it. -/
theorem announced_of_send {ctx : X} {context : Context X} {pre post : List (Event X C)}
    (h : Paired (moves key [] (pre ++ .send ctx :: post)))
    (hsend : playerSend pre.reverse key ctx = some context) :
    pre.reverse.any (announces key) = true := by
  obtain ⟨rest, hrest⟩ := h.exists_cons
  rw [moves_send pre post hsend] at hrest
  cases hpre : moves key [] pre with
  | nil => simp [hpre] at hrest
  | cons m ms =>
    rw [hpre] at hrest
    obtain ⟨rfl, -⟩ := List.cons.inj hrest
    have hmeeting := congrArg Meeting.entry (meeting_run key [] pre)
    rw [hpre] at hmeeting
    apply (announced_iff pre.reverse).mp
    rw [List.reverse_reverse]
    exact fun hnone => entry_ne_none _ ms (hmeeting.symm.trans hnone)

/-- For every run of any calls on any keys, and every key that is announced first and then
has at most one send and at most one callback: the callback is called exactly once if both
have happened and else not at all, with the context of the key's own send, and that send
does not reach the native one. The sends of an object that was last opened for the key, and not
through a bypass, are all among them. -/
theorem delivered_once (events : List (Event X C)) (key : Key) (h : Paired (moves key [] events)) :
    (∀ callback context, .register callback ∈ moves key [] events →
        .send context ∈ moves key [] events → (after events).calls key = [(callback, context)])
      ∧ ((∀ callback, .register callback ∉ moves key [] events)
          ∨ (∀ context, .send context ∉ moves key [] events) → (after events).calls key = [])
      ∧ (∀ pre ctx post context, events = pre ++ .send ctx :: post →
        playerSend pre.reverse key ctx = some context →
          context.ctx = ctx ∧ .openRequest ctx context.url ∈ pre
            ∧ segmentKey context.url = some key
            ∧ (after (pre ++ [.send ctx])).native = (after pre).native)
      ∧ ∀ pre ctx url mid post,
        events = pre ++ .openRequest ctx url :: (mid ++ .send ctx :: post) →
          segmentKey url = some key → (∀ u, .openRequest ctx u ∉ mid) →
            bypassed pre.reverse url = false → .send ⟨ctx, url⟩ ∈ moves key [] events := by
  have hcalls : (after events).calls key
      = (run Meeting.step ⟨none, none, []⟩ (moves key [] events)).calls :=
    congrArg Meeting.calls (meeting_run key [] events)
  obtain ⟨hboth, hnone⟩ := calls_of_paired h
  refine ⟨fun callback context hc hs => hcalls.trans (hboth callback context hc hs),
    fun hmissing => hcalls.trans (hnone hmissing), ?_, ?_⟩
  · rintro pre ctx post context rfl hsend
    obtain ⟨hctx, hurl, hkey⟩ := playerSend_context hsend
    refine ⟨hctx, List.mem_reverse.mp hurl, hkey, ?_⟩
    have hnative := native_send (announced_of_send h hsend) hsend
    rwa [List.reverse_cons, List.reverse_reverse] at hnative
  · rintro pre ctx url mid post rfl hkey hlast hbypass
    have hsend : playerSend (pre ++ .openRequest ctx url :: mid).reverse key ctx
        = some ⟨ctx, url⟩ := by
      rw [List.reverse_append, List.reverse_cons, List.append_assoc]
      exact playerSend_of_opened hkey (fun u hu => hlast u (List.mem_reverse.mp hu)) hbypass
    have hmoves := moves_send (pre ++ .openRequest ctx url :: mid) post hsend
    rw [List.append_assoc, List.cons_append] at hmoves
    rw [hmoves]
    exact List.mem_append_right _ (List.mem_cons_self ..)

/-- Two segments, whose requests and responses arrive in opposite orders. -/
def crossing : List (Event ℕ ℕ) :=
  [.intercept (.number 1), .intercept (.number 2), .openRequest 10 "http://host/video0/1.m4s",
    .openRequest 20 "http://host/video0/2.m4s", .send 10, .onIntercept (.number 2) 200,
    .onIntercept (.number 1) 100, .send 20]

theorem moves_crossing : moves (.number 1) [] crossing
    = [.intercept, .send ⟨10, "http://host/video0/1.m4s"⟩, .register 100] := by
  decide +kernel

theorem delivered_once_crossing :
    (after crossing).calls (.number 1) = [(100, ⟨10, "http://host/video0/1.m4s"⟩)] :=
  (delivered_once crossing (.number 1) (moves_crossing ▸ .sentFirst _ _)).1 100 _
    (by simp [moves_crossing]) (by simp [moves_crossing])

end Interceptor
end Dash
end LiveStream
