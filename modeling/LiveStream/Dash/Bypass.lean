import LiveStream.Dash.Interceptor

/-!
# How often a bypass is taken

`setBypass` of the interceptor lets the player's next request for an aborted segment through:
the request keeps its native `send`, and `_onRequest` is called once more. The index stays in
the set of bypasses from then on.

* `bypassTaken_iff`, when an `open` takes the bypass;
* `done_run` and `bypass_run`, what the two dictionaries say of the history;
* `bypass_once`, when no more requests take the bypass than bypasses were set.
-/

namespace LiveStream
namespace Dash
namespace Interceptor

open Lib

variable {X C : Type*}

/-! ## Opens and bypasses of a key -/

/-- The event is an `open` for the key. -/
def opens (key : Key) : Event X C → Bool
  | .openRequest _ url => (if isHeader url then none else segmentKey url) = some key
  | _ => false

/-- The event is a call of `setBypass` for the key. -/
def setsBypass (key : Key) : Event X C → Bool
  | .setBypass k => k = key
  | _ => false

/-- The `open` takes the bypass: the object keeps the `send` it has, and `_onRequest` is
called. -/
def bypassTaken [DecidableEq X] (key : Key) (s : Interceptor X C) : Event X C → Bool
  | .openRequest ctx url =>
    opens key (.openRequest ctx url : Event X C) ∧
      (s.newXHROpen ctx url).sends ctx = s.sends ctx ∧
      (s.newXHROpen ctx url).requested = s.requested ++ [(ctx, key)]
  | _ => false

/-- How many `open`s of the key take the bypass along a run. -/
def bypassOpens [DecidableEq X] (key : Key) : Interceptor X C → List (Event X C) → ℕ
  | _, [] => 0
  | s, e :: events => (bypassTaken key s e).toNat + bypassOpens key (s.step e) events

/-- The number of calls of `setBypass` for the key. -/
def bypassCalls (key : Key) (events : List (Event X C)) : ℕ := events.countP (setsBypass key)

variable [DecidableEq X] {s : Interceptor X C} {key : Key}

theorem bypassOpens_concat (s : Interceptor X C) (events : List (Event X C)) (e : Event X C) :
    bypassOpens key s (events ++ [e])
      = bypassOpens key s events + (bypassTaken key (run step s events) e).toNat := by
  induction events generalizing s with
  | nil => simp [bypassOpens]
  | cons f events ih => rw [List.cons_append, bypassOpens, ih, bypassOpens, run_cons, add_assoc]

/-! ## What an event does to a key -/

/-- An `open` takes the bypass of its key if the key was requested and is in the set. -/
theorem bypassTaken_iff (e : Event X C) :
    bypassTaken key s e = true ↔ opens key e = true ∧ s.done key ≠ none ∧ s.bypass key = true := by
  cases e with
  | openRequest ctx url =>
    simp only [bypassTaken, decide_eq_true_eq]
    refine and_congr_right fun hopen => ?_
    have hkey : (if isHeader url then none else segmentKey url) = some key := by
      simpa [opens] using hopen
    rw [newXHROpen, hkey]
    dsimp only
    cases hdone : s.done key with
    | none => simp [override, request]
    | some url' =>
      by_cases hbypass : s.bypass key = true
      · simp [hbypass, request]
      · simp [hbypass, override]
  | _ => simp [bypassTaken, opens]

theorem done_newXHROpen (ctx : X) (url : String) :
    (s.newXHROpen ctx url).done key ≠ none ↔
      s.done key ≠ none ∨ opens key (.openRequest ctx url : Event X C) = true := by
  rw [newXHROpen]
  simp only [opens, decide_eq_true_eq]
  cases hkey : (if isHeader url then none else segmentKey url) with
  | none => simp [override]
  | some k =>
    simp only [Option.some.injEq]
    -- a key that was not requested is requested now, the others stay as they are
    by_cases hk : k = key
    · subst hk
      cases hdone : s.done k with
      | none => simp [override, request]
      | some url' =>
        dsimp only
        split <;> simp [override, request, hdone]
    · cases hdone : s.done k with
      | none => simp [override, request, hk, Function.update_of_ne (Ne.symm hk)]
      | some url' =>
        dsimp only
        split <;> simp [override, request, hk, Function.update_of_ne (Ne.symm hk)]

theorem bypass_newXHROpen (ctx : X) (url : String) : (s.newXHROpen ctx url).bypass = s.bypass := by
  rw [newXHROpen]
  split
  · rfl
  · split
    · rfl
    · split <;> rfl

omit [DecidableEq X] in
/-- A call of `send` leaves the dictionaries of `open` and the overrides as they are. -/
theorem frame_sendThrough (ctx : X) (urls : List String) :
    (s.sendThrough ctx urls).done = s.done ∧ (s.sendThrough ctx urls).bypass = s.bypass ∧
      (s.sendThrough ctx urls).sends = s.sends := by
  rcases s.sendThrough_cases ctx urls with h | h | ⟨k, url, -, h⟩
  · rw [h]
    exact ⟨rfl, rfl, rfl⟩
  · rw [h]
    exact ⟨rfl, rfl, rfl⟩
  · rw [h, capture]
    dsimp only
    split <;> exact ⟨rfl, rfl, rfl⟩

omit [DecidableEq X] in
theorem frame_registerCallback (k : Key) (callback : C) :
    (s.registerCallback k callback).done = s.done ∧
      (s.registerCallback k callback).bypass = s.bypass ∧
      (s.registerCallback k callback).sends = s.sends := by
  rw [registerCallback]
  dsimp only
  split <;> exact ⟨rfl, rfl, rfl⟩

theorem done_step (e : Event X C) :
    (s.step e).done key ≠ none ↔ s.done key ≠ none ∨ opens key e = true := by
  cases e with
  | openRequest ctx url => exact done_newXHROpen ctx url
  | onIntercept k callback => simp [step, frame_registerCallback, opens]
  | send ctx => simp [step, frame_sendThrough, opens]
  | intercept k => simp [step, intercept, opens]
  | setBypass k => simp [step, setBypass, opens]

theorem bypass_step (e : Event X C) :
    (s.step e).bypass key = true ↔ s.bypass key = true ∨ setsBypass key e = true := by
  cases e with
  | openRequest ctx url => simp [step, bypass_newXHROpen, setsBypass]
  | onIntercept k callback => simp [step, frame_registerCallback, setsBypass]
  | send ctx => simp [step, frame_sendThrough, setsBypass]
  | intercept k => simp [step, intercept, setsBypass]
  | setBypass k =>
    simp only [step, setBypass, setsBypass, decide_eq_true_eq]
    by_cases hk : k = key
    · simp [hk]
    · simp [hk, Function.update_of_ne (Ne.symm hk)]

/-- `_done` has the keys that were opened. -/
theorem done_run (events : List (Event X C)) :
    (after events).done key ≠ none ↔ ∃ e ∈ events, opens key e = true := by
  apply run_iff_exists_mem (P := fun s : Interceptor X C => s.done key ≠ none)
  · simp [init]
  · intro s e
    exact done_step e

/-- `_bypass` has the keys a bypass was ever set for. -/
theorem bypass_run (events : List (Event X C)) :
    (after events).bypass key = true ↔ ∃ e ∈ events, setsBypass key e = true := by
  apply run_iff_exists_mem (P := fun s : Interceptor X C => s.bypass key = true)
  · simp [init]
  · intro s e
    exact bypass_step e

/-! ## Fresh bypasses -/

/-- A bypass of the key was set since the key was last opened. -/
def Fresh (key : Key) (past : List (Event X C)) : Prop :=
  ∃ pre e post, past = pre ++ e :: post ∧ setsBypass key e = true ∧
    ∀ f ∈ post, opens key f = false

/-- If a key that was opened, and a bypass of which was set, is opened again, a bypass was set
since it was last opened. -/
def Renewed (key : Key) (past : List (Event X C)) (e : Event X C) : Prop :=
  opens key e = true → (∃ f ∈ past, opens key f = true) → (∃ f ∈ past, setsBypass key f = true) →
    Fresh key past

/-- Every `open` of the run is one that `Renewed` allows. -/
def AlwaysRenewed (key : Key) (events : List (Event X C)) : Prop :=
  ∀ pre e post, events = pre ++ e :: post → Renewed key pre e

omit [DecidableEq X] in
theorem alwaysRenewed_concat {events : List (Event X C)} {e : Event X C} :
    AlwaysRenewed key (events ++ [e]) ↔ AlwaysRenewed key events ∧ Renewed key events e := by
  constructor
  · intro h
    exact ⟨fun pre f post heq => h pre f (post ++ [e]) (by simp [heq]), h events e [] rfl⟩
  · rintro ⟨h, he⟩ pre f post heq
    cases post using List.reverseRecOn with
    | nil =>
      have hef : [e] = [f] := List.append_inj_right' heq rfl
      rw [← List.singleton_inj.mp hef, ← List.append_inj_left' heq rfl]
      exact he
    | append_singleton post g =>
      rw [← List.cons_append, ← List.append_assoc] at heq
      exact h pre f post (List.append_inj_left' heq rfl)

omit [DecidableEq X] in
/-- A bypass is fresh from the moment it is set until the key is opened. -/
theorem fresh_concat {past : List (Event X C)} {e : Event X C} :
    Fresh key (past ++ [e]) ↔ setsBypass key e = true ∨ opens key e = false ∧ Fresh key past := by
  constructor
  · rintro ⟨pre, f, post, heq, hf, hpost⟩
    cases post using List.reverseRecOn with
    | nil =>
      have hef : [e] = [f] := List.append_inj_right' heq rfl
      rw [List.singleton_inj.mp hef]
      exact Or.inl hf
    | append_singleton post g =>
      rw [← List.cons_append, ← List.append_assoc] at heq
      have heg : [e] = [g] := List.append_inj_right' heq rfl
      have hpast : past = pre ++ f :: post := List.append_inj_left' heq rfl
      refine Or.inr ⟨?_, pre, f, post, hpast, hf, fun h hh => hpost h ?_⟩
      · rw [List.singleton_inj.mp heg]
        exact hpost g (List.mem_append_right _ (List.mem_singleton_self g))
      · exact List.mem_append_left _ hh
  · rintro (he | ⟨hopen, pre, f, post, rfl, hf, hpost⟩)
    · exact ⟨past, e, [], rfl, he, fun _ h => absurd h List.not_mem_nil⟩
    · refine ⟨pre, f, post ++ [e], by simp, hf, fun g hg => ?_⟩
      rcases List.mem_append.mp hg with hg | hg
      · exact hpost g hg
      · rw [List.mem_singleton.mp hg]
        exact hopen

omit [DecidableEq X] in
theorem opens_eq_false_of_setsBypass {e : Event X C} (he : setsBypass key e = true) :
    opens key e = false := by
  cases e <;> simp_all [setsBypass, opens]

omit [DecidableEq X] in
theorem bypassCalls_concat (events : List (Event X C)) (e : Event X C) :
    bypassCalls key (events ++ [e]) = bypassCalls key events + (setsBypass key e).toNat := by
  rw [bypassCalls, List.countP_append, List.countP_singleton, ← bypassCalls]
  cases setsBypass key e <;> rfl

/-- The bypasses of a key along a run: none is taken without a call of its own, and a fresh
one has not been taken yet. -/
theorem bypassOpens_le {events : List (Event X C)} (h : AlwaysRenewed key events) :
    bypassOpens key init events ≤ bypassCalls key events ∧
      (Fresh key events → bypassOpens key init events < bypassCalls key events) := by
  induction events using List.reverseRecOn with
  | nil =>
    refine ⟨le_refl _, ?_⟩
    rintro ⟨pre, e, post, heq, -⟩
    simp at heq
  | append_singleton events e ih =>
    obtain ⟨hevents, hrenewed⟩ := alwaysRenewed_concat.mp h
    obtain ⟨hle, hfresh⟩ := ih hevents
    rw [bypassOpens_concat, bypassCalls_concat, fresh_concat]
    by_cases htaken : bypassTaken key (run step init events) e = true
    · -- the open uses up a fresh bypass
      obtain ⟨hopen, hdone, hbypass⟩ := (bypassTaken_iff e).mp htaken
      have hlt : bypassOpens key init events < bypassCalls key events :=
        hfresh (hrenewed hopen ((done_run events).mp hdone) ((bypass_run events).mp hbypass))
      have hset : setsBypass key e = false := by
        by_contra hset
        rw [opens_eq_false_of_setsBypass (Bool.not_eq_false _ ▸ hset)] at hopen
        cases hopen
      rw [htaken, hset, hopen]
      refine ⟨?_, ?_⟩
      · show bypassOpens key init events + 1 ≤ bypassCalls key events + 0
        omega
      · rintro (hf | ⟨hf, -⟩) <;> cases hf
    · rw [Bool.not_eq_true] at htaken
      rw [htaken, Bool.toNat_false, add_zero]
      refine ⟨hle.trans (Nat.le_add_right _ _), ?_⟩
      rintro (hset | ⟨-, hf⟩)
      · rw [hset, Bool.toNat_true]
        omega
      · have hlt := hfresh hf
        omega

/-- **A bypass works once** if a key is opened again only after a new bypass: at every point of
the run no more `open`s have taken the bypass than calls of `setBypass` were made. -/
theorem bypass_once (key : Key) (events : List (Event X C)) (h : AlwaysRenewed key events)
    (pre : List (Event X C)) (hpre : pre <+: events) :
    bypassOpens key init pre ≤ bypassCalls key pre := by
  obtain ⟨rest, rfl⟩ := hpre
  exact (bypassOpens_le fun past e post heq => h past e (post ++ rest) (by simp [heq])).1

/-- A segment is requested, aborted with a bypass, and requested again. -/
def abortedOnce : List (Event ℕ ℕ) :=
  [.openRequest 10 "http://host/video0/1.m4s", .setBypass (.number 1),
    .openRequest 11 "http://host/video0/1.m4s"]

theorem bypass_once_aborted :
    bypassOpens (.number 1) init abortedOnce = 1 ∧
      bypassOpens (.number 1) init abortedOnce ≤ bypassCalls (.number 1) abortedOnce := by
  refine ⟨by decide +kernel, bypass_once (.number 1) abortedOnce ?_ abortedOnce List.prefix_rfl⟩
  have hfresh : Fresh (.number 1) ([.openRequest 10 "http://host/video0/1.m4s",
      .setBypass (.number 1)] : List (Event ℕ ℕ)) :=
    ⟨[.openRequest 10 "http://host/video0/1.m4s"], .setBypass (.number 1), [], rfl, rfl, by simp⟩
  have hfirst : AlwaysRenewed (.number 1)
      ([] ++ [.openRequest 10 "http://host/video0/1.m4s"] : List (Event ℕ ℕ)) := by
    refine alwaysRenewed_concat.mpr ⟨fun pre e post heq => ?_, ?_⟩
    · simp at heq
    · rintro - ⟨f, hf, -⟩
      exact absurd hf List.not_mem_nil
  have hsecond : AlwaysRenewed (.number 1) ([.openRequest 10 "http://host/video0/1.m4s"] ++
      [.setBypass (.number 1)] : List (Event ℕ ℕ)) := by
    refine alwaysRenewed_concat.mpr ⟨hfirst, fun hopen => ?_⟩
    cases hopen
  exact alwaysRenewed_concat.mpr ⟨hsecond, fun _ _ _ => hfresh⟩

/-- The player retries once more: two requests take the one bypass. -/
theorem bypass_taken_twice :
    bypassCalls (.number 1)
        (abortedOnce ++ [.openRequest 12 "http://host/video0/1.m4s"] : List (Event ℕ ℕ)) = 1 ∧
      bypassOpens (.number 1) init
        (abortedOnce ++ [.openRequest 12 "http://host/video0/1.m4s"] : List (Event ℕ ℕ)) = 2 := by
  decide +kernel

end Interceptor
end Dash
end LiveStream
