import LiveStream.Learning.Server
import LiveStream.Lib.Run

/-!
# Episodes of the training server

`Environment` and `Runner` of `learning/server.py`. A request for a target bandwidth records
the input of a segment and the action predicted for it; the instances post the rewards of
the segments. When two names have posted a reward for a segment whose input is known, the
runner stores the transition from the segment before. A request for a segment that is known
already starts a new episode.

The three tables are `defaultdict`s: reading a missing key creates it. A step of `Runner` is
one handled request; beside the environment it carries the history since the last reset, which
the handlers do not look at.

* `rewarded`, what a post of a reward can do, said once;
* `genuine_resets`, when only a request for a segment requested before resets the environment;
* `complete_transitions`, when every transition belongs to one episode.
-/

namespace LiveStream
namespace Learning

open Lib
open Video (Dict)

/-! ## The environment -/

structure Environment where
  inputs : ℤ → Option (List ℤ) := fun _ => none
  rewards : ℤ → Option (Dict String ℚ) := fun _ => none
  actions : ℤ → Option ℤ := fun _ => none

/-- The arguments of a call of `update_replay_memory` made for `index`. -/
structure Transition where
  index : ℤ
  inputVector : List ℤ
  action : ℤ
  reward : Dict String ℚ
  newInputVector : List ℤ

namespace Environment

def addInput (env : Environment) (index : ℤ) (inputVector : List ℤ) : Environment :=
  { env with inputs := Function.update env.inputs index (some inputVector) }

def addReward (env : Environment) (index : ℤ) (name : String) (qoe : ℚ) : Environment :=
  { env with
    rewards := Function.update env.rewards index
      (some (((env.rewards index).getD Dict.empty).set name qoe)) }

def addAction (env : Environment) (index action : ℤ) : Environment :=
  { env with actions := Function.update env.actions index (some action) }

def reset (env : Environment) : Environment :=
  { env with inputs := fun _ => none, rewards := fun _ => none }

/-- How many names have posted a reward for the segment. -/
def names (env : Environment) (index : ℤ) : ℕ :=
  ((env.rewards index).getD Dict.empty).keys.length

end Environment

/-- The vector the model predicts from. -/
def Arguments.inputVector (a : Arguments) : List ℤ :=
  [a.avgBandwidth, a.currentBandwidth, a.lastBuffer, a.lastRtt, a.currentVmaf, a.currentSize] ++
    a.vmafs.flatten ++ a.sizes.flatten

/-! ## The handlers -/

namespace Environment

/-- The handler of `/target_bandwidth` when it has read its arguments; the model's prediction
may be any. -/
def getTargetBandwidth (env : Environment) (a : Arguments) (prediction : ℤ) : Environment :=
  let env := if (env.inputs a.currentIndex).isSome then env.reset else env
  (env.addInput a.currentIndex a.inputVector).addAction a.currentIndex prediction

/-- The handler of `/reward`, with the transition it stores. -/
def getRewards (env : Environment) (index : ℤ) (name : String) (qoe : ℚ) :
    Environment × Option Transition :=
  let env := env.addReward index name qoe
  if 1 < index ∧ 1 < env.names index then
    let (inputs, newInputVector) := getOrInsert [] env.inputs index
    if 0 < newInputVector.length then
      let (inputs, inputVector) := getOrInsert [] inputs (index - 1)
      let (actions, action) := getOrInsert 0 env.actions (index - 1)
      let (rewards, reward) := getOrInsert Dict.empty env.rewards (index - 1)
      ({ inputs := inputs, rewards := rewards, actions := actions },
        some { index := index, inputVector := inputVector, action := action, reward := reward,
               newInputVector := newInputVector })
    else ({ env with inputs := inputs }, none)
  else (env, none)

end Environment

/-! ## Runs -/

/-- A handled request for a target bandwidth. -/
structure Request where
  arguments : Arguments
  prediction : ℤ
deriving DecidableEq

def Request.index (q : Request) : ℤ := q.arguments.currentIndex

def Request.inputVector (q : Request) : List ℤ := q.arguments.inputVector

/-- The environment, with the requests handled and the indices a transition was stored for
since the last reset. -/
structure Runner where
  env : Environment := {}
  episode : List Request := []
  stored : List ℤ := []

inductive Event where
  | targetBandwidth (request : Request)
  | reward (index : ℤ) (name : String) (qoe : ℚ)
deriving DecidableEq

namespace Runner

def step (s : Runner) : Event → Runner
  | .targetBandwidth q =>
    if (s.env.inputs q.index).isSome then
      { env := s.env.getTargetBandwidth q.arguments q.prediction, episode := [q], stored := [] }
    else
      { env := s.env.getTargetBandwidth q.arguments q.prediction
        episode := s.episode ++ [q]
        stored := s.stored }
  | .reward index name qoe =>
    { env := (s.env.getRewards index name qoe).1
      episode := s.episode
      stored := s.stored ++ ((s.env.getRewards index name qoe).2.map Transition.index).toList }

/-- A request for the segment was handled since the last reset. -/
def Requested (s : Runner) (index : ℤ) : Prop := ∃ q ∈ s.episode, q.index = index

instance (s : Runner) (index : ℤ) : Decidable (s.Requested index) :=
  inferInstanceAs (Decidable (∃ q ∈ s.episode, q.index = index))

/-- The step does not reset the environment unless the segment was requested since the last
reset. -/
def GenuineReset (s : Runner) : Event → Prop
  | .targetBandwidth q => (s.env.inputs q.index).isSome → s.Requested q.index
  | .reward _ _ _ => True

/-- A transition the step stores goes from an input recorded for the segment before to one
recorded for the segment, with the action predicted for the former and rewards of two names,
and is the first one for its segment since the last reset. -/
def CompleteTransition (s : Runner) : Event → Prop
  | .targetBandwidth _ => True
  | .reward index name qoe => ∀ t, (s.env.getRewards index name qoe).2 = some t →
      (∃ q ∈ s.episode, q.index = index - 1 ∧ q.inputVector = t.inputVector ∧
        q.prediction = t.action) ∧
      (∃ q ∈ s.episode, q.index = index ∧ q.inputVector = t.newInputVector) ∧
      2 ≤ t.reward.keys.length ∧ index ∉ s.stored

/-- A reward that makes two names for a segment comes after the requests for the segment and
for the one before. -/
def RewardAfterRequests (s : Runner) : Event → Prop
  | .targetBandwidth _ => True
  | .reward index name qoe => 1 < index → 2 ≤ (s.env.addReward index name qoe).names index →
      s.Requested index ∧ s.Requested (index - 1)

/-- A reward after which there are two names for a requested segment is the second one for it,
and comes after the request and two rewards for the segment before. -/
def RewardInOrder (s : Runner) : Event → Prop
  | .targetBandwidth _ => True
  | .reward index name qoe => 1 < index → 2 ≤ (s.env.addReward index name qoe).names index →
      s.Requested index →
        s.Requested (index - 1) ∧ 2 ≤ s.env.names (index - 1) ∧ s.env.names index < 2

/-! ## What a post of a reward can do -/

/-- The three ways through the handler of `/reward`. -/
inductive Rewarded (env : Environment) (index : ℤ) (name : String) (qoe : ℚ) :
    Environment × Option Transition → Prop where
  /-- The inputs are not looked at. -/
  | kept (h : ¬(1 < index ∧ 2 ≤ (env.addReward index name qoe).names index)) :
    Rewarded env index name qoe (env.addReward index name qoe, none)
  /-- There is no input for the segment; the read leaves an empty one. -/
  | unrecorded (hindex : 1 < index) (hnames : 2 ≤ (env.addReward index name qoe).names index)
      (hinput : (env.inputs index).getD [] = []) :
    Rewarded env index name qoe
      ({ env.addReward index name qoe with inputs := (getOrInsert [] env.inputs index).1 }, none)
  | stored (hindex : 1 < index) (hnames : 2 ≤ (env.addReward index name qoe).names index)
      (v : List ℤ) (hinput : env.inputs index = some v) (hv : v ≠ []) :
    Rewarded env index name qoe
      ({ inputs := (getOrInsert [] env.inputs (index - 1)).1
         rewards :=
          (getOrInsert Dict.empty (env.addReward index name qoe).rewards (index - 1)).1
         actions := (getOrInsert 0 env.actions (index - 1)).1 },
        some { index := index
               inputVector := (env.inputs (index - 1)).getD []
               action := (env.actions (index - 1)).getD 0
               reward := (env.rewards (index - 1)).getD Dict.empty
               newInputVector := v })

theorem rewarded (env : Environment) (index : ℤ) (name : String) (qoe : ℚ) :
    Rewarded env index name qoe (env.getRewards index name qoe) := by
  have hinputs : (env.addReward index name qoe).inputs = env.inputs := rfl
  have hactions : (env.addReward index name qoe).actions = env.actions := rfl
  have hbefore : (env.addReward index name qoe).rewards (index - 1) = env.rewards (index - 1) :=
    Function.update_of_ne (by omega) ..
  unfold Environment.getRewards
  dsimp only
  by_cases hguard : 1 < index ∧ 1 < (env.addReward index name qoe).names index
  · rw [if_pos hguard, hinputs, hactions]
    cases hinput : env.inputs index with
    | none =>
      have hread : getOrInsert [] env.inputs index =
          (Function.update env.inputs index (some []), []) := by
        rw [getOrInsert, hinput]
      have hempty : (env.inputs index).getD [] = [] := by rw [hinput, Option.getD_none]
      have hunrecorded := Rewarded.unrecorded hguard.1 hguard.2 hempty
      rw [hread] at hunrecorded ⊢
      exact hunrecorded
    | some v =>
      rw [getOrInsert_of_some hinput]
      by_cases hv : v = []
      · have hempty : (env.inputs index).getD [] = [] := by rw [hinput, hv, Option.getD_some]
        have hunrecorded := Rewarded.unrecorded hguard.1 hguard.2 hempty
        rw [getOrInsert_of_some hinput] at hunrecorded
        subst hv
        exact hunrecorded
      · have hstored := Rewarded.stored hguard.1 hguard.2 v hinput hv
        rw [← getOrInsert_snd [] env.inputs, ← getOrInsert_snd 0 env.actions, ← hbefore,
          ← getOrInsert_snd Dict.empty] at hstored
        have hpos : 0 < v.length := List.length_pos_iff.mpr hv
        simp only [hpos, if_true]
        exact hstored
  · rw [if_neg hguard]
    exact Rewarded.kept hguard

/-- Reading never takes an input away, and creates only empty ones. -/
theorem inputs_getRewards (env : Environment) (index : ℤ) (name : String) (qoe : ℚ) (k : ℤ) :
    (env.getRewards index name qoe).1.inputs k = env.inputs k ∨
      env.inputs k = none ∧ (env.getRewards index name qoe).1.inputs k = some [] := by
  have h := rewarded env index name qoe
  generalize env.getRewards index name qoe = r at h ⊢
  cases h with
  | kept => exact Or.inl rfl
  | unrecorded =>
    rcases getOrInsert_fst_apply [] env.inputs index k with h | ⟨-, hnone, hsome⟩
    · exact Or.inl h
    · exact Or.inr ⟨hnone, hsome⟩
  | stored =>
    rcases getOrInsert_fst_apply [] env.inputs (index - 1) k with h | ⟨-, hnone, hsome⟩
    · exact Or.inl h
    · exact Or.inr ⟨hnone, hsome⟩

theorem actions_getRewards {env : Environment} {index : ℤ} {name : String} {qoe : ℚ} {k a : ℤ}
    (ha : env.actions k = some a) : (env.getRewards index name qoe).1.actions k = some a := by
  have h := rewarded env index name qoe
  generalize env.getRewards index name qoe = r at h ⊢
  cases h with
  | kept => exact ha
  | unrecorded => exact ha
  | stored =>
    rcases getOrInsert_fst_apply 0 env.actions (index - 1) k with h | ⟨-, hnone, -⟩
    · exact h.trans ha
    · exact absurd (hnone.symm.trans ha) (by simp)

theorem names_addReward (env : Environment) (index : ℤ) (name : String) (qoe : ℚ) (k : ℤ) :
    env.names k ≤ (env.addReward index name qoe).names k := by
  unfold Environment.names Environment.addReward
  by_cases hk : k = index
  · subst hk
    simp only [Function.update_self, Option.getD_some, Dict.set]
    split
    · exact le_refl _
    · rw [List.length_append]
      exact Nat.le_add_right _ _
  · simp only [Function.update_of_ne hk, le_refl]

/-- The names that have posted are those of the reward added; reading adds none. -/
theorem names_getRewards (env : Environment) (index : ℤ) (name : String) (qoe : ℚ) (k : ℤ) :
    (env.getRewards index name qoe).1.names k = (env.addReward index name qoe).names k := by
  have h := rewarded env index name qoe
  generalize env.getRewards index name qoe = r at h ⊢
  cases h with
  | kept => rfl
  | unrecorded => rfl
  | stored =>
    unfold Environment.names
    dsimp only
    rcases getOrInsert_fst_apply Dict.empty (env.addReward index name qoe).rewards (index - 1) k
      with h | ⟨-, hnone, hsome⟩
    · rw [h]
    · rw [hnone, hsome]
      rfl

/-! ## The invariant -/

/-- What every run keeps: the requests of the episode are on record, an input that is not empty
is that of a request, and a segment with a stored transition has the rewards of two names. -/
structure Inv (s : Runner) : Prop where
  inputs : ∀ q ∈ s.episode, s.env.inputs q.index = some q.inputVector
  actions : ∀ q ∈ s.episode, s.env.actions q.index = some q.prediction
  recorded : ∀ k v, s.env.inputs k = some v → v ≠ [] →
    ∃ q ∈ s.episode, q.index = k ∧ q.inputVector = v
  stored : ∀ k ∈ s.stored, 2 ≤ s.env.names k

theorem Inv.init : Inv {} where
  inputs _ h := absurd h List.not_mem_nil
  actions _ h := absurd h List.not_mem_nil
  recorded _ _ h := by cases h
  stored _ h := absurd h List.not_mem_nil

/-- A request for a segment without an entry is appended to the episode. -/
theorem Inv.append {s : Runner} (h : Inv s) {q : Request} (hnone : s.env.inputs q.index = none) :
    Inv { env := (s.env.addInput q.index q.inputVector).addAction q.index q.prediction
          episode := s.episode ++ [q]
          stored := s.stored } := by
  have hne : ∀ p ∈ s.episode, p.index ≠ q.index := by
    intro p hp heq
    have hsome := h.inputs p hp
    rw [heq, hnone] at hsome
    cases hsome
  refine ⟨fun p hp => ?_, fun p hp => ?_, fun k v hk hv => ?_, h.stored⟩
  · show Function.update s.env.inputs q.index (some q.inputVector) p.index = some p.inputVector
    rcases List.mem_append.mp hp with hp | hp
    · rw [Function.update_of_ne (hne p hp)]
      exact h.inputs p hp
    · rw [List.mem_singleton.mp hp, Function.update_self]
  · show Function.update s.env.actions q.index (some q.prediction) p.index = some p.prediction
    rcases List.mem_append.mp hp with hp | hp
    · rw [Function.update_of_ne (hne p hp)]
      exact h.actions p hp
    · rw [List.mem_singleton.mp hp, Function.update_self]
  · have hk : Function.update s.env.inputs q.index (some q.inputVector) k = some v := hk
    by_cases hkq : k = q.index
    · rw [hkq, Function.update_self] at hk
      exact ⟨q, List.mem_append_right _ (List.mem_singleton_self q), hkq.symm,
        Option.some.inj hk⟩
    · rw [Function.update_of_ne hkq] at hk
      obtain ⟨p, hp, hindex, hinput⟩ := h.recorded k v hk hv
      exact ⟨p, List.mem_append_left _ hp, hindex, hinput⟩

/-- The environment of an episode that has just begun; the actions are those of before. -/
theorem Inv.reset (env : Environment) : Inv { env := env.reset } where
  inputs _ h := absurd h List.not_mem_nil
  actions _ h := absurd h List.not_mem_nil
  recorded _ _ h := by cases h
  stored _ h := absurd h List.not_mem_nil

theorem Inv.step {s : Runner} (h : Inv s) (e : Event) : Inv (s.step e) := by
  cases e with
  | targetBandwidth q =>
    rw [Runner.step, Environment.getTargetBandwidth]
    by_cases hsome : (s.env.inputs q.arguments.currentIndex).isSome = true
    · have hsome' : (s.env.inputs q.index).isSome = true := hsome
      rw [if_pos hsome', if_pos hsome]
      exact (Inv.reset s.env).append rfl
    · have hsome' : ¬(s.env.inputs q.index).isSome = true := hsome
      rw [if_neg hsome', if_neg hsome]
      exact h.append (Option.not_isSome_iff_eq_none.mp hsome)
  | reward index name qoe =>
    refine ⟨fun q hq => ?_, fun q hq => ?_, fun k v hk hv => ?_, fun k hk => ?_⟩
    · rcases inputs_getRewards s.env index name qoe q.index with hsame | ⟨hnone, -⟩
      · exact hsame.trans (h.inputs q hq)
      · exact absurd (hnone.symm.trans (h.inputs q hq)) (by simp)
    · exact actions_getRewards (h.actions q hq)
    · rcases inputs_getRewards s.env index name qoe k with hsame | ⟨-, hempty⟩
      · exact h.recorded k v (hsame.symm.trans hk) hv
      · exact absurd (Option.some.inj (hk.symm.trans hempty)) hv
    · have hmono := names_addReward s.env index name qoe k
      have hnames : (s.step (.reward index name qoe)).env.names k =
          (s.env.addReward index name qoe).names k := names_getRewards s.env index name qoe k
      rw [hnames]
      rcases List.mem_append.mp hk with hk | hk
      · exact (h.stored k hk).trans hmono
      · have hr := rewarded s.env index name qoe
        generalize s.env.getRewards index name qoe = r at hr hk
        cases hr with
        | kept => simp at hk
        | unrecorded => simp at hk
        | stored hindex hn v hinput hv =>
          obtain rfl : k = index := by simpa using hk
          exact hn

/-! ## Genuine resets -/

/-- No input was created by a read. -/
def NoPhantom (s : Runner) : Prop := ∀ k, (s.env.inputs k).isSome → s.Requested k

theorem noPhantom_step {s : Runner} (hs : NoPhantom s) {e : Event}
    (he : RewardAfterRequests s e) : NoPhantom (s.step e) := by
  cases e with
  | targetBandwidth q =>
    intro k hk
    by_cases hkq : q.index = k
    · refine ⟨q, ?_, hkq⟩
      rw [Runner.step]
      split <;> simp
    · rw [Runner.step, Environment.getTargetBandwidth] at hk ⊢
      by_cases hsome : (s.env.inputs q.arguments.currentIndex).isSome = true
      · have hsome' : (s.env.inputs q.index).isSome = true := hsome
        rw [if_pos hsome', if_pos hsome] at hk
        -- the reset has removed all other inputs
        have hnone : (Function.update (fun _ => none) q.index (some q.inputVector) k).isSome :=
          hk
        rw [Function.update_of_ne (Ne.symm hkq)] at hnone
        cases hnone
      · have hsome' : ¬(s.env.inputs q.index).isSome = true := hsome
        rw [if_neg hsome', if_neg hsome] at hk
        have hold : (Function.update s.env.inputs q.index (some q.inputVector) k).isSome := hk
        rw [Function.update_of_ne (Ne.symm hkq)] at hold
        obtain ⟨p, hp, hindex⟩ := hs k hold
        rw [if_neg hsome']
        exact ⟨p, List.mem_append_left _ hp, hindex⟩
  | reward index name qoe =>
    intro k hk
    have hrequested : s.Requested k := by
      have hr := rewarded s.env index name qoe
      have hk : ((s.env.getRewards index name qoe).1.inputs k).isSome := hk
      generalize s.env.getRewards index name qoe = r at hr hk
      cases hr with
      | kept => exact hs k hk
      | unrecorded hindex hnames =>
        rcases getOrInsert_fst_apply [] s.env.inputs index k with hsame | ⟨rfl, -, -⟩
        · exact hs k (hsame ▸ hk)
        · exact (he hindex hnames).1
      | stored hindex hnames =>
        rcases getOrInsert_fst_apply [] s.env.inputs (index - 1) k with hsame | ⟨rfl, -, -⟩
        · exact hs k (hsame ▸ hk)
        · exact (he hindex hnames).2
    exact hrequested

/-- **Genuine resets.** If a reward that makes two names for a segment comes only after the
requests for the segment and the one before, every reset is on a request for a segment that
was requested since the last one. -/
theorem genuine_resets (es : List Event) (h : EveryStep step RewardAfterRequests {} es) :
    EveryStep step GenuineReset {} es := by
  refine h.consequence (P := NoPhantom) (fun k hk => by cases hk)
    (fun s e hs he => noPhantom_step hs he) (fun s e hs _ => ?_)
  cases e with
  | targetBandwidth q => exact hs q.index
  | reward => trivial

instance (s : Runner) : ∀ e : Event, Decidable (RewardAfterRequests s e)
  | .targetBandwidth _ => isTrue trivial
  | .reward index name qoe =>
    inferInstanceAs (Decidable (1 < index → 2 ≤ (s.env.addReward index name qoe).names index →
      s.Requested index ∧ s.Requested (index - 1)))

instance (s : Runner) : ∀ e : Event, Decidable (RewardInOrder s e)
  | .targetBandwidth _ => isTrue trivial
  | .reward index name qoe =>
    inferInstanceAs (Decidable (1 < index → 2 ≤ (s.env.addReward index name qoe).names index →
      s.Requested index →
        s.Requested (index - 1) ∧ 2 ≤ s.env.names (index - 1) ∧ s.env.names index < 2))

/-- A request for a segment of a video with one track. -/
def requestFor (index prediction : ℤ) : Event :=
  .targetBandwidth
    { arguments :=
        { avgBandwidth := 1000, currentBandwidth := 1000, lastBuffer := 5000, lastRtt := 20,
          vmafs := [[80]], sizes := [[500]], currentQuality := 1, currentIndex := index,
          currentVmaf := 80, currentSize := 500 }
      prediction := prediction }

/-- Two instances report two segments, and a second episode begins. -/
def twoEpisodes : List Event :=
  [requestFor 1 3, .reward 1 "a" 10, .reward 1 "b" 20, requestFor 2 4, .reward 2 "a" 30,
    .reward 2 "b" 40, requestFor 1 5]

theorem genuine_resets_twoEpisodes :
    EveryStep step RewardAfterRequests {} twoEpisodes ∧
      EveryStep step GenuineReset {} twoEpisodes :=
  have h : EveryStep step RewardAfterRequests {} twoEpisodes := by decide +kernel
  ⟨h, genuine_resets twoEpisodes h⟩

/-- The rewards of segment 2 arrive before its first request, which then resets the
environment and loses segment 1. -/
theorem reset_by_first_request :
    ¬GenuineReset (run step {} [requestFor 1 3, .reward 2 "a" 30, .reward 2 "b" 40])
        (requestFor 2 4) ∧
      ¬(run step {} [requestFor 1 3, .reward 2 "a" 30, .reward 2 "b" 40, requestFor 2 4]).Requested
        1 := by
  refine ⟨fun h => ?_, by decide +kernel⟩
  have hrequested :
      (run step {} [requestFor 1 3, .reward 2 "a" 30, .reward 2 "b" 40]).Requested 2 :=
    h (by decide +kernel)
  exact absurd hrequested (by decide +kernel)

/-! ## Complete transitions -/

theorem completeTransition_of_rewardInOrder {s : Runner} (h : Inv s) {e : Event}
    (he : RewardInOrder s e) : CompleteTransition s e := by
  cases e with
  | targetBandwidth => trivial
  | reward index name qoe =>
    intro t ht
    have hr := rewarded s.env index name qoe
    generalize s.env.getRewards index name qoe = r at hr ht
    cases hr with
    | kept => cases ht
    | unrecorded => cases ht
    | stored hindex hnames v hinput hv =>
      obtain rfl := Option.some.inj ht
      obtain ⟨q, hq, hqindex, hqinput⟩ := h.recorded index v hinput hv
      obtain ⟨⟨p, hp, hpindex⟩, htwo, hone⟩ := he hindex hnames ⟨q, hq, hqindex⟩
      refine ⟨⟨p, hp, hpindex, ?_, ?_⟩, ⟨q, hq, hqindex, hqinput⟩, htwo, fun hstored => ?_⟩
      · rw [← hpindex, h.inputs p hp, Option.getD_some]
      · rw [← hpindex, h.actions p hp, Option.getD_some]
      · have := h.stored index hstored
        omega

/-- **Complete transitions.** If the reward that makes two names for a requested segment is the
second one for it and comes after the request and two rewards for the segment before, every
transition stored is complete and the only one for its segment in the episode. -/
theorem complete_transitions (es : List Event) (h : EveryStep step RewardInOrder {} es) :
    EveryStep step CompleteTransition {} es :=
  h.consequence Inv.init (fun _ e hs _ => hs.step e)
    (fun _ _ hs he => completeTransition_of_rewardInOrder hs he)

theorem complete_transitions_twoEpisodes :
    (run step {} (twoEpisodes.take 6)).stored = [2] ∧
      EveryStep step CompleteTransition {} twoEpisodes :=
  ⟨by decide +kernel, complete_transitions twoEpisodes (by decide +kernel)⟩

/-- A stored transition whose first input is empty, with no reward and the default action; and
two transitions stored for one segment. -/
theorem incomplete_transitions :
    ¬CompleteTransition (run step {} [requestFor 2 4, .reward 2 "a" 30]) (.reward 2 "b" 40) ∧
      (run step {} (twoEpisodes.take 6 ++ [.reward 2 "a" 50])).stored = [2, 2] := by
  refine ⟨fun h => ?_, by decide +kernel⟩
  have hmade :
      ((run step {} [requestFor 2 4, .reward 2 "a" 30]).env.getRewards 2 "b" 40).2.isSome := by
    decide +kernel
  obtain ⟨t, ht⟩ := Option.isSome_iff_exists.mp hmade
  obtain ⟨⟨q, hq, hindex, -⟩, -⟩ := h t ht
  have hnone : ¬(run step {} [requestFor 2 4, .reward 2 "a" 30]).Requested (2 - 1) := by
    decide +kernel
  exact hnone ⟨q, hq, hindex⟩

end Runner

end Learning
end LiveStream
