import Mathlib

/-!
# Runs of a step function, and tables with a subscript

Two small vocabularies every component below is written in:

* `run step s es`, the state a step function reaches from `s` over the events `es`, with
  the rules that turn a fact about one step into a fact about a whole run;
* `getOrInsert`, the subscript of an associative container that inserts a default entry
  when the key is missing. Tables are partial functions `κ → Option α`, and a plain store
  into one is Mathlib's `Function.update` (`foldl_update_apply` for several).
-/

namespace LiveStream
namespace Lib

variable {σ ε κ α : Type*}

/-! ## Runs -/

/-- The state reached from `s` by taking the events `es` in order. -/
def run (step : σ → ε → σ) (s : σ) (es : List ε) : σ := es.foldl step s

@[simp] theorem run_nil (step : σ → ε → σ) (s : σ) : run step s [] = s := rfl

@[simp] theorem run_cons (step : σ → ε → σ) (s : σ) (e : ε) (es : List ε) :
    run step s (e :: es) = run step (step s e) es := rfl

theorem run_append (step : σ → ε → σ) (s : σ) (es fs : List ε) :
    run step s (es ++ fs) = run step (run step s es) fs := List.foldl_append

theorem run_concat (step : σ → ε → σ) (s : σ) (es : List ε) (e : ε) :
    run step s (es ++ [e]) = step (run step s es) e := by
  rw [run_append, run_cons, run_nil]

/-- **Invariant rule.** What holds initially and survives every step of the run holds at
its end. -/
theorem run_invariant {step : σ → ε → σ} {P : σ → Prop} {s : σ} {es : List ε} (h : P s)
    (hstep : ∀ t, P t → ∀ e ∈ es, P (step t e)) : P (run step s es) := by
  induction es generalizing s with
  | nil => exact h
  | cons e es ih =>
    have he : P (step s e) := hstep s h e (List.mem_cons_self ..)
    exact ih he fun t ht f hf => hstep t ht f (List.mem_cons_of_mem _ hf)

/-- **Frame rule.** What no step changes is as it was. -/
theorem run_frame {step : σ → ε → σ} {g : σ → α} (h : ∀ t e, g (step t e) = g t) (s : σ)
    (es : List ε) : g (run step s es) = g s :=
  run_invariant (P := fun t => g t = g s) rfl fun t ht e _ => (h t e).trans ht

/-- **Monotonicity rule.** A reflexive and transitive relation that every step from a
state satisfying the invariant `P` respects relates the two ends of a run. -/
theorem run_rel {step : σ → ε → σ} {P : σ → Prop} {R : σ → σ → Prop} (hrefl : ∀ t, R t t)
    (htrans : ∀ t u v, R t u → R u v → R t v) (hP : ∀ t e, P t → P (step t e))
    (hR : ∀ t e, P t → R t (step t e)) {s : σ} (h : P s) (es : List ε) :
    R s (run step s es) := by
  induction es generalizing s with
  | nil => exact hrefl s
  | cons e es ih => exact htrans _ _ _ (hR s e h) (ih (hP s e h))

/-- **Simulation rule.** A run is mapped to a run if every step is mapped to a step, in the
states the invariant `P` allows. -/
theorem run_map {τ : Type*} {f : σ → ε → σ} {g : τ → ε → τ} {φ : σ → τ} {P : σ → Prop} {s : σ}
    {es : List ε} (h : P s) (hP : ∀ t, P t → ∀ e ∈ es, P (f t e))
    (hφ : ∀ t, P t → ∀ e ∈ es, φ (f t e) = g (φ t) e) : φ (run f s es) = run g (φ s) es := by
  induction es generalizing s with
  | nil => rfl
  | cons e es ih =>
    have hs : P (f s e) := hP s h e (List.mem_cons_self ..)
    rw [run_cons, run_cons, ← hφ s h e (List.mem_cons_self ..)]
    exact ih hs (fun t ht e' he' => hP t ht e' (List.mem_cons_of_mem _ he'))
      fun t ht e' he' => hφ t ht e' (List.mem_cons_of_mem _ he')

/-- **Skip rule.** Events that change nothing, in the states the invariant `P` allows, can be left
out. -/
theorem run_filter {step : σ → ε → σ} {P : σ → Prop} {keep : ε → Bool} {s : σ} (h : P s)
    (hP : ∀ t, P t → ∀ e, P (step t e)) (hskip : ∀ t, P t → ∀ e, keep e = false → step t e = t)
    (es : List ε) : run step s es = run step s (es.filter keep) := by
  induction es generalizing s with
  | nil => rfl
  | cons e es ih =>
    cases hkeep : keep e with
    | true =>
      rw [List.filter_cons_of_pos hkeep, run_cons, run_cons]
      exact ih (hP s h e)
    | false =>
      rw [List.filter_cons_of_neg (ne_true_of_eq_false hkeep), run_cons, hskip s h e hkeep]
      exact ih h

/-- **History rule.** A relation between the events so far and the state, which holds at the start
and which every step carries on, holds at the end of every run. -/
theorem run_history {step : σ → ε → σ} {P : List ε → σ → Prop} {s : σ} (h : P [] s)
    (hstep : ∀ es t e, P es t → P (es ++ [e]) (step t e)) (es : List ε) : P es (run step s es) := by
  induction es using List.reverseRecOn with
  | nil => exact h
  | append_singleton es e ih =>
    rw [run_concat]
    exact hstep es _ e ih

/-- **Mark rule.** A mark that is set by the events of a kind and never taken away is there iff such
an event has come. -/
theorem run_iff_exists_mem {step : σ → ε → σ} {P : σ → Prop} {Q : ε → Prop} {s : σ} (h : ¬P s)
    (hstep : ∀ t e, P (step t e) ↔ P t ∨ Q e) (es : List ε) :
    P (run step s es) ↔ ∃ e ∈ es, Q e := by
  apply run_history (P := fun es t => P t ↔ ∃ e ∈ es, Q e)
  · simp [h]
  · intro es t e ih
    rw [hstep, ih]
    simp [or_and_right, exists_or]

/-! ## Frames -/

/-- The part `g` of a state is the same in `t` as in `s`. -/
def Same (g : σ → α) (s t : σ) : Prop := g t = g s

theorem Same.trans {g : σ → α} {s t u : σ} (hst : Same g s t) (htu : Same g t u) : Same g s u :=
  Eq.trans htu hst

theorem Same.ite {g : σ → α} {p : Prop} [Decidable p] {s t u : σ} (ht : Same g s t)
    (hu : Same g s u) : Same g s (if p then t else u) := by
  split
  · exact ht
  · exact hu

theorem Same.map {g : σ → α} {s t : σ} (h : Same g s t) (f : α → κ) : Same (fun s => f (g s)) s t :=
  congrArg f h

/-! ## Conditions on every step -/

/-- Every step of the run meets the condition `C` in the state before it. -/
def EveryStep (step : σ → ε → σ) (C : σ → ε → Prop) : σ → List ε → Prop
  | _, [] => True
  | s, e :: es => C s e ∧ EveryStep step C (step s e) es

instance EveryStep.decidable {step : σ → ε → σ} {C : σ → ε → Prop} [∀ s e, Decidable (C s e)] :
    ∀ (s : σ) (es : List ε), Decidable (EveryStep step C s es)
  | _, [] => isTrue trivial
  | s, e :: es =>
    @instDecidableAnd (C s e) (EveryStep step C (step s e) es) _
      (EveryStep.decidable (step s e) es)

theorem everyStep_append {step : σ → ε → σ} {C : σ → ε → Prop} {s : σ} {es fs : List ε} :
    EveryStep step C s (es ++ fs) ↔
      EveryStep step C s es ∧ EveryStep step C (run step s es) fs := by
  induction es generalizing s with
  | nil => simp [EveryStep]
  | cons e es ih => simp only [List.cons_append, EveryStep, run_cons, ih, and_assoc]

theorem EveryStep.and {step : σ → ε → σ} {C D : σ → ε → Prop} {s : σ} {es : List ε}
    (hC : EveryStep step C s es) (hD : EveryStep step D s es) :
    EveryStep step (fun t e => C t e ∧ D t e) s es := by
  induction es generalizing s with
  | nil => trivial
  | cons e es ih => exact ⟨⟨hC.1, hD.1⟩, ih hC.2 hD.2⟩

theorem everyStep_of_forall {step : σ → ε → σ} {C : σ → ε → Prop} {s : σ} {es : List ε}
    (h : ∀ e ∈ es, ∀ t, C t e) : EveryStep step C s es := by
  induction es generalizing s with
  | nil => trivial
  | cons e es ih =>
    exact ⟨h e (List.mem_cons_self ..) s, ih fun f hf => h f (List.mem_cons_of_mem _ hf)⟩

/-- **Conditional invariant rule.** An invariant kept by the steps that meet the condition
holds at the end of every run whose steps all meet it. -/
theorem EveryStep.invariant {step : σ → ε → σ} {C : σ → ε → Prop} {P : σ → Prop} {s : σ}
    {es : List ε} (h : EveryStep step C s es) (hs : P s)
    (hstep : ∀ t e, P t → C t e → P (step t e)) : P (run step s es) := by
  induction es generalizing s with
  | nil => exact hs
  | cons e es ih => exact ih h.2 (hstep s e hs h.1)

/-- **Consequence rule.** If the condition keeps the invariant and together they give `Q`, every
step of a run that meets the condition meets `Q`. -/
theorem EveryStep.consequence {step : σ → ε → σ} {C Q : σ → ε → Prop} {P : σ → Prop} {s : σ}
    {es : List ε} (h : EveryStep step C s es) (hs : P s)
    (hstep : ∀ t e, P t → C t e → P (step t e)) (hQ : ∀ t e, P t → C t e → Q t e) :
    EveryStep step Q s es := by
  induction es generalizing s with
  | nil => trivial
  | cons e es ih => exact ⟨hQ s e hs h.1, ih h.2 (hstep s e hs h.1)⟩

/-- **Ledger rule.** If a step keeps `P` exactly when it meets the condition, in the states the
invariant allows, `P` holds after a run exactly if it held before and every step met the
condition. -/
theorem run_iff_everyStep {step : σ → ε → σ} {C D : σ → ε → Prop} {P Inv : σ → Prop} {s : σ}
    {es : List ε} (hD : EveryStep step D s es) (hs : Inv s)
    (hInv : ∀ t e, Inv t → D t e → Inv (step t e))
    (hstep : ∀ t e, Inv t → D t e → (P (step t e) ↔ P t ∧ C t e)) :
    P (run step s es) ↔ P s ∧ EveryStep step C s es := by
  induction es generalizing s with
  | nil => simp [EveryStep]
  | cons e es ih =>
    rw [run_cons, ih hD.2 (hInv s e hs hD.1), hstep s e hs hD.1, EveryStep, and_assoc]

/-- A run that breaks the condition has a first part after which the next step breaks it. -/
theorem exists_split_of_not_everyStep {step : σ → ε → σ} {C : σ → ε → Prop} {s : σ}
    {es : List ε} (h : ¬EveryStep step C s es) :
    ∃ pre e post, es = pre ++ e :: post ∧ ¬C (run step s pre) e := by
  induction es generalizing s with
  | nil => exact absurd trivial h
  | cons e es ih =>
    by_cases he : C s e
    · obtain ⟨pre, f, post, rfl, hf⟩ := ih fun hes => h ⟨he, hes⟩
      exact ⟨e :: pre, f, post, rfl, hf⟩
    · exact ⟨[], e, es, rfl, he⟩

/-! ## What a run puts out -/

/-- What the steps of a run put out, in order. -/
def emitted (step : σ → ε → σ) (out : σ → ε → Option α) : σ → List ε → List α
  | _, [] => []
  | s, e :: es => (out s e).toList ++ emitted step out (step s e) es

/-- **Output rule.** If the condition keeps the invariant and together they give `Q` of what a step
puts out, a run that meets the condition puts out nothing else. -/
theorem EveryStep.forall_emitted {step : σ → ε → σ} {out : σ → ε → Option α} {C : σ → ε → Prop}
    {P : σ → Prop} {Q : α → Prop} {s : σ} {es : List ε} (h : EveryStep step C s es) (hs : P s)
    (hstep : ∀ t e, P t → C t e → P (step t e)) (hQ : ∀ t e, P t → C t e → ∀ a ∈ out t e, Q a) :
    ∀ a ∈ emitted step out s es, Q a := by
  induction es generalizing s with
  | nil => exact fun a ha => absurd ha List.not_mem_nil
  | cons e es ih =>
    intro a ha
    rw [emitted, List.mem_append, Option.mem_toList] at ha
    rcases ha with ha | ha
    · exact hQ s e hs h.1 a ha
    · exact ih h.2 (hstep s e hs h.1) a ha

/-! ## The subscript that inserts -/

variable [DecidableEq κ]

/-- `m[k]` of an associative container: the entry at `k`, after storing `d` there if there
was none. Returns the container left behind and the entry. -/
def getOrInsert (d : α) (m : κ → Option α) (k : κ) : (κ → Option α) × α :=
  match m k with
  | some a => (m, a)
  | none => (Function.update m k (some d), d)

theorem getOrInsert_of_some {d : α} {m : κ → Option α} {k : κ} {a : α} (h : m k = some a) :
    getOrInsert d m k = (m, a) := by
  rw [getOrInsert, h]

theorem getOrInsert_snd (d : α) (m : κ → Option α) (k : κ) :
    (getOrInsert d m k).2 = (m k).getD d := by
  unfold getOrInsert
  cases m k <;> rfl

/-- The subscript changes nothing but the missing entry it creates. -/
theorem getOrInsert_fst_apply (d : α) (m : κ → Option α) (k j : κ) :
    (getOrInsert d m k).1 j = m j ∨
      j = k ∧ m j = none ∧ (getOrInsert d m k).1 j = some d := by
  unfold getOrInsert
  cases hk : m k with
  | some a => exact Or.inl rfl
  | none =>
    by_cases hj : j = k
    · subst hj
      exact Or.inr ⟨rfl, hk, Function.update_self ..⟩
    · exact Or.inl (Function.update_of_ne hj ..)

/-! ## Stores, one after the other -/

/-- Stores at different keys, each made from the entry that was there, change these entries and no
others. -/
theorem foldl_update_apply {g : κ → α → α} {keys : List κ} (h : keys.Nodup) (m : κ → α) (k : κ) :
    keys.foldl (fun m j => Function.update m j (g j (m j))) m k =
      if k ∈ keys then g k (m k) else m k := by
  induction keys generalizing m with
  | nil => simp
  | cons j keys ih =>
    obtain ⟨hj, hkeys⟩ := List.nodup_cons.mp h
    rw [List.foldl_cons, ih hkeys]
    by_cases hk : k = j
    · subst hk
      rw [if_neg hj, if_pos List.mem_cons_self, Function.update_self]
    · rw [Function.update_of_ne hk]
      simp [hk]

end Lib
end LiveStream
