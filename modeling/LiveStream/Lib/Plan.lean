import LiveStream.Lib.Truncate

/-!
# Plans with a truncated running total

A decision problem offers choices in every state; a plan is a list of choices. Its score is
the sum of the gains along the way, truncated to an integer after every step, as a program
computes it that keeps a running total in an `int`.

* `Problem.score_le_score`, the simulation rule: a problem that keeps up with another one
  step by step scores at least as high on every plan;
* `Problem.IsBest.extend`, the step of dynamic programming: the best plans of length `k`,
  extended by their best last choice, are the best plans of length `k + 1`. Truncation does
  no harm because it is monotone.
-/

namespace LiveStream
namespace Lib

/-! ## Plans -/

/-- A decision problem over states `σ` and choices `κ`. -/
structure Problem (σ κ : Type*) where
  choices : σ → List κ
  next : σ → κ → σ
  gain : σ → κ → ℚ

namespace Problem

variable {σ κ : Type*} (P : Problem σ κ)

/-- Every choice of the plan is on offer when its turn comes. -/
def Admissible : σ → List κ → Prop
  | _, [] => True
  | s, q :: qs => q ∈ P.choices s ∧ Admissible (P.next s q) qs

/-- The state a plan leads to. -/
def endState (s : σ) (qs : List κ) : σ := qs.foldl P.next s

/-- The states on the way, first and last included. -/
def visited : σ → List κ → List σ
  | s, [] => [s]
  | s, q :: qs => s :: visited (P.next s q) qs

/-- The running total, truncated after every step. -/
def score : σ → ℤ → List κ → ℤ
  | _, total, [] => total
  | s, total, q :: qs => score (P.next s q) (truncate (total + P.gain s q)) qs

variable {P}

theorem endState_concat (s : σ) (qs : List κ) (q : κ) :
    P.endState s (qs ++ [q]) = P.next (P.endState s qs) q := by
  simp [endState]

theorem admissible_concat {s : σ} {qs : List κ} {q : κ} :
    P.Admissible s (qs ++ [q]) ↔ P.Admissible s qs ∧ q ∈ P.choices (P.endState s qs) := by
  induction qs generalizing s with
  | nil => simp [Admissible, endState]
  | cons r qs ih => simp only [List.cons_append, Admissible, ih, and_assoc]; rfl

theorem visited_concat (s : σ) (qs : List κ) (q : κ) :
    P.visited s (qs ++ [q]) = P.visited s qs ++ [P.next (P.endState s qs) q] := by
  induction qs generalizing s with
  | nil => rfl
  | cons r qs ih => simp only [List.cons_append, visited, ih]; rfl

theorem score_concat (s : σ) (total : ℤ) (qs : List κ) (q : κ) :
    P.score s total (qs ++ [q]) =
      truncate (P.score s total qs + P.gain (P.endState s qs) q) := by
  induction qs generalizing s total with
  | nil => rfl
  | cons r qs ih => simp only [List.cons_append, score, ih]; rfl

/-- **Simulation rule.** If along a plan the second problem gains at least as much as the
first, each in its own states, it scores at least as high. `R` relates the two states with
what is left of the plan. -/
theorem score_le_score {P' : Problem σ κ} {R : σ → σ → List κ → Prop}
    (hstep : ∀ s s' q qs, R s s' (q :: qs) →
      P.gain s q ≤ P'.gain s' q ∧ R (P.next s q) (P'.next s' q) qs)
    {s s' : σ} {qs : List κ} (hs : R s s' qs) {total total' : ℤ} (htotal : total ≤ total') :
    P.score s total qs ≤ P'.score s' total' qs := by
  induction qs generalizing s s' total total' with
  | nil => exact htotal
  | cons q qs ih =>
    obtain ⟨hgain, hnext⟩ := hstep s s' q qs hs
    have hle : truncate (total + P.gain s q) ≤ truncate (total' + P'.gain s' q) := by
      apply truncate_mono
      have ht : (total : ℚ) ≤ total' := by exact_mod_cast htotal
      linarith
    exact ih hnext hle

/-! ## Best plans -/

/-- `p` is a plan of length `k` from `s` to `t`, its score is `v`, and no plan of that length
to `t` scores higher. -/
structure IsBest (P : Problem σ κ) (s : σ) (k : ℕ) (t : σ) (v : ℤ) (p : List κ) : Prop where
  admissible : P.Admissible s p
  length_eq : p.length = k
  endState_eq : P.endState s p = t
  score_eq : P.score s 0 p = v
  upper : ∀ p', P.Admissible s p' → p'.length = k → P.endState s p' = t → P.score s 0 p' ≤ v

theorem isBest_nil (s : σ) : P.IsBest s 0 s 0 [] where
  admissible := trivial
  length_eq := rfl
  endState_eq := rfl
  score_eq := rfl
  upper := by
    intro p' _ hlen _
    rw [List.length_eq_zero_iff.mp hlen]
    exact le_refl 0

/-- **Dynamic programming step.** `q` extends a best plan to `u` to a best plan to the state
it leads to, if no last choice from another best plan gives more there. -/
theorem IsBest.extend {s u : σ} {k : ℕ} {v : ℤ} {p : List κ} {q : κ} (h : P.IsBest s k u v p)
    (hq : q ∈ P.choices u)
    (hbest : ∀ p', P.Admissible s p' → p'.length = k →
      ∃ v' p'', P.IsBest s k (P.endState s p') v' p'')
    (hmax : ∀ u' v' p' q', P.IsBest s k u' v' p' → q' ∈ P.choices u' → P.next u' q' = P.next u q →
      truncate (v' + P.gain u' q') ≤ truncate (v + P.gain u q)) :
    P.IsBest s (k + 1) (P.next u q) (truncate (v + P.gain u q)) (p ++ [q]) where
  admissible := admissible_concat.mpr ⟨h.admissible, h.endState_eq ▸ hq⟩
  length_eq := by rw [List.length_append, h.length_eq, List.length_singleton]
  endState_eq := by rw [endState_concat, h.endState_eq]
  score_eq := by rw [score_concat, h.score_eq, h.endState_eq]
  upper := by
    intro p' hadm hlen hend
    -- split off the last choice of the rival plan
    rcases List.eq_nil_or_concat' p' with rfl | ⟨front, q', rfl⟩
    · simp at hlen
    · rw [admissible_concat] at hadm
      rw [endState_concat] at hend
      have hlen' : front.length = k := by simpa using hlen
      obtain ⟨v', p'', hfront⟩ := hbest front hadm.1 hlen'
      have hle : P.score s 0 front ≤ v' := hfront.upper front hadm.1 hlen' rfl
      rw [score_concat]
      calc truncate (P.score s 0 front + P.gain (P.endState s front) q')
          ≤ truncate (v' + P.gain (P.endState s front) q') := by
            apply truncate_mono
            have hle' : (P.score s 0 front : ℚ) ≤ v' := by exact_mod_cast hle
            linarith
        _ ≤ truncate (v + P.gain u q) := hmax _ v' p'' q' hfront hadm.2 hend

end Problem

end Lib
end LiveStream
