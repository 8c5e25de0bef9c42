import LiveStream.Lib.Plan
import LiveStream.Lib.Run

/-!
# Relaxation of a table of best totals

The inner loop of a forward dynamic program: candidates arrive in some order, each has a key
and a total, and a candidate enters the table if its key is new or its total exceeds the
stored one. The table stores totals as integers, so the stored total is a truncated one
while the comparison is made with the exact one.

`relaxed_run` says what a pass over a list of candidates leaves behind, in whatever order
they come: for every key a candidate of the largest truncated total.
-/

namespace LiveStream
namespace Lib

variable {σ C V : Type*} [DecidableEq σ]

/-- Insertion into a set that is kept as a list in order of insertion. -/
def insertNew (l : List σ) (a : σ) : List σ := if a ∈ l then l else l ++ [a]

theorem mem_insertNew {l : List σ} {a s : σ} : s ∈ insertNew l a ↔ s ∈ l ∨ s = a := by
  unfold insertNew
  split
  · next ha => exact ⟨Or.inl, fun h => h.elim id fun h => h ▸ ha⟩
  · rw [List.mem_append, List.mem_singleton]

/-- The table, and the keys entered or improved in this pass. -/
structure Frontier (σ V : Type*) where
  table : σ → Option V
  touched : List σ

def Frontier.enter (f : Frontier σ V) (s : σ) (e : V) : Frontier σ V where
  table := Function.update f.table s (some e)
  touched := insertNew f.touched s

/-- Whether a total enters the table: there is no entry, or a smaller one. -/
def improves (val : V → ℤ) (stored : Option V) (total : ℚ) : Bool :=
  match stored with
  | none => true
  | some e => (val e : ℚ) < total

section
variable (key : C → σ) (total : C → ℚ) (entry : C → V) (val : V → ℤ)

/-- One candidate. -/
def relax (f : Frontier σ V) (c : C) : Frontier σ V :=
  if improves val (f.table (key c)) (total c) then f.enter (key c) (entry c) else f

/-- `b` has the largest truncated total of the candidates for `s`. -/
structure IsTop (cs : List C) (s : σ) (b : C) : Prop where
  mem : b ∈ cs
  key_eq : key b = s
  upper : ∀ c ∈ cs, key c = s → truncate (total c) ≤ truncate (total b)

/-- What a pass over the candidates `cs` makes of the table `t`. -/
structure Relaxed (t : σ → Option V) (cs : List C) (f : Frontier σ V) : Prop where
  frame : ∀ s, (∀ c ∈ cs, key c ≠ s) → f.table s = t s
  best : ∀ c ∈ cs, ∃ b, IsTop key total cs (key c) b ∧ f.table (key c) = some (entry b)
  mem_touched : ∀ s, s ∈ f.touched ↔ ∃ c ∈ cs, key c = s

variable {key total entry val}

omit [DecidableEq σ] in
/-- A further candidate leaves the top one on top unless it has the key and a larger total. -/
theorem IsTop.concat_old {cs : List C} {s : σ} {b c : C} (h : IsTop key total cs s b)
    (hc : key c = s → truncate (total c) ≤ truncate (total b)) :
    IsTop key total (cs ++ [c]) s b where
  mem := List.mem_append_left _ h.mem
  key_eq := h.key_eq
  upper := by
    intro c' hc' hkey
    rcases List.mem_append.mp hc' with hc' | hc'
    · exact h.upper c' hc' hkey
    · rw [List.mem_singleton.mp hc'] at hkey ⊢
      exact hc hkey

omit [DecidableEq σ] in
theorem isTop_concat_new {cs : List C} {c : C}
    (hc : ∀ c' ∈ cs, key c' = key c → truncate (total c') ≤ truncate (total c)) :
    IsTop key total (cs ++ [c]) (key c) c where
  mem := List.mem_append_right _ (List.mem_singleton_self c)
  key_eq := rfl
  upper := by
    intro c' hc' hkey
    rcases List.mem_append.mp hc' with hc' | hc'
    · exact hc c' hc' hkey
    · rw [List.mem_singleton.mp hc']

omit [DecidableEq σ] in
/-- A candidate of another key does not concern the entry of `d`. -/
theorem Relaxed.best_of_ne {t : σ → Option V} {cs : List C} {f : Frontier σ V} {c d : C}
    (h : Relaxed key total entry t cs f) (hd : d ∈ cs ++ [c]) (hkey : key d ≠ key c) :
    ∃ b, IsTop key total (cs ++ [c]) (key d) b ∧ f.table (key d) = some (entry b) := by
  have hdcs : d ∈ cs := by
    rcases List.mem_append.mp hd with hd | hd
    · exact hd
    · exact absurd (congrArg key (List.mem_singleton.mp hd)) hkey
  obtain ⟨b, hb, htable⟩ := h.best d hdcs
  exact ⟨b, hb.concat_old fun hc => absurd hc.symm hkey, htable⟩

theorem Relaxed.enter {t : σ → Option V} {cs : List C} {f : Frontier σ V} {c : C}
    (h : Relaxed key total entry t cs f)
    (hmax : ∀ c' ∈ cs, key c' = key c → truncate (total c') ≤ truncate (total c)) :
    Relaxed key total entry t (cs ++ [c]) (f.enter (key c) (entry c)) where
  frame := by
    intro s hs
    have hne : s ≠ key c := (hs c (by simp)).symm
    show Function.update f.table (key c) (some (entry c)) s = t s
    rw [Function.update_of_ne hne]
    exact h.frame s fun c' hc' => hs c' (List.mem_append_left _ hc')
  best := by
    intro d hd
    show ∃ b, _ ∧ Function.update f.table (key c) (some (entry c)) (key d) = some (entry b)
    by_cases hkey : key d = key c
    · rw [hkey]
      exact ⟨c, isTop_concat_new hmax, Function.update_self ..⟩
    · rw [Function.update_of_ne hkey]
      exact h.best_of_ne hd hkey
  mem_touched := by
    intro s
    show s ∈ insertNew f.touched (key c) ↔ _
    rw [mem_insertNew, h.mem_touched s, eq_comm (a := s)]
    simp only [List.mem_append, List.mem_singleton, or_and_right, exists_or, exists_eq_left]

theorem Relaxed.skip {t : σ → Option V} {cs : List C} {f : Frontier σ V} {b c : C}
    (h : Relaxed key total entry t cs f) (hb : IsTop key total cs (key c) b)
    (htable : f.table (key c) = some (entry b)) (hc : truncate (total c) ≤ truncate (total b)) :
    Relaxed key total entry t (cs ++ [c]) f where
  frame := fun s hs => h.frame s fun c' hc' => hs c' (List.mem_append_left _ hc')
  best := by
    intro d hd
    by_cases hkey : key d = key c
    · rw [hkey]
      exact ⟨b, hb.concat_old fun _ => hc, htable⟩
    · exact h.best_of_ne hd hkey
  mem_touched := by
    intro s
    rw [h.mem_touched s]
    constructor
    · rintro ⟨d, hd, hds⟩
      exact ⟨d, List.mem_append_left _ hd, hds⟩
    · rintro ⟨d, hd, rfl⟩
      rcases List.mem_append.mp hd with hd | hd
      · exact ⟨d, hd, rfl⟩
      · rw [List.mem_singleton.mp hd]
        exact ⟨b, hb.mem, hb.key_eq⟩

/-- **A pass keeps the best.** Order and repetition of the candidates do not matter, and
comparing the stored integer with the exact total loses nothing. -/
theorem relaxed_run {t : σ → Option V} {cs : List C}
    (hentry : ∀ c, val (entry c) = truncate (total c)) (ht : ∀ c ∈ cs, t (key c) = none) :
    Relaxed key total entry t cs (run (relax key total entry val) ⟨t, []⟩ cs) := by
  induction cs using List.reverseRecOn with
  | nil => exact ⟨fun _ _ => rfl, fun c hc => absurd hc List.not_mem_nil, fun s => by simp⟩
  | append_singleton cs c ih =>
    have h := ih fun c' hc' => ht c' (List.mem_append_left _ hc')
    rw [run_concat]
    set f := run (relax key total entry val) ⟨t, []⟩ cs
    by_cases hseen : ∃ c' ∈ cs, key c' = key c
    · -- the entry is that of the top candidate so far
      obtain ⟨c', hc', hkey⟩ := hseen
      obtain ⟨b, hb, htable⟩ := h.best c' hc'
      rw [hkey] at hb htable
      by_cases hlt : (val (entry b) : ℚ) < total c
      · have himproves : improves val (f.table (key c)) (total c) = true := by
          simpa [improves, htable] using hlt
        have hle : truncate (total b) ≤ truncate (total c) := hentry b ▸ le_truncate hlt.le
        rw [relax, if_pos himproves]
        exact h.enter fun d hd hdc => (hb.upper d hd hdc).trans hle
      · have hkeeps : ¬improves val (f.table (key c)) (total c) = true := by
          simpa [improves, htable] using hlt
        have hle : truncate (total c) ≤ truncate (total b) :=
          hentry b ▸ truncate_le (not_lt.mp hlt)
        rw [relax, if_neg hkeeps]
        exact h.skip hb htable hle
    · -- the first candidate of its key enters an empty place
      have hnone : f.table (key c) = none := by
        rw [h.frame (key c) fun c' hc' hkey => hseen ⟨c', hc', hkey⟩]
        exact ht c (by simp)
      have himproves : improves val (f.table (key c)) (total c) = true := by
        rw [hnone]
        rfl
      rw [relax, if_pos himproves]
      exact h.enter fun c' hc' hkey => absurd ⟨c', hc', hkey⟩ hseen

end

end Lib
end LiveStream
