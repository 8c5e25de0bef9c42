import Mathlib

/-!
# Neighbouring elements of a list

`neighbours l` pairs every element of `l` with the next one.

* `neighbours_filter`, that cutting a piece out of an ordered list keeps exactly the pairs with
  both ends in the piece;
* `sum_neighbours`, that differences between neighbours add up to the difference between the
  ends;
* `sum_filter_eq_iff`, when two selections of nonnegative terms have the same sum.
-/

namespace LiveStream
namespace Lib

variable {α β : Type*}

/-- Every element with the next one. -/
def neighbours : List α → List (α × α)
  | [] => []
  | [_] => []
  | a :: b :: l => (a, b) :: neighbours (b :: l)

theorem dropLast_zip_tail (l : List α) : l.dropLast.zip l.tail = neighbours l := by
  fun_induction neighbours l with
  | case1 => rfl
  | case2 => rfl
  | case3 a b l ih => rw [← ih]; rfl

theorem rel_of_mem_neighbours {r : α → α → Prop} {l : List α} (hl : l.Pairwise r) {p : α × α}
    (h : p ∈ neighbours l) : r p.1 p.2 := by
  fun_induction neighbours l with
  | case1 => cases h
  | case2 => cases h
  | case3 a b l ih =>
    rw [List.pairwise_cons] at hl
    rcases List.mem_cons.mp h with rfl | h
    · exact hl.1 b (List.mem_cons_self ..)
    · exact ih hl.2 h

theorem mem_neighbours_append {l l' : List α} {p : α × α} (h : p ∈ neighbours l) :
    p ∈ neighbours (l ++ l') := by
  fun_induction neighbours l with
  | case1 => cases h
  | case2 => cases h
  | case3 a b l ih =>
    rcases List.mem_cons.mp h with rfl | h
    · exact List.mem_cons_self ..
    · exact List.mem_cons_of_mem _ (ih h)

/-- In an ordered list, a selection that contains what lies between its elements keeps exactly
the pairs of neighbours with both ends in it. -/
theorem neighbours_filter {r : α → α → Prop} {p : α → Bool}
    (hconvex : ∀ a b c, r a b → r b c → p a = true → p c = true → p b = true) {l : List α}
    (hl : l.Pairwise r) :
    neighbours (l.filter p) = (neighbours l).filter fun q => p q.1 && p q.2 := by
  fun_induction neighbours l with
  | case1 => rfl
  | case2 a => cases ha : p a <;> simp [ha, neighbours]
  | case3 a b l ih =>
    rw [List.pairwise_cons] at hl
    have ih := ih hl.2
    cases ha : p a with
    | false =>
      rw [List.filter_cons_of_neg (by simp [ha]), ih, List.filter_cons_of_neg (by simp [ha])]
    | true =>
      cases hb : p b with
      | true =>
        rw [List.filter_cons_of_pos hb] at ih
        rw [List.filter_cons_of_pos ha, List.filter_cons_of_pos hb, neighbours, ih,
          List.filter_cons_of_pos (by simp [ha, hb])]
      | false =>
        -- nothing after `b` is selected, as `b` would lie between it and `a`
        have hnone : l.filter p = [] := by
          rw [List.filter_eq_nil_iff]
          intro c hc hpc
          have hbc := (List.pairwise_cons.mp hl.2).1 c hc
          have := hconvex a b c (hl.1 b (List.mem_cons_self ..)) hbc ha hpc
          rw [hb] at this
          cases this
        rw [List.filter_cons_of_neg (by simp [hb]), hnone] at ih
        rw [List.filter_cons_of_pos ha, List.filter_cons_of_neg (by simp [hb]), hnone,
          List.filter_cons_of_neg (by simp [hb]), ← ih]
        rfl

/-- The differences between neighbours add up to the difference between the ends. -/
theorem sum_neighbours [AddCommGroup β] (f : α → β) {l : List α} {first last : α}
    (hfirst : l.head? = some first) (hlast : l.getLast? = some last) :
    ((neighbours l).map fun p => f p.2 - f p.1).sum = f last - f first := by
  fun_induction neighbours l generalizing first with
  | case1 => cases hfirst
  | case2 a =>
    obtain rfl : a = first := Option.some.inj hfirst
    obtain rfl : a = last := Option.some.inj hlast
    simp
  | case3 a b l ih =>
    obtain rfl : a = first := Option.some.inj hfirst
    rw [List.getLast?_cons_cons] at hlast
    rw [List.map_cons, List.sum_cons, ih rfl hlast]
    abel

/-! ## Sums of selected terms -/

section
variable {l : List α} {g : α → β}

theorem sum_filter_or [AddCommMonoid β] {p q : α → Prop} [DecidablePred p] [DecidablePred q]
    (hdisjoint : ∀ a ∈ l, p a → ¬q a) :
    ((l.filter p).map g).sum + ((l.filter q).map g).sum =
      ((l.filter fun a => p a ∨ q a).map g).sum := by
  induction l with
  | nil => simp
  | cons a l ih =>
    have ih := ih fun b hb => hdisjoint b (List.mem_cons_of_mem _ hb)
    have ha := hdisjoint a (List.mem_cons_self ..)
    by_cases hp : p a
    · rw [List.filter_cons_of_pos (by simp [hp]), List.filter_cons_of_neg (by simp [ha hp]),
        List.filter_cons_of_pos (by simp [hp]), List.map_cons, List.sum_cons, List.map_cons,
        List.sum_cons, add_assoc, ih]
    · by_cases hq : q a
      · rw [List.filter_cons_of_neg (by simp [hp]), List.filter_cons_of_pos (by simp [hq]),
          List.filter_cons_of_pos (by simp [hq]), List.map_cons, List.sum_cons, List.map_cons,
          List.sum_cons, add_left_comm, ih]
      · rw [List.filter_cons_of_neg (by simp [hp]), List.filter_cons_of_neg (by simp [hq]),
          List.filter_cons_of_neg (by simp [hp, hq]), ih]

variable [AddCommGroup β] [LinearOrder β] [IsOrderedAddMonoid β]

theorem sum_filter_eq_iff_of_imp {p q : α → Prop} [DecidablePred p] [DecidablePred q]
    (hnonneg : ∀ a ∈ l, 0 ≤ g a) (himp : ∀ a ∈ l, p a → q a) :
    ((l.filter p).map g).sum = ((l.filter q).map g).sum ↔ ∀ a ∈ l, q a → ¬p a → g a = 0 := by
  have hsplit := sum_filter_or (l := l) (g := g) (p := p) (q := fun a => q a ∧ ¬p a)
    fun a _ hp hq => hq.2 hp
  have hor : (l.filter fun a => p a ∨ q a ∧ ¬p a) = l.filter q := by
    apply List.filter_congr
    intro a ha
    have := himp a ha
    simp only [decide_eq_decide]
    tauto
  rw [hor] at hsplit
  rw [← hsplit, left_eq_add]
  constructor
  · intro hzero a ha hq hp
    apply List.all_zero_of_le_zero_le_of_sum_eq_zero _ hzero
    · exact List.mem_map_of_mem (List.mem_filter.mpr ⟨ha, by simpa using ⟨hq, hp⟩⟩)
    · intro b hb
      obtain ⟨c, hc, rfl⟩ := List.mem_map.mp hb
      exact hnonneg c (List.mem_filter.mp hc).1
  · intro hzero
    apply List.sum_eq_zero
    intro b hb
    obtain ⟨c, hc, rfl⟩ := List.mem_map.mp hb
    obtain ⟨hc, hqp⟩ := List.mem_filter.mp hc
    have hqp : q c ∧ ¬p c := by simpa using hqp
    exact hzero c hc hqp.1 hqp.2

/-- Two selections of which one contains the other have the same sum exactly if they differ in
terms that are 0. -/
theorem sum_filter_eq_iff {p q : α → Prop} [DecidablePred p] [DecidablePred q]
    (hnonneg : ∀ a ∈ l, 0 ≤ g a) (himp : (∀ a ∈ l, p a → q a) ∨ ∀ a ∈ l, q a → p a) :
    ((l.filter p).map g).sum = ((l.filter q).map g).sum ↔ ∀ a ∈ l, g a ≠ 0 → (p a ↔ q a) := by
  rcases himp with himp | himp
  · rw [sum_filter_eq_iff_of_imp hnonneg himp]
    refine forall₂_congr fun a ha => ?_
    have := himp a ha
    tauto
  · rw [eq_comm, sum_filter_eq_iff_of_imp hnonneg himp]
    refine forall₂_congr fun a ha => ?_
    have := himp a ha
    tauto

end

end Lib
end LiveStream
