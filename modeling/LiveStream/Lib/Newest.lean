import Mathlib

/-!
# Keeping the newest

Facts about streams of items of which only the highest-ranked one per class is kept:

* `sortOn`, a stable sort by a key, that its last element has the largest key, and that
  positions count the elements below where the keys differ;
* `Covers r xs ys`, that `xs` is a selection from `ys` in which every item of `ys` has a
  representative at least as high in `r`, with its closure rules;
* `keepBy`, a fold that keeps one item by comparing it with each next one, and `keepMax`,
  which keeps the first item of highest rank. Two streams of which one
  covers the other keep the same item (`foldl_keepMax_eq`) and the same maximum
  (`foldl_max_eq`), whatever their orders, as long as the rank tells items apart.
-/

namespace LiveStream
namespace Lib

variable {α β γ : Type*}

/-! ## Sorting by a key -/

/-- The list in increasing order of `key`; items of equal key keep their order. -/
def sortOn (key : α → ℤ) (l : List α) : List α := l.insertionSort fun a b => key a ≤ key b

@[simp] theorem mem_sortOn {key : α → ℤ} {l : List α} {a : α} : a ∈ sortOn key l ↔ a ∈ l :=
  List.mem_insertionSort _

theorem pairwise_sortOn (key : α → ℤ) (l : List α) :
    (sortOn key l).Pairwise fun a b => key a ≤ key b := by
  have : Std.Total fun a b : α => key a ≤ key b := ⟨fun a b => le_total (key a) (key b)⟩
  have : IsTrans α fun a b => key a ≤ key b := ⟨fun _ _ _ => le_trans⟩
  exact List.pairwise_insertionSort _ l

/-- The last element of the sorted list has the largest key. -/
theorem le_getLast?_sortOn {key : α → ℤ} {l : List α} {a b : α}
    (hlast : (sortOn key l).getLast? = some b) (ha : a ∈ l) : key a ≤ key b := by
  obtain ⟨init, hinit⟩ := List.getLast?_eq_some_iff.mp hlast
  have hmem : a ∈ init ++ [b] := hinit ▸ mem_sortOn.mpr ha
  have hsorted := hinit ▸ pairwise_sortOn key l
  rcases List.mem_append.mp hmem with h | h
  · exact (List.pairwise_append.mp hsorted).2.2 a h b (List.mem_singleton_self b)
  · rw [List.mem_singleton.mp h]

/-- A list with an element has a last one. -/
theorem exists_getLast?_sortOn (key : α → ℤ) {l : List α} {a : α} (ha : a ∈ l) :
    ∃ b ∈ l, (sortOn key l).getLast? = some b := by
  have hne : sortOn key l ≠ [] := List.ne_nil_of_mem (mem_sortOn.mpr ha)
  refine ⟨(sortOn key l).getLast hne, ?_, List.getLast?_eq_some_getLast hne⟩
  exact mem_sortOn.mp (List.getLast_mem hne)

theorem perm_sortOn (key : α → ℤ) (l : List α) : (sortOn key l).Perm l :=
  List.perm_insertionSort _ l

/-- Sorting by keys that differ is strict. -/
theorem pairwise_lt_sortOn {key : α → ℤ} {l : List α} (h : (l.map key).Nodup) :
    (sortOn key l).Pairwise fun a b => key a < key b := by
  have hne : (sortOn key l).Pairwise fun a b => key a ≠ key b :=
    List.pairwise_map.mp (((perm_sortOn key l).map key).nodup_iff.mpr h)
  exact (pairwise_sortOn key l).imp₂ (fun _ _ hle hne => lt_of_le_of_ne hle hne) hne

/-- In a strictly sorted list the position of an element is how many are below it. -/
theorem countP_lt_of_getElem? {key : α → ℤ} {l : List α} {k : ℕ} {a : α}
    (hl : l.Pairwise fun a b => key a < key b) (ha : l[k]? = some a) :
    l.countP (fun b => key b < key a) = k := by
  induction l generalizing k with
  | nil => simp at ha
  | cons b l ih =>
    rw [List.pairwise_cons] at hl
    cases k with
    | zero =>
      obtain rfl : b = a := by simpa using ha
      have hnone : l.countP (fun c => key c < key b) = 0 :=
        List.countP_eq_zero.mpr fun c hc => by simpa using (hl.1 c hc).le
      simp [hnone]
    | succ k =>
      rw [List.getElem?_cons_succ] at ha
      rw [List.countP_cons, ih hl.2 ha, if_pos (by simpa using hl.1 a (List.mem_of_getElem? ha))]

/-- Selecting by a key that tells the elements apart does not depend on their order. -/
theorem filter_eq_of_perm [DecidableEq β] {key : α → β} {l l' : List α} (h : l.Perm l')
    (hl : (l.map key).Nodup) (k : β) :
    (l.filter fun a => k = key a) = l'.filter fun a => k = key a := by
  have hperm := h.filter fun a => decide (k = key a)
  have hkey : ∀ a ∈ l.filter fun a => k = key a, k = key a := by
    intro a ha
    simpa using (List.mem_filter.mp ha).2
  have hnodup : ((l.filter fun a => k = key a).map key).Nodup :=
    hl.sublist (List.filter_sublist.map key)
  cases hsel : l.filter fun a => k = key a with
  | nil =>
    rw [hsel] at hperm
    exact hperm.nil_eq
  | cons a as =>
    rw [hsel] at hperm hkey hnodup
    -- a second element would have the same key
    have has : as = [] := by
      rw [List.eq_nil_iff_forall_not_mem]
      intro b hb
      apply (List.nodup_cons.mp hnodup).1
      rw [← hkey a (List.mem_cons_self ..), hkey b (List.mem_cons_of_mem _ hb)]
      exact List.mem_map_of_mem hb
    rw [has] at hperm ⊢
    exact hperm.singleton_eq

/-! ## Covering selections -/

/-- `xs` is a selection from `ys` that holds, for every item of `ys`, one above it. -/
def Covers (r : α → α → Prop) (xs ys : List α) : Prop :=
  (∀ x ∈ xs, x ∈ ys) ∧ ∀ y ∈ ys, ∃ x ∈ xs, r y x

theorem Covers.of_mem_iff {r : α → α → Prop} (hr : ∀ a, r a a) {xs ys : List α}
    (h : ∀ a, a ∈ xs ↔ a ∈ ys) : Covers r xs ys :=
  ⟨fun x hx => (h x).mp hx, fun y hy => ⟨y, (h y).mpr hy, hr y⟩⟩

theorem Covers.trans {r : α → α → Prop} (hr : ∀ a b c, r a b → r b c → r a c)
    {xs ys zs : List α} (h : Covers r xs ys) (h' : Covers r ys zs) : Covers r xs zs := by
  refine ⟨fun x hx => h'.1 x (h.1 x hx), fun z hz => ?_⟩
  obtain ⟨y, hy, hzy⟩ := h'.2 z hz
  obtain ⟨x, hx, hyx⟩ := h.2 y hy
  exact ⟨x, hx, hr z y x hzy hyx⟩

theorem Covers.append {r : α → α → Prop} {xs xs' ys ys' : List α} (h : Covers r xs ys)
    (h' : Covers r xs' ys') : Covers r (xs ++ xs') (ys ++ ys') := by
  constructor
  · intro x hx
    rcases List.mem_append.mp hx with hx | hx
    · exact List.mem_append_left _ (h.1 x hx)
    · exact List.mem_append_right _ (h'.1 x hx)
  · intro y hy
    rcases List.mem_append.mp hy with hy | hy
    · obtain ⟨x, hx, hyx⟩ := h.2 y hy
      exact ⟨x, List.mem_append_left _ hx, hyx⟩
    · obtain ⟨x, hx, hyx⟩ := h'.2 y hy
      exact ⟨x, List.mem_append_right _ hx, hyx⟩

/-- A class that the relation respects is covered by its own part of the selection. -/
theorem Covers.filter {r : α → α → Prop} {p : α → Bool} (hp : ∀ a b, r a b → p a = p b)
    {xs ys : List α} (h : Covers r xs ys) : Covers r (xs.filter p) (ys.filter p) := by
  constructor
  · intro x hx
    obtain ⟨hx, hpx⟩ := List.mem_filter.mp hx
    exact List.mem_filter.mpr ⟨h.1 x hx, hpx⟩
  · intro y hy
    obtain ⟨hy, hpy⟩ := List.mem_filter.mp hy
    obtain ⟨x, hx, hyx⟩ := h.2 y hy
    exact ⟨x, List.mem_filter.mpr ⟨hx, (hp y x hyx) ▸ hpy⟩, hyx⟩

/-! ## The fold that keeps the highest rank -/

section
variable [LinearOrder β]

/-- Keep what is held unless `x` is to replace it. -/
def keepBy (replaces : α → α → Bool) (held : Option α) (x : α) : Option α :=
  match held with
  | none => some x
  | some a => if replaces a x then some x else some a

theorem keepBy_eq_some {replaces : α → α → Bool} {held : Option α} {x s : α}
    (h : keepBy replaces held x = some s) : s = x ∨ held = some s := by
  unfold keepBy at h
  split at h
  · exact Or.inl (Option.some.inj h).symm
  · split at h
    · exact Or.inl (Option.some.inj h).symm
    · exact Or.inr h

theorem mem_of_foldl_keepBy {replaces : α → α → Bool} {xs : List α} {a : α}
    (h : xs.foldl (keepBy replaces) none = some a) : a ∈ xs := by
  induction xs using List.reverseRecOn with
  | nil => cases h
  | append_singleton xs y ih =>
    rw [List.foldl_append] at h
    rcases keepBy_eq_some h with rfl | hheld
    · exact List.mem_append_right _ (List.mem_singleton_self _)
    · exact List.mem_append_left _ (ih hheld)

/-- What is held is kept if nothing in the stream replaces it. -/
theorem foldl_keepBy_of_forall {replaces : α → α → Bool} {a : α} {xs : List α}
    (h : ∀ x ∈ xs, replaces a x = false) : xs.foldl (keepBy replaces) (some a) = some a := by
  induction xs with
  | nil => rfl
  | cons x xs ih =>
    have hkeep : keepBy replaces (some a) x = some a := by
      rw [keepBy, h x (List.mem_cons_self ..), if_neg Bool.false_ne_true]
    rw [List.foldl_cons, hkeep]
    exact ih fun y hy => h y (List.mem_cons_of_mem _ hy)

/-- If items are replaced by rank, whatever happens to ties, the fold keeps an item of the
stream that none of the stream outranks. -/
theorem foldl_keepBy_spec {replaces : α → α → Bool} {rank : α → β}
    (hyes : ∀ a x, replaces a x = true → rank a ≤ rank x)
    (hno : ∀ a x, replaces a x = false → rank x ≤ rank a) (xs : List α) :
    (xs = [] ∧ xs.foldl (keepBy replaces) none = none) ∨
      ∃ a ∈ xs, xs.foldl (keepBy replaces) none = some a ∧ ∀ x ∈ xs, rank x ≤ rank a := by
  induction xs using List.reverseRecOn with
  | nil => exact Or.inl ⟨rfl, rfl⟩
  | append_singleton xs y ih =>
    right
    rw [List.foldl_append]
    rcases ih with ⟨rfl, hnone⟩ | ⟨a, ha, hsome, hmax⟩
    · exact ⟨y, by simp, by simp [keepBy], by simp⟩
    · rw [hsome]
      simp only [List.foldl_cons, List.foldl_nil, keepBy, List.mem_append, List.mem_singleton]
      cases hr : replaces a y with
      | true =>
        refine ⟨y, Or.inr rfl, if_pos rfl, ?_⟩
        rintro x (hx | rfl)
        · exact (hmax x hx).trans (hyes a y hr)
        · exact le_refl _
      | false =>
        refine ⟨a, Or.inl ha, if_neg Bool.false_ne_true, ?_⟩
        rintro x (hx | rfl)
        · exact hmax x hx
        · exact hno a x hr

/-- Keep what is held unless `x` ranks higher. -/
def keepMax (rank : α → β) : Option α → α → Option α := keepBy fun a x => rank a < rank x

theorem foldl_keepMax_spec (rank : α → β) (xs : List α) :
    (xs = [] ∧ xs.foldl (keepMax rank) none = none) ∨
      ∃ a ∈ xs, xs.foldl (keepMax rank) none = some a ∧ ∀ x ∈ xs, rank x ≤ rank a := by
  apply foldl_keepBy_spec
  · intro a x h
    exact (of_decide_eq_true h).le
  · intro a x h
    exact not_lt.mp (of_decide_eq_false h)

/-- **The kept item depends on the covered items only.** -/
theorem foldl_keepMax_eq {rank : α → β} {r : α → α → Prop} (hr : ∀ a b, r a b → rank a ≤ rank b)
    {xs ys : List α} (h : Covers r xs ys) (hinj : ∀ a ∈ ys, ∀ b ∈ ys, rank a = rank b → a = b) :
    xs.foldl (keepMax rank) none = ys.foldl (keepMax rank) none := by
  rcases foldl_keepMax_spec rank xs with ⟨rfl, hx⟩ | ⟨a, ha, hx, hamax⟩
  · have hys : ys = [] := by
      by_contra hne
      obtain ⟨y, hy⟩ := List.exists_mem_of_ne_nil ys hne
      obtain ⟨x, hx, -⟩ := h.2 y hy
      cases hx
    rw [hys]
  · rcases foldl_keepMax_spec rank ys with ⟨rfl, -⟩ | ⟨b, hb, hy, hbmax⟩
    · exact absurd (h.1 a ha) (List.not_mem_nil)
    · obtain ⟨x, hxm, hbx⟩ := h.2 b hb
      have hba : rank b ≤ rank a := (hr b x hbx).trans (hamax x hxm)
      have hab : rank a ≤ rank b := hbmax a (h.1 a ha)
      rw [hx, hy, hinj a (h.1 a ha) b hb (le_antisymm hab hba)]

theorem le_foldl_max {f : α → β} {c : β} (xs : List α) (m : β) :
    xs.foldl (fun m x => max m (f x)) m ≤ c ↔ m ≤ c ∧ ∀ x ∈ xs, f x ≤ c := by
  induction xs generalizing m with
  | nil => simp
  | cons x xs ih =>
    rw [List.foldl_cons, ih, max_le_iff, List.forall_mem_cons, and_assoc]

/-- The running maximum depends on the covered items only. -/
theorem foldl_max_eq {f : α → β} {r : α → α → Prop} (hr : ∀ a b, r a b → f a ≤ f b)
    {xs ys : List α} (h : Covers r xs ys) (m : β) :
    xs.foldl (fun m x => max m (f x)) m = ys.foldl (fun m x => max m (f x)) m := by
  refine eq_of_forall_ge_iff fun c => ?_
  rw [le_foldl_max, le_foldl_max]
  refine and_congr_right fun _ => ⟨fun hx y hy => ?_, fun hy x hx => hy x (h.1 x hx)⟩
  obtain ⟨x, hxm, hyx⟩ := h.2 y hy
  exact (hr y x hyx).trans (hx x hxm)

end

end Lib
end LiveStream
