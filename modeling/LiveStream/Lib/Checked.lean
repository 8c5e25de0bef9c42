import Mathlib

/-!
# Computations that can fail, where they do not

A program whose reads are checked is a computation in `Option` that ends in `none` at the first
read outside its data. These lemmas turn the fact that no single step fails into the fact that
a whole traversal or loop is the plain one.
-/

namespace LiveStream
namespace Lib

variable {α β : Type*}

/-- `l[k]` for a signed subscript of C++, which has no entries before the first. -/
def checkedGet (l : List α) (k : ℤ) : Option α := if 0 ≤ k then l[k.toNat]? else none

theorem checkedGet_eq {l : List α} {k : ℤ} (h0 : 0 ≤ k) (hk : k < l.length) (d : α) :
    checkedGet l k = some (l.getD k.toNat d) := by
  have hlt : k.toNat < l.length := by omega
  rw [checkedGet, if_pos h0, List.getElem?_eq_getElem hlt, List.getD_eq_getElem _ _ hlt]

theorem lt_of_checkedGet {l : List α} {k : ℤ} {a : α} (h : checkedGet l k = some a) :
    0 ≤ k ∧ k < l.length := by
  rw [checkedGet] at h
  split at h
  · have hlt := (List.getElem?_eq_some_iff.mp h).1
    omega
  · cases h

theorem mem_of_checkedGet {l : List α} {k : ℤ} {a : α} (h : checkedGet l k = some a) : a ∈ l := by
  rw [checkedGet] at h
  split at h
  · exact List.mem_of_getElem? h
  · cases h

/-- A quotient, where one by zero is not a number. -/
def checkedDiv {K : Type*} [DivisionRing K] [DecidableEq K] (x y : K) : Option K :=
  if y = 0 then none else some (x / y)

/-- A traversal no step of which fails is a map. -/
theorem mapM_eq_map {f : α → Option β} {g : α → β} {l : List α}
    (h : ∀ a ∈ l, f a = some (g a)) : l.mapM f = some (l.map g) := by
  induction l with
  | nil => rfl
  | cons a l ih =>
    have hl := ih fun b hb => h b (List.mem_cons_of_mem _ hb)
    simp [List.mapM_cons, h a (List.mem_cons_self ..), hl]

theorem length_of_mapM {f : α → Option β} {l : List α} {r : List β}
    (h : l.mapM f = some r) : r.length = l.length := by
  induction l generalizing r with
  | nil =>
    simp only [List.mapM_nil, Option.pure_def, Option.some.injEq] at h
    rw [← h]
    rfl
  | cons a l ih =>
    rw [List.mapM_cons] at h
    simp only [Option.bind_eq_bind, Option.bind_eq_some_iff, Option.pure_def,
      Option.some.injEq] at h
    obtain ⟨b, -, bs, hbs, rfl⟩ := h
    rw [List.length_cons, List.length_cons, ih hbs]

/-- What a traversal returns comes from its entries. -/
theorem mem_of_mapM {f : α → Option β} {l : List α} {r : List β} (h : l.mapM f = some r) {b : β}
    (hb : b ∈ r) : ∃ a ∈ l, f a = some b := by
  induction l generalizing r with
  | nil =>
    simp only [List.mapM_nil, Option.pure_def, Option.some.injEq] at h
    subst h
    exact absurd hb List.not_mem_nil
  | cons a l ih =>
    rw [List.mapM_cons] at h
    simp only [Option.bind_eq_bind, Option.bind_eq_some_iff, Option.pure_def,
      Option.some.injEq] at h
    obtain ⟨b', hb', bs, hbs, rfl⟩ := h
    rcases List.mem_cons.mp hb with rfl | hb
    · exact ⟨a, List.mem_cons_self .., hb'⟩
    · obtain ⟨a', ha', hfa⟩ := ih hbs hb
      exact ⟨a', List.mem_cons_of_mem _ ha', hfa⟩

/-- A loop no step of which fails, in the states its invariant allows, is a plain loop. -/
theorem foldlM_eq_foldl {f : β → α → Option β} {g : β → α → β} {P : β → Prop} {l : List α}
    (h : ∀ b, P b → ∀ a ∈ l, f b a = some (g b a) ∧ P (g b a)) {b : β} (hb : P b) :
    l.foldlM f b = some (l.foldl g b) ∧ P (l.foldl g b) := by
  induction l generalizing b with
  | nil => exact ⟨rfl, hb⟩
  | cons a l ih =>
    obtain ⟨hstep, hP⟩ := h b hb a (List.mem_cons_self ..)
    have htail := ih (fun c hc a' ha' => h c hc a' (List.mem_cons_of_mem _ ha')) hP
    rw [List.foldlM_cons, hstep]
    exact htail

/-- A loop whose steps fail for some entries, whatever the state, ends only if it meets none. -/
theorem isSome_of_foldlM {γ : Type*} {h : α → Option γ} {k : β → α → γ → β} {l : List α}
    {b b' : β} (hrun : l.foldlM (fun b a => (h a).map (k b a)) b = some b') :
    ∀ a ∈ l, (h a).isSome := by
  induction l generalizing b with
  | nil => exact fun a ha => absurd ha List.not_mem_nil
  | cons a l ih =>
    rw [List.foldlM_cons, Option.bind_eq_bind, Option.bind_eq_some_iff] at hrun
    obtain ⟨b₁, hfirst, hrest⟩ := hrun
    rw [List.forall_mem_cons]
    refine ⟨?_, ih hrest⟩
    rw [Option.map_eq_some_iff] at hfirst
    obtain ⟨c, hc, -⟩ := hfirst
    rw [hc]
    rfl

/-- A loop whose steps do not fail in the states that fit the entries read so far. -/
theorem foldlM_history {f : β → α → Option β} {P : List α → β → Prop} {b : β} (h0 : P [] b)
    (hstep : ∀ seen b x, P seen b → ∃ b', f b x = some b' ∧ P (seen ++ [x]) b') (l : List α) :
    ∃ b', l.foldlM f b = some b' ∧ P l b' := by
  induction l using List.reverseRecOn with
  | nil => exact ⟨b, rfl, h0⟩
  | append_singleton l x ih =>
    obtain ⟨b₁, hrun, hP⟩ := ih
    obtain ⟨b₂, hx, hP'⟩ := hstep l b₁ x hP
    refine ⟨b₂, ?_, hP'⟩
    rw [List.foldlM_append, hrun]
    simp [hx]

end Lib
end LiveStream
