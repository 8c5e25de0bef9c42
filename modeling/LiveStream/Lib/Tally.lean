import Mathlib

/-!
# Counting votes in an ordered map

`mapFind` and `mapSet`, lookup and store in a map that looks at its keys with a comparator only, as
the ordered containers of C++ do: two keys neither of which is below the other are the same key.
The second half is a count of votes in such a map that keeps a leader while it goes.

* `Comparator`, what has to hold of a comparator that tells all keys apart;
* `mapFind_mapSet_self` and `mapFind_mapSet_of_ne`, lookup after a store;
* `tallied_vote`, the map holds the numbers of occurrences;
* `leads_vote_of_lt` and `leads_vote_of_le`, the leader has the most votes, and was the first to
  have as many.
-/

namespace LiveStream
namespace Lib

variable {κ ν : Type*}

/-! ## Ordered maps -/

/-- A strict total order. -/
structure Comparator (less : κ → κ → Bool) : Prop where
  irrefl : ∀ a, less a a = false
  trans : ∀ a b c, less a b = true → less b c = true → less a c = true
  connected : ∀ a b, less a b = false → less b a = false → a = b

variable {less : κ → κ → Bool}

/-- A comparator that is the order of the keys. -/
theorem comparator_of_lt [LinearOrder κ] (h : ∀ a b, less a b = true ↔ a < b) :
    Comparator less where
  irrefl a := by
    rw [← Bool.not_eq_true, h]
    exact lt_irrefl a
  trans a b c hab hbc := (h a c).mpr (((h a b).mp hab).trans ((h b c).mp hbc))
  connected a b hab hba := by
    rw [← Bool.not_eq_true, h, not_lt] at hab hba
    exact le_antisymm hba hab

def mapFind (less : κ → κ → Bool) (key : κ) : List (κ × ν) → Option ν
  | [] => none
  | e :: es => if less e.1 key then mapFind less key es else if less key e.1 then none else some e.2

/-- `map[key] = value`. -/
def mapSet (less : κ → κ → Bool) (key : κ) (value : ν) : List (κ × ν) → List (κ × ν)
  | [] => [(key, value)]
  | e :: es =>
    if less e.1 key then e :: mapSet less key value es
    else if less key e.1 then (key, value) :: e :: es
    else (e.1, value) :: es

theorem mapFind_mapSet_self (h : Comparator less) (key : κ) (value : ν) (es : List (κ × ν)) :
    mapFind less key (mapSet less key value es) = some value := by
  induction es with
  | nil => simp [mapSet, mapFind, h.irrefl]
  | cons e es ih =>
    rw [mapSet]
    cases hbelow : less e.1 key with
    | true => simp [mapFind, hbelow, ih]
    | false =>
      cases habove : less key e.1 with
      | true => simp [mapFind, h.irrefl]
      | false => simp [mapFind, hbelow, habove]

theorem mapFind_mapSet_of_ne (h : Comparator less) {key other : κ} (hne : other ≠ key) (value : ν)
    (es : List (κ × ν)) :
    mapFind less other (mapSet less key value es) = mapFind less other es := by
  induction es with
  | nil =>
    -- one of the two is below the other
    cases hbelow : less key other with
    | true => simp [mapSet, mapFind, hbelow]
    | false =>
      cases habove : less other key with
      | true => simp [mapSet, mapFind, hbelow, habove]
      | false => exact absurd (h.connected _ _ habove hbelow) hne
  | cons e es ih =>
    rw [mapSet]
    cases hbelow : less e.1 key with
    | true =>
      rw [if_pos rfl, mapFind, mapFind, ih]
    | false =>
      rw [if_neg Bool.false_ne_true]
      cases habove : less key e.1 with
      | true =>
        rw [if_pos rfl, mapFind]
        cases hother : less key other with
        | true => rw [if_pos rfl]
        | false =>
          cases hother' : less other key with
          | true =>
            have hlow : less other e.1 = true := h.trans _ _ _ hother' habove
            have hnot : less e.1 other = false := by
              by_contra hhigh
              have hself := h.trans _ _ _ (Bool.not_eq_false _ ▸ hhigh) hlow
              rw [h.irrefl] at hself
              cases hself
            simp [mapFind, hlow, hnot]
          | false => exact absurd (h.connected _ _ hother' hother) hne
      | false =>
        rw [if_neg Bool.false_ne_true, mapFind, mapFind, h.connected _ _ hbelow habove]
        -- the entry keeps its key
        cases hother : less key other with
        | true => rfl
        | false =>
          cases hother' : less other key with
          | true => rfl
          | false => exact absurd (h.connected _ _ hother' hother) hne

/-! ## Votes -/

/-- The count of a key that was created with 0 if it was not there. -/
def addVote (less : κ → κ → Bool) (votes : List (κ × ℕ)) (key : κ) : List (κ × ℕ) :=
  let votes := if mapFind less key votes = none then mapSet less key 0 votes else votes
  mapSet less key ((mapFind less key votes).getD 0 + 1) votes

variable [BEq κ] [LawfulBEq κ]

/-- The map holds the numbers of occurrences. -/
def Tallied (less : κ → κ → Bool) (cast : List κ) (votes : List (κ × ℕ)) : Prop :=
  ∀ key, mapFind less key votes = if 0 < cast.count key then some (cast.count key) else none

omit [LawfulBEq κ] in
theorem tallied_nil : Tallied less ([] : List κ) [] := fun _ => rfl

omit [LawfulBEq κ] in
theorem Tallied.getD {cast : List κ} {votes : List (κ × ℕ)} (h : Tallied less cast votes)
    (key : κ) :
    (mapFind less key votes).getD 0 = cast.count key := by
  rw [h key]
  split
  · rfl
  · next hzero => exact (Nat.eq_zero_of_not_pos hzero).symm

theorem count_concat_of_ne {cast : List κ} {key other : κ} (hne : other ≠ key) :
    (cast ++ [key]).count other = cast.count other := by
  rw [List.count_append, List.count_singleton, if_neg (by simpa using hne.symm), Nat.add_zero]

theorem count_concat_self (cast : List κ) (key : κ) :
    (cast ++ [key]).count key = cast.count key + 1 := by
  rw [List.count_append, List.count_singleton_self]

/-- A vote raises the count of its key, and of no other. -/
theorem tallied_vote (hless : Comparator less) {cast : List κ} {votes : List (κ × ℕ)}
    (h : Tallied less cast votes) (key : κ) :
    Tallied less (cast ++ [key]) (addVote less votes key) := by
  intro other
  unfold addVote
  dsimp only
  by_cases heq : other = key
  · subst heq
    rw [mapFind_mapSet_self hless, count_concat_self, if_pos (Nat.succ_pos _)]
    congr 2
    split
    · next hnone =>
      rw [mapFind_mapSet_self hless, ← h.getD, hnone]
      rfl
    · exact h.getD other
  · rw [mapFind_mapSet_of_ne hless heq, count_concat_of_ne heq]
    split
    · rw [mapFind_mapSet_of_ne hless heq]
      exact h other
    · exact h other

/-- The leader has the most votes, and was the first to have that many. -/
structure Leads (cast : List κ) (most : ℕ) (leader : κ) : Prop where
  count : cast.count leader = most
  le_most : ∀ key, cast.count key ≤ most
  first : ∃ before, before <+: cast ∧ before.count leader = most ∧
    ∀ key, key ≠ leader → before.count key < most

/-- **Step lemma.** A key takes the lead when it has more votes than the leader. -/
theorem leads_vote_of_lt {cast : List κ} {most : ℕ} {key : κ}
    (hmost : ∀ other, cast.count other ≤ most) (hlt : most < (cast ++ [key]).count key) :
    Leads (cast ++ [key]) ((cast ++ [key]).count key) key := by
  have hother : ∀ other, other ≠ key → (cast ++ [key]).count other ≤ most := by
    intro other hne
    rw [count_concat_of_ne hne]
    exact hmost other
  refine ⟨rfl, fun other => ?_, cast ++ [key], List.prefix_refl _, rfl, fun other hne => ?_⟩
  · by_cases heq : other = key
    · rw [heq]
    · exact (hother other heq).trans hlt.le
  · exact (hother other hne).trans_lt hlt

theorem leads_vote_of_le {cast : List κ} {most : ℕ} {leader key : κ} (h : Leads cast most leader)
    (hle : (cast ++ [key]).count key ≤ most) : Leads (cast ++ [key]) most leader := by
  have hleader : leader ≠ key := by
    rintro rfl
    rw [count_concat_self, h.count] at hle
    exact absurd hle (Nat.not_succ_le_self most)
  obtain ⟨before, hbefore, hcount, hfirst⟩ := h.first
  refine ⟨(count_concat_of_ne hleader).trans h.count, fun other => ?_,
    before, hbefore.trans (List.prefix_append _ _), hcount, hfirst⟩
  by_cases heq : other = key
  · rw [heq]
    exact hle
  · rw [count_concat_of_ne heq]
    exact h.le_most other

end Lib
end LiveStream
