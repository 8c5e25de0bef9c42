import Mathlib

/-!
# Records of a history

A history grows at its end. Some of its entries count. An entry is a record if all the entries after
it that count are smaller. A filter that keeps a few entries and drops the others can still promise
that what it keeps are records.

* `record_concat` and `Record.concat`, what a new entry does to the records.
-/

namespace LiveStream
namespace Lib

variable {α β : Type*} [Preorder α] {counts : β → Prop} {key : β → α} {h : List β} {e x : β}

/-- The entry `e` is in the history, and all entries after it that count are smaller. -/
def Record (counts : β → Prop) (key : β → α) (h : List β) (e : β) : Prop :=
  ∃ pre post, h = pre ++ e :: post ∧ ∀ x ∈ post, counts x → key x < key e

/-- The newest entry is a record. -/
theorem record_concat (counts : β → Prop) (key : β → α) (h : List β) (e : β) :
    Record counts key (h ++ [e]) e :=
  ⟨h, [], rfl, fun _ hx => absurd hx List.not_mem_nil⟩

/-- A record stays one until an entry comes that counts and is not smaller. -/
theorem Record.concat (hr : Record counts key h e) (hx : counts x → key x < key e) :
    Record counts key (h ++ [x]) e := by
  obtain ⟨pre, post, rfl, hpost⟩ := hr
  refine ⟨pre, post ++ [x], by simp, ?_⟩
  intro y hy
  rcases List.mem_append.mp hy with hy | hy
  · exact hpost y hy
  · rw [List.mem_singleton.mp hy]
    exact hx

end Lib
end LiveStream
