import Mathlib

/-!
# Splitting at a separator

`text.split(sep)` for a separator of any length: the text is read from the left, and where the
separator starts a new piece begins behind it.

* `splitGo_append`, characters at which no separator starts go to the current piece;
* `splitGo_sep`, a separator ends it;
* `Apart`, the texts in which a separator of two characters does not occur.
-/

namespace LiveStream
namespace Lib

variable {α : Type*}

/-! ## Characters that do not follow each other -/

/-- The characters `a` and `b` do not follow each other. -/
def Apart (a b : α) (text : List α) : Prop := text.IsChain fun x y => ¬(x = a ∧ y = b)

theorem apart_of_not_mem {a b : α} {text : List α} (h : a ∉ text) : Apart a b text := by
  unfold Apart
  induction text with
  | nil => exact .nil
  | cons x text ih =>
    rw [List.isChain_cons]
    refine ⟨fun y _ hxy => h (hxy.1 ▸ List.mem_cons_self ..), ih fun hmem => ?_⟩
    exact h (List.mem_cons_of_mem _ hmem)

theorem apart_iff_not_infix {a b : α} {text : List α} : Apart a b text ↔ ¬ [a, b] <:+: text := by
  constructor
  · rintro h hinfix
    have hpair : [a, b].IsChain fun x y => ¬(x = a ∧ y = b) := List.IsChain.infix h hinfix
    exact (List.isChain_cons_cons.mp hpair).1 ⟨rfl, rfl⟩
  · intro h
    unfold Apart
    induction text with
    | nil => exact .nil
    | cons x text ih =>
      rw [List.isChain_cons]
      refine ⟨?_, ih fun hinfix => h (List.infix_cons hinfix)⟩
      rintro y hy ⟨rfl, rfl⟩
      -- the two stand at the front
      obtain ⟨rest, rfl⟩ : ∃ rest, text = y :: rest := by
        cases text with
        | nil => cases hy
        | cons z rest => exact ⟨rest, by rw [Option.some.inj hy]⟩
      exact h ⟨[], rest, rfl⟩

/-- Two texts with a character between them that is neither. -/
theorem Apart.join {a b c : α} {text text' : List α} (h : Apart a b text) (h' : Apart a b text')
    (ha : c ≠ a) (hb : c ≠ b) : Apart a b (text ++ c :: text') := by
  unfold Apart at h h' ⊢
  rw [List.isChain_append, List.isChain_cons]
  refine ⟨h, ⟨fun y _ hxy => ha hxy.1, h'⟩, ?_⟩
  intro x _ y hy hxy
  rw [List.head?_cons, Option.mem_some_iff] at hy
  exact hb (hy.trans hxy.2)

/-- A first character other than `a`. -/
theorem Apart.cons {a b c : α} {text : List α} (h : Apart a b text) (ha : c ≠ a) :
    Apart a b (c :: text) := by
  unfold Apart at h ⊢
  rw [List.isChain_cons]
  exact ⟨fun y _ hxy => ha hxy.1, h⟩

/-- A last character other than `b`. -/
theorem Apart.concat {a b c : α} {text : List α} (h : Apart a b text) (hb : c ≠ b) :
    Apart a b (text ++ [c]) := by
  unfold Apart at h ⊢
  rw [List.isChain_append]
  refine ⟨h, .singleton c, ?_⟩
  intro x _ y hy hxy
  rw [List.head?_cons, Option.mem_some_iff] at hy
  exact hb (hy.trans hxy.2)

/-! ## Splitting -/

variable [DecidableEq α]

/-- The pieces of `text`, with characters of a separator still to skip and the piece so far. -/
def splitGo (sep : List α) : ℕ → List α → List α → List (List α)
  | _, piece, [] => [piece]
  | skip + 1, piece, _ :: text => splitGo sep skip piece text
  | 0, piece, c :: text =>
    if sep <+: c :: text then piece :: splitGo sep (sep.length - 1) [] text
    else splitGo sep 0 (piece ++ [c]) text

def splitText (sep text : List α) : List (List α) := splitGo sep 0 [] text

variable {sep piece rest : List α}

theorem splitGo_skip (sep piece skipped rest : List α) :
    splitGo sep skipped.length piece (skipped ++ rest) = splitGo sep 0 piece rest := by
  induction skipped with
  | nil => rfl
  | cons c skipped ih =>
    rw [List.length_cons, List.cons_append, splitGo]
    exact ih

theorem splitGo_sep (hsep : sep ≠ []) (piece rest : List α) :
    splitGo sep 0 piece (sep ++ rest) = piece :: splitGo sep 0 [] rest := by
  cases sep with
  | nil => exact absurd rfl hsep
  | cons c sep =>
    have hfront : c :: sep <+: c :: (sep ++ rest) := List.prefix_append (c :: sep) rest
    rw [List.cons_append, splitGo, if_pos hfront]
    exact congrArg _ (splitGo_skip (c :: sep) [] sep rest)

/-- Where no separator starts, the text belongs to the current piece. -/
theorem splitGo_append {part : List α} (h : ∀ v, v <:+ part → v ≠ [] → ¬ sep <+: v ++ rest) :
    splitGo sep 0 piece (part ++ rest) = splitGo sep 0 (piece ++ part) rest := by
  induction part generalizing piece with
  | nil => rw [List.nil_append, List.append_nil]
  | cons c part ih =>
    have hnot : ¬ sep <+: c :: (part ++ rest) :=
      h (c :: part) (List.suffix_refl _) (List.cons_ne_nil _ _)
    rw [List.cons_append, splitGo, if_neg hnot,
      ih fun v hv hne => h v (hv.trans (List.suffix_cons c part)) hne, List.append_assoc,
      List.singleton_append]

/-- A part without the only character of the separator. -/
theorem splitGo_append_of_not_mem {c : α} {part : List α} (h : c ∉ part) (piece rest : List α) :
    splitGo [c] 0 piece (part ++ rest) = splitGo [c] 0 (piece ++ part) rest := by
  apply splitGo_append
  intro v hv hne hfront
  obtain ⟨x, v, rfl⟩ := List.exists_cons_of_ne_nil hne
  rw [List.cons_append, List.cons_prefix_cons] at hfront
  exact h (hv.mem (hfront.1 ▸ List.mem_cons_self ..))

/-- A part in which the two do not follow each other, before a character other than the second. -/
theorem splitGo_append_of_apart {a b c : α} {part : List α} (h : Apart a b part) (hb : c ≠ b)
    (piece rest : List α) :
    splitGo [a, b] 0 piece (part ++ c :: rest) = splitGo [a, b] 0 (piece ++ part) (c :: rest) := by
  apply splitGo_append
  intro v hv hne hfront
  have hapart : Apart a b (v ++ [c]) := Apart.concat (List.IsChain.suffix h hv) hb
  obtain ⟨x, v, rfl⟩ := List.exists_cons_of_ne_nil hne
  rw [List.cons_append, List.cons_prefix_cons] at hfront
  obtain ⟨rfl, hfront⟩ := hfront
  -- the second character is the next of `v`, or `c`
  cases v with
  | nil =>
    rw [List.nil_append, List.cons_prefix_cons] at hfront
    exact hb hfront.1.symm
  | cons y v =>
    rw [List.cons_append, List.cons_prefix_cons] at hfront
    exact (List.isChain_cons_cons.mp hapart).1 ⟨rfl, hfront.1.symm⟩

end Lib
end LiveStream
