import LiveStream.Lib.Relax

/-!
# Hash tables

Maps and sets that spread their keys over buckets by a hash code and compare keys, with an
equality of their own, inside a bucket. What a library is free to choose is a `Layout`: how many
buckets there are, in what order the nodes of a bucket are looked at, and whether two hash codes
are compared before the keys are.

* `Hasher.Respects`, the contract: equal keys have equal hash codes;
* `Layout.locate`, the node a key is taken for. If the contract is broken, this depends on the
  layout;
* `Layout.Separates`, a set of keys no two of which are ever taken for each other, and
  `Layout.Separates.locate_eq`: on such keys the table is a plain map, whatever the layout.
-/

namespace LiveStream
namespace Lib

variable {κ V : Type*}

/-! ## Hash functions -/

/-- The hash function and the equality a table is made with. -/
structure Hasher (κ : Type*) where
  hash : κ → ℕ
  eq : κ → κ → Bool
  eq_refl : ∀ k, eq k k = true

/-- The contract on the keys that are used. -/
def Hasher.Respects (h : Hasher κ) (keys : List κ) : Prop :=
  ∀ x ∈ keys, ∀ y ∈ keys, h.eq x y = true → h.hash x = h.hash y

/-! ## Layouts -/

/-- The two ways a key is looked for. -/
inductive Access
  | find
  | insert

/-- What the library chooses, given the keys stored so far in the order of their insertion. -/
structure Layout (κ : Type*) where
  bucketCount : List κ → ℕ
  /-- The order in which stored keys are compared. -/
  chain : List κ → List κ
  chain_perm : ∀ keys, (chain keys).Perm keys
  /-- Whether hash codes are compared before keys are. -/
  comparesCodes : Access → Bool

namespace Layout

/-- A fixed number of buckets, keys in the order of their insertion, and only keys compared. -/
def fixed (n : ℕ) : Layout κ :=
  ⟨fun _ => n, fun keys => keys, fun _ => .refl _, fun _ => false⟩

variable (h : Hasher κ) (l : Layout κ) (a : Access)

/-- The stored key `x` is taken for `k`. -/
def meets (keys : List κ) (x k : κ) : Bool :=
  (h.hash x % l.bucketCount keys == h.hash k % l.bucketCount keys) &&
    (!l.comparesCodes a || h.hash x == h.hash k) && h.eq x k

/-- The stored key that `k` is taken for. -/
def locate (keys : List κ) (k : κ) : Option κ := (l.chain keys).find? fun x => l.meets h a keys x k

/-- Insertion into a set. -/
def insertKey (keys : List κ) (k : κ) : List κ :=
  if (l.locate h .insert keys k).isSome then keys else keys ++ [k]

/-- No two keys of `K` are taken for each other. -/
def Separates (K : Set κ) : Prop :=
  ∀ a keys, ∀ x ∈ K, ∀ y ∈ K, l.meets h a keys x y = true → x = y

variable {h l a}

theorem meets_self (keys : List κ) (k : κ) : l.meets h a keys k k = true := by
  simp [meets, h.eq_refl]

theorem eq_of_meets {keys : List κ} {x k : κ} (hm : l.meets h a keys x k = true) :
    h.eq x k = true := by
  rw [meets, Bool.and_eq_true] at hm
  exact hm.2

theorem hash_eq_of_meets {keys : List κ} {x k : κ} (hcodes : l.comparesCodes a = true)
    (hm : l.meets h a keys x k = true) : h.hash x = h.hash k := by
  simp only [meets, hcodes, Bool.not_true, Bool.false_or, Bool.and_eq_true, beq_iff_eq] at hm
  exact hm.1.2

/-- Keys that the equality tells apart are separated by every layout. -/
theorem separates_of_eq {K : Set κ} (hK : ∀ x ∈ K, ∀ y ∈ K, h.eq x y = true → x = y) :
    l.Separates h K :=
  fun _ _ x hx y hy hm => hK x hx y hy (eq_of_meets hm)

/-- Keys that the equality and the hash code together tell apart are separated by the layouts that
compare hash codes. -/
theorem separates_of_comparesCodes {K : Set κ} (hcodes : ∀ a, l.comparesCodes a = true)
    (hK : ∀ x ∈ K, ∀ y ∈ K, h.eq x y = true → h.hash x = h.hash y → x = y) : l.Separates h K :=
  fun a _ x hx y hy hm => hK x hx y hy (eq_of_meets hm) (hash_eq_of_meets (hcodes a) hm)

variable {K : Set κ} {keys : List κ} {k : κ}

/-- A separated key is taken for itself, or for none. -/
theorem Separates.locate_eq [DecidableEq κ] (hsep : l.Separates h K) (hkeys : ∀ x ∈ keys, x ∈ K)
    (hk : k ∈ K) : l.locate h a keys k = if k ∈ keys then some k else none := by
  split
  · next hmem =>
    cases hfound : l.locate h a keys k with
    | none =>
      -- the key itself would have been found
      have hnone := List.find?_eq_none.mp hfound k ((l.chain_perm keys).mem_iff.mpr hmem)
      exact absurd (meets_self keys k) hnone
    | some x =>
      have hx := (l.chain_perm keys).mem_iff.mp (List.mem_of_find?_eq_some hfound)
      have hmeets : l.meets h a keys x k = true := by
        simpa using List.find?_some hfound
      rw [hsep a keys x (hkeys x hx) k hk hmeets]
  · next hmem =>
    apply List.find?_eq_none.mpr
    intro x hx hmeets
    have hx' := (l.chain_perm keys).mem_iff.mp hx
    have heq := hsep a keys x (hkeys x hx') k hk hmeets
    exact hmem (heq ▸ hx')

/-- On separated keys a set holds what was inserted. -/
theorem Separates.insertKey_eq [DecidableEq κ] (hsep : l.Separates h K)
    (hkeys : ∀ x ∈ keys, x ∈ K) (hk : k ∈ K) : l.insertKey h keys k = insertNew keys k := by
  rw [insertKey, hsep.locate_eq hkeys hk, insertNew]
  by_cases hmem : k ∈ keys <;> simp [hmem]

end Layout

/-! ## Maps -/

/-- The nodes of a map: the stored keys in the order of their insertion, and their values. -/
structure Table (κ V : Type*) where
  keys : List κ
  get : κ → Option V
  stored : ∀ k, (get k).isSome ↔ k ∈ keys

namespace Table

theorem stored_empty (k : κ) : ((fun _ => none : κ → Option V) k).isSome ↔ k ∈ ([] : List κ) := by
  simp

def empty : Table κ V := ⟨[], fun _ => none, stored_empty⟩

variable [DecidableEq κ]

theorem stored_put (t : Table κ V) (k : κ) (v : V) (x : κ) :
    (Function.update t.get k (some v) x).isSome ↔ x ∈ insertNew t.keys k := by
  rw [mem_insertNew, ← t.stored x]
  by_cases hx : x = k
  · simp [hx]
  · simp [hx]

/-- The node of the key `k` gets the value `v`; it is made if there is none. -/
def put (t : Table κ V) (k : κ) (v : V) : Table κ V :=
  ⟨insertNew t.keys k, Function.update t.get k (some v), t.stored_put k v⟩

variable (h : Hasher κ) (l : Layout κ) (t : Table κ V) (k : κ)

/-- `t.find(k) != t.end()`. -/
def contains : Bool := (l.locate h .find t.keys k).isSome

/-- The key of the node that `t[k]` refers to. -/
def slot : κ := (l.locate h .insert t.keys k).getD k

/-- The table after `t[k]`, which makes a node with a value of its own if none is found. -/
def touch (blank : V) : Table κ V :=
  if (l.locate h .insert t.keys k).isSome then t else t.put k blank

/-- The value `t[k]` refers to. -/
def read (blank : V) : V := (t.get (t.slot h l k)).getD blank

/-- `t[k] = v`. A node that is found keeps its key. -/
def assign (v : V) : Table κ V := t.put (t.slot h l k) v

variable {h l t k} {K : Set κ}

@[simp] theorem get_put (v : V) : (t.put k v).get = Function.update t.get k (some v) := rfl

theorem contains_eq (hsep : l.Separates h K) (hkeys : ∀ x ∈ t.keys, x ∈ K) (hk : k ∈ K) :
    t.contains h l k = (t.get k).isSome := by
  rw [Bool.eq_iff_iff, t.stored k, contains, hsep.locate_eq hkeys hk]
  by_cases hmem : k ∈ t.keys <;> simp [hmem]

theorem slot_eq (hsep : l.Separates h K) (hkeys : ∀ x ∈ t.keys, x ∈ K) (hk : k ∈ K) :
    t.slot h l k = k := by
  rw [slot, hsep.locate_eq hkeys hk]
  split <;> rfl

theorem touch_eq (hsep : l.Separates h K) (hkeys : ∀ x ∈ t.keys, x ∈ K) (hk : k ∈ t.keys)
    (blank : V) : t.touch h l k blank = t := by
  rw [touch, hsep.locate_eq hkeys (hkeys k hk), if_pos hk]
  rfl

theorem assign_eq (hsep : l.Separates h K) (hkeys : ∀ x ∈ t.keys, x ∈ K) (hk : k ∈ K) (v : V) :
    t.assign h l k v = t.put k v := by
  rw [assign, slot_eq hsep hkeys hk]

theorem read_eq (hsep : l.Separates h K) (hkeys : ∀ x ∈ t.keys, x ∈ K) (hk : k ∈ t.keys)
    {v : V} (hv : t.get k = some v) (blank : V) : t.read h l k blank = v := by
  rw [read, slot_eq hsep hkeys (hkeys k hk), hv, Option.getD_some]

end Table

end Lib
end LiveStream
