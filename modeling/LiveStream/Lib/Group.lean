import LiveStream.Lib.Run

/-!
# Objects that share a state

Any number of objects of one kind, each under a name, and one state that all of them read and
write, such as the connections of a server and the singleton they talk to. An event creates or
destroys an object, lets one of them act, or is a call from outside that reaches the shared state
only.

* `step_act`, what one object does leaves the others alone;
* `Safe.step` and `Safe.run`, an invariant of the shared state together with one of every object,
  over every order of the events.
-/

namespace LiveStream
namespace Lib

/-- The shared state, and the objects by their names. -/
structure Group (ι σ : Type*) where
  shared : ι
  members : ℕ → Option σ

namespace Group

variable {ι σ κ α β : Type*}

/-- How an object is made and destroyed, what its actions do, and what a call from outside does. An
object can leave its name in the shared state. -/
structure Methods (ι σ κ α β : Type*) where
  new : ι → ℕ → κ → ι × σ
  act : ι → σ → α → ι × σ
  destroy : ι → ℕ → ι
  call : ι → β → ι

inductive Event (κ α β : Type*) where
  | create (name : ℕ) (arg : κ)
  | act (name : ℕ) (action : α)
  | destroy (name : ℕ)
  | call (c : β)

/-- Before the first object is made. -/
def empty (i : ι) : Group ι σ := ⟨i, fun _ => none⟩

/-- An action of a name that is not there does nothing. -/
def step (m : Methods ι σ κ α β) (g : Group ι σ) : Event κ α β → Group ι σ
  | .create name arg =>
    ⟨(m.new g.shared name arg).1,
      Function.update g.members name (some (m.new g.shared name arg).2)⟩
  | .act name action =>
    match g.members name with
    | none => g
    | some s =>
      ⟨(m.act g.shared s action).1,
        Function.update g.members name (some (m.act g.shared s action).2)⟩
  | .destroy name => ⟨m.destroy g.shared name, Function.update g.members name none⟩
  | .call c => { g with shared := m.call g.shared c }

theorem step_act (m : Methods ι σ κ α β) {g : Group ι σ} {name : ℕ} {s : σ}
    (h : g.members name = some s) (action : α) :
    g.step m (.act name action) = ⟨(m.act g.shared s action).1,
      Function.update g.members name (some (m.act g.shared s action).2)⟩ := by
  simp only [step, h]

/-! ## Invariants -/

/-- `Q` of the shared state, and `P` of every object. -/
def Safe (Q : ι → Prop) (P : σ → Prop) (g : Group ι σ) : Prop :=
  Q g.shared ∧ ∀ name s, g.members name = some s → P s

theorem safe_empty {Q : ι → Prop} (P : σ → Prop) {i : ι} (h : Q i) :
    Safe Q P (empty i : Group ι σ) :=
  ⟨h, fun _ _ hs => by cases hs⟩

/-- What is asked of the arguments, the actions and the calls. -/
def Event.Meets (K : κ → Prop) (A : α → Prop) (B : β → Prop) : Event κ α β → Prop
  | .create _ arg => K arg
  | .act _ action => A action
  | .destroy _ => True
  | .call c => B c

/-- That the methods keep the two invariants. -/
structure Methods.Keeps (m : Methods ι σ κ α β) (Q : ι → Prop) (P : σ → Prop) (K : κ → Prop)
    (A : α → Prop) (B : β → Prop) : Prop where
  new : ∀ i, Q i → ∀ name arg, K arg → Q (m.new i name arg).1 ∧ P (m.new i name arg).2
  act : ∀ i, Q i → ∀ s, P s → ∀ a, A a → Q (m.act i s a).1 ∧ P (m.act i s a).2
  destroy : ∀ i, Q i → ∀ name, Q (m.destroy i name)
  call : ∀ i, Q i → ∀ c, B c → Q (m.call i c)

variable {m : Methods ι σ κ α β} {Q : ι → Prop} {P : σ → Prop} {K : κ → Prop} {A : α → Prop}
  {B : β → Prop}

/-- What holds of the objects and of what takes the place of one holds of all of them. -/
theorem forall_update {members : ℕ → Option σ} (h : ∀ name s, members name = some s → P s)
    {t : Option σ} (ht : ∀ s, t = some s → P s) (name : ℕ) :
    ∀ other s, Function.update members name t other = some s → P s := by
  intro other s hs
  by_cases hname : other = name
  · subst hname
    rw [Function.update_self] at hs
    exact ht s hs
  · rw [Function.update_of_ne hname] at hs
    exact h other s hs

/-- An event that meets its conditions keeps the invariants of the shared state and the members. -/
theorem Safe.step {g : Group ι σ} (h : Safe Q P g) (hm : m.Keeps Q P K A B) {e : Event κ α β}
    (he : e.Meets K A B) : Safe Q P (g.step m e) := by
  obtain ⟨hshared, hmembers⟩ := h
  have hsome : ∀ {t : σ}, P t → ∀ s, some t = some s → P s := fun ht _ hs => Option.some.inj hs ▸ ht
  cases e with
  | create name arg =>
    have hnew := hm.new _ hshared name arg he
    exact ⟨hnew.1, forall_update hmembers (hsome hnew.2) name⟩
  | act name action =>
    cases hs : g.members name with
    | none =>
      have hstep : g.step m (.act name action) = g := by simp only [Group.step, hs]
      rw [hstep]
      exact ⟨hshared, hmembers⟩
    | some s =>
      have hact := hm.act _ hshared s (hmembers name s hs) action he
      rw [step_act m hs]
      exact ⟨hact.1, forall_update hmembers (hsome hact.2) name⟩
  | destroy name =>
    exact ⟨hm.destroy _ hshared name, forall_update hmembers (fun _ hs => by cases hs) name⟩
  | call c => exact ⟨hm.call _ hshared c he, hmembers⟩

theorem Safe.run {g : Group ι σ} (h : Safe Q P g) (hm : m.Keeps Q P K A B)
    {es : List (Event κ α β)} (hes : ∀ e ∈ es, e.Meets K A B) :
    Safe Q P (run (Group.step m) g es) :=
  run_invariant h fun _ ht e he => ht.step hm (hes e he)

end Group
end Lib
end LiveStream
