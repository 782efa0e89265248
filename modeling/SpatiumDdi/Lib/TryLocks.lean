import Mathlib.Logic.Relation
import Mathlib.Logic.Function.Basic

/-!
Transactions that try for a lock. Each takes one lock without waiting, is
refused when another holds it, writes, and keeps the lock until it ends. Two
transactions past their lock step hold different locks, and that is all: any
two with different locks can be past it together.
-/

namespace SpatiumDdi.TryLocks

variable {ι Λ : Type} [DecidableEq ι]

inductive Phase where
  | idle
  | locked
  | written
  | ended
deriving DecidableEq

def Phase.holds : Phase → Prop
  | .locked | .written => True
  | .idle | .ended => False

abbrev State (ι : Type) := ι → Phase

def initial : State ι := fun _ => .idle

inductive Step (lock : ι → Λ) (s : State ι) : State ι → Prop where
  | take (i : ι) : s i = .idle → (∀ j, (s j).holds → lock j ≠ lock i) →
      Step lock s (Function.update s i .locked)
  | refuse (i j : ι) : s i = .idle → (s j).holds → lock j = lock i →
      Step lock s (Function.update s i .ended)
  | write (i : ι) : s i = .locked → Step lock s (Function.update s i .written)
  | finish (i : ι) : (s i).holds → Step lock s (Function.update s i .ended)

def Reachable (lock : ι → Λ) : State ι → Prop := Relation.ReflTransGen (Step lock) initial

def Exclusive (lock : ι → Λ) (s : State ι) : Prop :=
  ∀ i j, i ≠ j → (s i).holds → (s j).holds → lock i ≠ lock j

variable {lock : ι → Λ} {s s' : State ι}

theorem holds_update {i k : ι} {p : Phase} (h : (Function.update s i p k).holds) :
    (k = i ∧ p.holds) ∨ (s k).holds := by
  by_cases hk : k = i
  · subst hk
    rw [Function.update_self] at h
    exact Or.inl ⟨rfl, h⟩
  · rw [Function.update_of_ne hk] at h
    exact Or.inr h

theorem Exclusive.ended (h : Exclusive lock s) (i : ι) :
    Exclusive lock (Function.update s i .ended) := by
  intro j k hjk hj hk
  rcases holds_update hj with ⟨-, hj⟩ | hj
  · exact hj.elim
  rcases holds_update hk with ⟨-, hk⟩ | hk
  · exact hk.elim
  exact h j k hjk hj hk

theorem Exclusive.step (h : Exclusive lock s) (hstep : Step lock s s') : Exclusive lock s' := by
  cases hstep with
  | take i hidle hfree =>
    intro j k hjk hj hk
    rcases holds_update hj with ⟨rfl, -⟩ | hj'
    · rcases holds_update hk with ⟨rfl, -⟩ | hk'
      · exact absurd rfl hjk
      · exact (hfree k hk').symm
    · rcases holds_update hk with ⟨rfl, -⟩ | hk'
      · exact hfree j hj'
      · exact h j k hjk hj' hk'
  | refuse i _ hidle _ _ => exact h.ended i
  | write i hlocked =>
    have hi : (s i).holds := by rw [hlocked]; trivial
    intro j k hjk hj hk
    have hj : (s j).holds := (holds_update hj).elim (fun hj => hj.1 ▸ hi) id
    have hk : (s k).holds := (holds_update hk).elim (fun hk => hk.1 ▸ hi) id
    exact h j k hjk hj hk
  | finish i _ => exact h.ended i

theorem Reachable.exclusive (h : Reachable lock s) : Exclusive lock s := by
  induction h with
  | refl => exact fun _ _ _ hi _ => hi.elim
  | tail _ hstep ih => exact ih.step hstep

/-- Two transactions with different locks can be past their lock step at once. -/
theorem exists_reachable {i j : ι} (hij : i ≠ j) (hlock : lock i ≠ lock j) :
    ∃ s, Reachable lock s ∧ (s i).holds ∧ (s j).holds := by
  have hone : Step lock initial (Function.update initial i .locked) :=
    .take i rfl fun _ hk => hk.elim
  have htwo : Step lock (Function.update initial i .locked)
      (Function.update (Function.update initial i .locked) j .locked) := by
    refine .take j (by rw [Function.update_of_ne hij.symm]; rfl) fun k hk => ?_
    rcases holds_update hk with ⟨rfl, -⟩ | hk
    · exact hlock
    · exact hk.elim
  refine ⟨_, (Relation.ReflTransGen.single hone).tail htwo, ?_, ?_⟩
  · rw [Function.update_of_ne hij, Function.update_self]
    trivial
  · rw [Function.update_self]
    trivial

/-- Transactions that share something never overlap exactly when those that
share it take one lock. -/
theorem excludes_iff (shares : ι → ι → Prop) :
    (∀ s, Reachable lock s → ∀ i j, i ≠ j → shares i j → (s i).holds → ¬ (s j).holds) ↔
      ∀ i j, i ≠ j → shares i j → lock i = lock j := by
  constructor
  · intro h i j hij hshares
    by_contra hlock
    obtain ⟨s, hs, hi, hj⟩ := exists_reachable hij hlock
    exact h s hs i j hij hshares hi hj
  · intro h s hs i j hij hshares hi hj
    exact hs.exclusive i j hij hi hj (h i j hij hshares)

end SpatiumDdi.TryLocks
