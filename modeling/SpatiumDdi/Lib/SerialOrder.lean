import Mathlib.Tactic.Ring
import SpatiumDdi.Lib.Runs

/-!
Serial numbers that wrap, and a copy that follows another by them.

`Later half m n` is the order of serial numbers modulo `2 * half`: `m` is ahead of `n` by less than
half the circle. It is not transitive, so a follower keeps up only with a leader each of whose moves is
later than the one before.
-/

namespace SpatiumDdi.SerialOrder

universe u v

def Later (half m n : Nat) : Prop :=
  0 < ((m : Int) - n) % (2 * half) ∧ ((m : Int) - n) % (2 * half) < half

instance (half m n : Nat) : Decidable (Later half m n) :=
  inferInstanceAs (Decidable (_ ∧ _))

theorem not_later_self (half n : Nat) : ¬ Later half n n := by
  rintro ⟨hpos, _⟩
  simp at hpos

theorem Later.ne {half m n : Nat} (h : Later half m n) : m ≠ n := by
  rintro rfl
  exact not_later_self half m h

theorem later_add {half : Nat} (n k : Nat) (hpos : 0 < k) (hk : k < half) :
    Later half ((n + k) % (2 * half)) n := by
  have hmod : (((n + k) % (2 * half) : Nat) - n : Int) % (2 * half) = k := by
    push_cast
    rw [Int.emod_sub_emod]
    have hk' : ((n : Int) + k - n) = k := by ring
    rw [hk', Int.emod_eq_of_lt (by omega) (by omega)]
  constructor
  · rw [hmod]
    omega
  · rw [hmod]
    omega

@[ext] structure Copy (ν : Type u) (δ : Type v) where
  version : ν
  data : δ
deriving DecidableEq

variable {ν : Type u} {δ : Type v} {later : ν → ν → Prop} [DecidableRel later]
variable {leader leader' follower : Copy ν δ}

variable (later) in
/-- A follower takes the leader's copy when its version is later than its own. -/
def follow (leader follower : Copy ν δ) : Copy ν δ :=
  if later leader.version follower.version then leader else follower

theorem follow_of_later (h : later leader.version follower.version) :
    follow later leader follower = leader := if_pos h

theorem follow_of_not_later (h : ¬ later leader.version follower.version) :
    follow later leader follower = follower := if_neg h

variable (hirrefl : ∀ v, ¬ later v v)
include hirrefl

theorem follow_version (hsame : follower.version = leader.version)
    (hmove : leader'.version = leader.version ∨ later leader'.version leader.version) :
    (follow later leader' follower).version = leader'.version := by
  rcases hmove with hkept | hlater
  · rw [follow_of_not_later, hsame, hkept]
    rw [hsame, hkept]
    exact hirrefl _
  · rw [follow_of_later]
    rwa [hsame]

theorem follow_data (hsame : follower = leader)
    (hmove : leader'.version = leader.version ∨ later leader'.version leader.version) :
    (follow later leader' follower).data = leader'.data ↔
      (leader'.version = leader.version → leader'.data = leader.data) := by
  subst hsame
  rcases hmove with hkept | hlater
  · rw [follow_of_not_later (by rw [hkept]; exact hirrefl _)]
    exact ⟨fun h _ => h.symm, fun h => (h hkept).symm⟩
  · rw [follow_of_later hlater]
    refine iff_of_true rfl fun hkept => absurd hlater ?_
    rw [hkept]
    exact hirrefl _

end SpatiumDdi.SerialOrder
