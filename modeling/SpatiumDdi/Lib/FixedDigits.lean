import Mathlib.Data.Nat.Digits.Lemmas

/-!
The digits of a number in a base, as many as asked for, the least significant first.
-/

namespace SpatiumDdi

def fixedDigits (b : Nat) : Nat → Nat → List Nat
  | 0, _ => []
  | n + 1, x => x % b :: fixedDigits b n (x / b)

/-- The number a row of digits spells, the most significant first. -/
def ofBigEndian (b : Nat) (digits : List Nat) : Nat :=
  digits.foldl (fun value d => value * b + d) 0

namespace FixedDigits

variable {b n x y j : Nat}

@[simp] theorem length (b n x : Nat) : (fixedDigits b n x).length = n := by
  induction n generalizing x with
  | zero => rfl
  | succ n ih => rw [fixedDigits, List.length_cons, ih]

theorem lt_base (hb : 0 < b) {d : Nat} (h : d ∈ fixedDigits b n x) : d < b := by
  induction n generalizing x with
  | zero => cases h
  | succ n ih =>
    rw [fixedDigits, List.mem_cons] at h
    rcases h with rfl | h
    · exact Nat.mod_lt _ hb
    · exact ih h

theorem drop (b n x j : Nat) : (fixedDigits b n x).drop j = fixedDigits b (n - j) (x / b ^ j) := by
  induction j generalizing n x with
  | zero => simp
  | succ j ih =>
    cases n with
    | zero => simp [fixedDigits]
    | succ n =>
      rw [fixedDigits, List.drop_succ_cons, ih, Nat.div_div_eq_div_mul, ← Nat.pow_succ',
        Nat.succ_sub_succ]

theorem ofDigits_eq (b n x : Nat) : Nat.ofDigits b (fixedDigits b n x) = x % b ^ n := by
  induction n generalizing x with
  | zero => simp [fixedDigits, Nat.mod_one]
  | succ n ih =>
    rw [fixedDigits, Nat.ofDigits_cons, ih, Nat.pow_succ', Nat.mod_mul]

theorem inj (h : fixedDigits b n x = fixedDigits b n y) : x % b ^ n = y % b ^ n := by
  rw [← ofDigits_eq, ← ofDigits_eq, h]

theorem of_dvd (hb : 0 < b) (hj : j ≤ n) (h : b ^ j ∣ x) :
    fixedDigits b n x = List.replicate j 0 ++ fixedDigits b (n - j) (x / b ^ j) := by
  induction j generalizing n x with
  | zero => simp
  | succ j ih =>
    obtain ⟨m, rfl⟩ : ∃ m, n = m + 1 := ⟨n - 1, by omega⟩
    have hdvd : b ∣ x := (Dvd.intro_left (b ^ j) rfl).trans h
    have hrest : b ^ j ∣ x / b := by
      obtain ⟨k, rfl⟩ := h
      rw [Nat.pow_succ', Nat.mul_assoc, Nat.mul_div_cancel_left _ hb]
      exact Nat.dvd_mul_right _ _
    rw [fixedDigits, Nat.mod_eq_zero_of_dvd hdvd, ih (by omega) hrest, List.replicate_succ,
      List.cons_append, Nat.div_div_eq_div_mul, ← Nat.pow_succ', Nat.succ_sub_succ]

end FixedDigits

theorem ofBigEndian_reverse (b : Nat) (digits : List Nat) :
    ofBigEndian b digits.reverse = Nat.ofDigits b digits := by
  rw [ofBigEndian, List.foldl_reverse, Nat.ofDigits_eq_foldr]
  congr 1
  funext d value
  rw [Nat.add_comm, Nat.mul_comm]
  rfl

theorem ofBigEndian_append (b : Nat) (high low : List Nat) :
    ofBigEndian b (high ++ low) = ofBigEndian b high * b ^ low.length + ofBigEndian b low := by
  have hstart : ∀ start, low.foldl (fun value d => value * b + d) start =
      start * b ^ low.length + ofBigEndian b low := by
    induction low with
    | nil => simp [ofBigEndian]
    | cons d low ih =>
      intro start
      rw [ofBigEndian, List.foldl_cons, List.foldl_cons, ih, ih, List.length_cons, Nat.pow_succ']
      ring
  rw [ofBigEndian, List.foldl_append, hstart]
  rfl

/-- The digits of `n`, filled up with zeros in front. -/
def padded (width n : Nat) : List Nat :=
  List.replicate (width - (Nat.digits 10 n).length) 0 ++ (Nat.digits 10 n).reverse

end SpatiumDdi
