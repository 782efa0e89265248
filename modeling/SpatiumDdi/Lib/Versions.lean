import Mathlib.Data.List.Nodup

/-!
A table of numbered versions: an upsert on the number, and a retention rule that keeps the newest
ones. What is stored is read by its number.
-/

namespace SpatiumDdi

universe u

structure Versions (α : Type u) (number : α → ℕ) where
  rows : List α
  unique : (rows.map number).Nodup

namespace Versions

variable {α : Type u} {number : α → ℕ} (v : Versions α number)

def empty : Versions α number := ⟨[], List.nodup_nil⟩

def at? (n : ℕ) : Option α := v.rows.find? (number · = n)

/-- An INSERT, or the UPDATE in place of the row that conflicts. -/
def put (row : α) : Versions α number where
  rows := row :: v.rows.filter (number · ≠ number row)
  unique := by
    rw [List.map_cons, List.nodup_cons]
    constructor
    · intro hmem
      obtain ⟨other, hother, heq⟩ := List.mem_map.mp hmem
      simp [heq] at hother
    · exact v.unique.sublist (List.filter_sublist.map _)

/-- Whether fewer than `keep` rows are newer. -/
def kept (keep n : ℕ) : Bool := (v.rows.filter (n < number ·)).length < keep

def keepNewest (keep : ℕ) : Versions α number where
  rows := v.rows.filter fun row => v.kept keep (number row)
  unique := v.unique.sublist (List.filter_sublist.map _)

variable {v} {n keep : ℕ} {row : α}

theorem at?_some (h : v.at? n = some row) : row ∈ v.rows ∧ number row = n :=
  ⟨List.mem_of_find?_eq_some h, by simpa using List.find?_some h⟩

@[simp] theorem at?_put_self (row : α) : (v.put row).at? (number row) = some row := by
  simp [at?, put]

theorem mem_put {other : α} (h : other ∈ (v.put row).rows) : other = row ∨ other ∈ v.rows :=
  (List.mem_cons.mp h).imp_right List.mem_of_mem_filter

theorem at?_put_of_ne (h : n ≠ number row) : (v.put row).at? n = v.at? n := by
  have hne : number row ≠ n := Ne.symm h
  simp only [at?, put, List.find?_cons, hne, decide_false, List.find?_filter]
  congr 1
  funext other
  by_cases hother : number other = n
  · simp [hother, h]
  · simp [hother]

theorem mem_keepNewest (h : row ∈ (v.keepNewest keep).rows) : row ∈ v.rows :=
  List.mem_of_mem_filter h

theorem at?_keepNewest (h : v.kept keep n = true) : (v.keepNewest keep).at? n = v.at? n := by
  simp only [at?, keepNewest, List.find?_filter]
  congr 1
  funext row
  by_cases hrow : number row = n
  · simp [hrow, h]
  · simp [hrow]

theorem kept_of_max (hkeep : 1 ≤ keep) (hmax : ∀ row ∈ v.rows, number row ≤ n) :
    v.kept keep n = true := by
  have hnone : v.rows.filter (n < number ·) = [] := by
    rw [List.filter_eq_nil_iff]
    intro row hrow
    simpa using hmax row hrow
  rw [kept, hnone]
  exact decide_eq_true hkeep

end Versions

end SpatiumDdi
