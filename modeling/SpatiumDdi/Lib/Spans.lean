import Mathlib.Data.List.Sort

/-!
Closed spans of numbers, sorted and merged so that one binary search finds the only span that can
hold a number. Merging keeps the numbers held, and spans that come one after the other without
touching are searched right.
-/

namespace SpatiumDdi.Spans

def Holds (spans : List (Nat × Nat)) (x : Nat) : Prop := ∃ i ∈ spans, i.1 ≤ x ∧ x ≤ i.2

instance (spans : List (Nat × Nat)) (x : Nat) : Decidable (Holds spans x) :=
  inferInstanceAs (Decidable (∃ i ∈ spans, _))

@[simp] theorem not_holds_nil (x : Nat) : ¬ Holds [] x := by simp [Holds]

variable {spans merged : List (Nat × Nat)} {x : Nat} {i : Nat × Nat}

@[simp] theorem holds_cons : Holds (i :: spans) x ↔ (i.1 ≤ x ∧ x ≤ i.2) ∨ Holds spans x := by
  simp [Holds]

theorem holds_perm {spans' : List (Nat × Nat)} (h : spans.Perm spans') :
    Holds spans x ↔ Holds spans' x := by
  simp only [Holds, h.mem_iff]

def pairOrder (i j : Nat × Nat) : Prop := i.1 < j.1 ∨ i.1 = j.1 ∧ i.2 ≤ j.2

instance : DecidableRel pairOrder := fun _ _ => inferInstanceAs (Decidable (_ ∨ _))

/-- One turn of the merge: a span that meets or touches the last one extends it. The merged spans
are held last one first. -/
def mergeSpan : List (Nat × Nat) → Nat × Nat → List (Nat × Nat)
  | [], span => [span]
  | (ls, le) :: rest, span =>
    if span.1 ≤ le + 1 then
      if le < span.2 then (ls, span.2) :: rest else (ls, le) :: rest
    else span :: (ls, le) :: rest

def merge (spans : List (Nat × Nat)) : List (Nat × Nat) :=
  ((spans.insertionSort pairOrder).foldl mergeSpan []).reverse

def bisectRight (starts : List Nat) (x : Nat) : Nat := (starts.takeWhile (· ≤ x)).length

/-- The last span that starts at or before the number holds it. -/
def find (spans : List (Nat × Nat)) (x : Nat) : Bool :=
  match bisectRight (spans.map Prod.fst) x with
  | 0 => false
  | idx + 1 => spans[idx]?.any fun i => i.1 ≤ x && x ≤ i.2

def Before (i j : Nat × Nat) : Prop := i.1 ≤ j.1 ∧ i.2 < j.1

theorem mergeSpan_spec {span : Nat × Nat} (hbefore : merged.Pairwise fun j i => Before i j)
    (hstart : ∀ i ∈ merged, i.1 ≤ span.1) :
    (mergeSpan merged span).Pairwise (fun j i => Before i j) ∧
      (∀ i ∈ mergeSpan merged span, i.1 ≤ span.1) ∧
      ∀ x, Holds (mergeSpan merged span) x ↔ Holds merged x ∨ (span.1 ≤ x ∧ x ≤ span.2) := by
  cases merged with
  | nil => simp [mergeSpan]
  | cons last rest =>
    obtain ⟨ls, le⟩ := last
    obtain ⟨hlast, hrest⟩ := List.pairwise_cons.mp hbefore
    have hls : ls ≤ span.1 := hstart (ls, le) (by simp)
    simp only [mergeSpan]
    split
    case isTrue htouch =>
      split
      case isTrue hlonger =>
        refine ⟨List.pairwise_cons.mpr ⟨fun i hi => hlast i hi, hrest⟩, ?_, fun x => ?_⟩
        · simpa [hls] using fun a b hi => hstart (a, b) (by simp [hi])
        · simp only [holds_cons]
          by_cases hx : Holds rest x <;> simp only [hx, or_true, true_or, or_false]
          omega
      case isFalse =>
        refine ⟨hbefore, hstart, fun x => ?_⟩
        simp only [holds_cons]
        by_cases hx : Holds rest x <;> simp only [hx, or_true, true_or, or_false]
        omega
    case isFalse happart =>
      refine ⟨List.pairwise_cons.mpr ⟨fun i hi => ?_, hbefore⟩, ?_, fun x => ?_⟩
      · rcases List.mem_cons.mp hi with rfl | hi
        · exact ⟨hls, by simp only; omega⟩
        · have hi' := hlast i hi
          simp only [Before] at hi' ⊢
          omega
      · intro i hi
        rcases List.mem_cons.mp hi with rfl | hi
        · exact le_rfl
        · exact hstart i hi
      · rw [holds_cons, or_comm]

theorem foldl_mergeSpan (hsorted : spans.Pairwise fun i j => i.1 ≤ j.1)
    (hbefore : merged.Pairwise fun j i => Before i j)
    (hstart : ∀ i ∈ merged, ∀ j ∈ spans, i.1 ≤ j.1) :
    (spans.foldl mergeSpan merged).Pairwise (fun j i => Before i j) ∧
      ∀ x, Holds (spans.foldl mergeSpan merged) x ↔ Holds merged x ∨ Holds spans x := by
  induction spans generalizing merged with
  | nil => simpa using hbefore
  | cons span spans ih =>
    obtain ⟨hspan, hsorted⟩ := List.pairwise_cons.mp hsorted
    obtain ⟨hnext, hnextStart, hnextHolds⟩ :=
      mergeSpan_spec hbefore fun i hi => hstart i hi span (by simp)
    obtain ⟨hall, hholds⟩ := ih hsorted hnext fun i hi j hj =>
      (hnextStart i hi).trans (hspan j hj)
    refine ⟨hall, fun x => ?_⟩
    rw [List.foldl_cons, hholds x, hnextHolds x, holds_cons, or_assoc]

theorem merge_spec (spans : List (Nat × Nat)) :
    (merge spans).Pairwise Before ∧ ∀ x, Holds (merge spans) x ↔ Holds spans x := by
  have : Std.Total pairOrder := ⟨fun i j => by unfold pairOrder; omega⟩
  have : IsTrans (Nat × Nat) pairOrder := ⟨fun i j k => by unfold pairOrder; omega⟩
  have hsorted : (spans.insertionSort pairOrder).Pairwise fun i j => i.1 ≤ j.1 := by
    refine (List.pairwise_insertionSort pairOrder spans).imp fun {i j} h => ?_
    unfold pairOrder at h
    omega
  obtain ⟨hbefore, hholds⟩ := foldl_mergeSpan hsorted List.Pairwise.nil (by simp)
  refine ⟨List.pairwise_reverse.mpr hbefore, fun x => ?_⟩
  rw [merge, holds_perm (List.reverse_perm _), hholds x, holds_perm (List.perm_insertionSort _ _)]
  simp

theorem not_holds_of_start (h : ∀ i ∈ spans, x < i.1) : ¬ Holds spans x := by
  rintro ⟨i, hi, hle, -⟩
  have := h i hi
  omega

theorem find_cons :
    find (i :: spans) x =
      if i.1 ≤ x then
        if bisectRight (spans.map Prod.fst) x = 0 then decide (x ≤ i.2) else find spans x
      else false := by
  unfold find
  by_cases hi : i.1 ≤ x
  · rw [if_pos hi]
    have hhead : bisectRight ((i :: spans).map Prod.fst) x =
        bisectRight (spans.map Prod.fst) x + 1 := by
      simp [bisectRight, List.takeWhile_cons_of_pos, hi]
    rw [hhead]
    cases hidx : bisectRight (spans.map Prod.fst) x with
    | zero => simp [hi]
    | succ idx => simp
  · have hhead : bisectRight ((i :: spans).map Prod.fst) x = 0 := by
      simp [bisectRight, List.takeWhile_cons_of_neg, hi]
    rw [if_neg hi, hhead]

theorem find_iff (h : spans.Pairwise Before) : find spans x = true ↔ Holds spans x := by
  induction spans with
  | nil => simp [find, bisectRight]
  | cons i spans ih =>
    obtain ⟨hi, hrest⟩ := List.pairwise_cons.mp h
    rw [find_cons, holds_cons]
    split
    case isFalse hx =>
      have hnone : ¬ Holds spans x := not_holds_of_start fun j hj => by
        have := (hi j hj).1
        omega
      simp [hnone, hx]
    case isTrue hx =>
      cases spans with
      | nil => simp [bisectRight, hx]
      | cons j spans =>
        by_cases hj : j.1 ≤ x
        · have hpos : bisectRight ((j :: spans).map Prod.fst) x ≠ 0 := by
            simp [bisectRight, List.takeWhile_cons_of_pos, hj]
          have hend := (hi j (by simp)).2
          rw [if_neg hpos, ih hrest]
          exact (or_iff_right (by omega)).symm
        · have hzero : bisectRight ((j :: spans).map Prod.fst) x = 0 := by
            simp [bisectRight, List.takeWhile_cons_of_neg, hj]
          have hnone : ¬ Holds (j :: spans) x := not_holds_of_start fun k hk => by
            rcases List.mem_cons.mp hk with rfl | hk
            · omega
            · have := ((List.pairwise_cons.mp hrest).1 k hk).1
              omega
          rw [if_pos hzero]
          simp [hnone, hx]

end SpatiumDdi.Spans
